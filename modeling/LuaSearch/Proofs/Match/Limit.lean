import LuaSearch.Match.Session
import LuaSearch.Proofs.Lowering
import LuaSearch.Proofs.Match.Simulation
import LuaSearch.Proofs.Parse.Depth

/-!
The limits on depth agree. A block that a statement opens lies less deep than the statement, so a
search that has a level left for each block on the way down to the deepest never runs out of
levels. Lowering replaces parts of a tree by wildcards and makes nothing deeper. What is read from
a text nests within the limit of the parser; a search whose own limit is not lower than that
refuses neither a template nor a candidate for its depth.
-/
namespace LuaSearch

namespace Depth

theorem append_lt_max {as bs : List Block} {m n : Nat} (left : ∀ body ∈ as, stmts body < m)
    (right : ∀ body ∈ bs, stmts body < n) : ∀ body ∈ as ++ bs, stmts body < max m n := by
  intro body member
  rcases List.mem_append.mp member with first | second
  · have := left body first
    omega
  · have := right body second
    omega

mutual
theorem literals_expr : ∀ e : Expr, ∀ body ∈ Literals.expr e, stmts body < expr e
  | .constant .. | .string .. | .number .. | .ident .. | .wildcard .. => by simp [Literals.expr]
  | .unary _ _ operand => literals_expr operand
  | .binary _ _ left right => append_lt_max (literals_expr left) (literals_expr right)
  | .index _ object key => append_lt_max (literals_expr object) (literals_expr key)
  | .table _ fs => literals_fields fs
  | .call _ callee args _ => append_lt_max (literals_expr callee) (literals_exprs args)
  | .methodCall _ receiver _ args _ =>
      append_lt_max (literals_expr receiver) (literals_exprs args)
  | .function _ _ body => by simp [Literals.expr, expr]
termination_by structural e => e

theorem literals_exprs : ∀ es : List Expr, ∀ body ∈ Literals.exprs es, stmts body < exprs es
  | [] => by simp [Literals.exprs]
  | e :: es => append_lt_max (literals_expr e) (literals_exprs es)
termination_by structural es => es

theorem literals_field : ∀ f : Field, ∀ body ∈ Literals.field f, stmts body < field f
  | .positional value => literals_expr value
  | .keyed key value => append_lt_max (literals_expr key) (literals_expr value)
termination_by structural f => f

theorem literals_fields : ∀ fs : List Field, ∀ body ∈ Literals.fields fs, stmts body < fields fs
  | [] => by simp [Literals.fields]
  | f :: fs => append_lt_max (literals_field f) (literals_fields fs)
termination_by structural fs => fs
end

theorem exprs_append (as bs : List Expr) : exprs (as ++ bs) = max (exprs as) (exprs bs) := by
  induction as with
  | nil => simp [exprs]
  | cons a as ih => simp [exprs, ih, Nat.max_assoc]

theorem searched_le (s : Stmt) : exprs s.searched ≤ stmt s := by
  cases s with
  | numericFor _ _ start limit step? body =>
    cases step? <;> simp only [Stmt.searched, Option.toList, exprs, stmt, step] <;> omega
  | _ =>
    simp only [Stmt.searched, exprs_append, exprs, stmt]
    omega

theorem functionBodies_lt (s : Stmt) : ∀ body ∈ s.functionBodies, stmts body < stmt s := by
  intro body member
  have literal := literals_exprs s.searched body
  have searched := searched_le s
  cases s with
  | localFunction _ _ _ declared =>
    obtain rfl := List.mem_singleton.mp member
    exact Nat.lt_succ_self _
  | function _ target _ _ declared =>
    obtain rfl := List.mem_singleton.mp member
    exact Nat.lt_of_lt_of_le (Nat.lt_succ_self _) (Nat.le_max_right _ _)
  | _ => exact Nat.lt_of_lt_of_le (literal member) searched

theorem bodies_lt (s : Stmt) : ∀ body ∈ s.bodies, stmts body < stmt s := by
  intro body member
  cases s with
  | doBlock | whileLoop | repeatLoop | numericFor | genericFor =>
    obtain rfl := List.mem_singleton.mp member
    rw [stmt]
    omega
  | ifStmt _ condition thenBody elseBody =>
    have either : body = thenBody ∨ body = elseBody := by simpa [Stmt.bodies] using member
    rw [stmt]
    rcases either with rfl | rfl <;> omega
  | _ => cases member

theorem opening_lt {s : Stmt} {scope : Scope} {body : Block} (opens : (scope, body) ∈ s.openings) :
    stmts body < stmt s := by
  rcases List.mem_append.mp opens with function | direct
  · obtain ⟨_, member, same⟩ := List.mem_map.mp function
    cases same
    exact functionBodies_lt s body member
  · obtain ⟨_, member, same⟩ := List.mem_map.mp direct
    cases same
    exact bodies_lt s body member

theorem stmt_le_stmts {s : Stmt} {body : Block} (member : s ∈ body) : stmt s ≤ stmts body :=
  (stmts_le_iff body _).mp (Nat.le_refl _) s member

end Depth

/-- Each opening on the way to a nested block takes a level. -/
theorem nested_depth_le {s : Stmt} {path : List Scope} {block : Block}
    (nested : Nested s path block) : path.length + Depth.stmts block ≤ Depth.stmt s := by
  induction nested with
  | opened opens =>
    have lower := Depth.opening_lt opens
    simp only [List.length_singleton]
    omega
  | deeper opens member rest ih =>
    have lower := Depth.opening_lt opens
    have inside := Depth.stmt_le_stmts member
    simp only [List.length_cons]
    omega

theorem reached_depth_le {chunk block : Block} {path : List Scope}
    (reached : Reached chunk path block) :
    path.length + Block.depth block ≤ Block.depth chunk := by
  cases reached with
  | itself => simp
  | nested member nested =>
    have lower := nested_depth_le nested
    have inside := Depth.stmt_le_stmts member
    simp only [Block.depth]
    omega

def Outcome.Answers {α : Type} (outcome : Outcome α) : Prop := ∃ a, outcome.answer = .ok a

theorem Outcome.Answers.andThen {α β : Type} {first : Outcome α} {next : α → Outcome β}
    (answers : first.Answers) (later : ∀ a, (next a).Answers) : (first.andThen next).Answers := by
  obtain ⟨a, answer⟩ := answers
  obtain ⟨b, answer'⟩ := later a
  refine ⟨b, ?_⟩
  simp only [Outcome.andThen, answer, answer']

section Blocks

variable {inner : Block → Outcome Verdict} {policy : CapturePolicy} {template : List Stmt}

theorem inOpenings_answers (openings : List (Scope × Block))
    (each : ∀ opening ∈ openings, (inner opening.2).Answers) :
    (Scan.inOpenings inner openings).Answers := by
  induction openings with
  | nil => exact ⟨none, rfl⟩
  | cons opening rest ih =>
    have later := ih fun o member => each o (List.mem_cons_of_mem opening member)
    apply (each opening List.mem_cons_self).andThen
    intro verdict
    cases verdict with
    | noMatch => exact later
    | found => exact ⟨_, rfl⟩
    | nested => exact ⟨_, rfl⟩

theorem within_answers {s : Stmt} {next : Outcome Verdict}
    (each : ∀ opening ∈ s.openings, (inner opening.2).Answers) (later : next.Answers) :
    ((Scan.within inner s).andThen fun scope? =>
      match scope? with
      | some scope => pure (.nested scope)
      | none => next).Answers := by
  rw [Scan.within_eq_inOpenings]
  apply (inOpenings_answers s.openings each).andThen
  intro scope?
  cases scope? with
  | none => exact later
  | some scope => exact ⟨_, rfl⟩

theorem advance_answers (run? : Option Scan.Run) (index : Nat) (s : Stmt) :
    (Scan.advance policy template run? index s).Answers := by
  have meet (run : Scan.Run) : (run.meet policy s).Answers := by
    unfold Scan.Run.meet
    split
    · exact ⟨none, rfl⟩
    · simp only
      split
      · exact ⟨_, rfl⟩
      · exact ⟨none, rfl⟩
  unfold Scan.advance
  cases run? with
  | none => exact meet _
  | some run =>
    apply (meet run).andThen
    intro longer?
    cases longer? with
    | some longer => exact ⟨_, rfl⟩
    | none => exact meet _

theorem greedyFrom_answers (stmts : List Stmt) (index : Nat) (run? : Option Scan.Run)
    (each : ∀ s ∈ stmts, ∀ opening ∈ s.openings, (inner opening.2).Answers) :
    (Scan.greedyFrom inner policy template stmts index run?).Answers := by
  induction stmts generalizing index run? with
  | nil => exact ⟨.noMatch, rfl⟩
  | cons s rest ih =>
    have later (run? : Option Scan.Run) := ih (index + 1) run? fun t member =>
      each t (List.mem_cons_of_mem s member)
    apply (advance_answers run? index s).andThen
    intro next?
    cases next? with
    | none => exact within_answers (each s List.mem_cons_self) (later none)
    | some run =>
      simp only
      split
      · exact ⟨_, rfl⟩
      · exact later (some run)

theorem exhaustiveFrom_answers (stmts : List Stmt) (index : Nat)
    (each : ∀ s ∈ stmts, ∀ opening ∈ s.openings, (inner opening.2).Answers) :
    (Scan.exhaustiveFrom inner policy template stmts index).Answers := by
  induction stmts generalizing index with
  | nil => exact ⟨.noMatch, rfl⟩
  | cons s rest ih =>
    have later := ih (index + 1) fun t member => each t (List.mem_cons_of_mem s member)
    simp only [Scan.exhaustiveFrom, Outcome.bind_eq]
    split
    · exact ⟨_, rfl⟩
    · simp only [Outcome.tell_andThen]
      exact within_answers (each s List.mem_cons_self) later

end Blocks

/-- A search that has as many levels left as the block is deep ends with an answer. -/
theorem levels_answers (template : List Stmt) (options : Options) {left : Nat} {chunk : Block}
    (enough : Block.depth chunk ≤ left) : (Scan.levels template options left chunk).Answers := by
  induction left generalizing chunk with
  | zero => simp [Block.depth] at enough
  | succ left ih =>
    have each : ∀ s ∈ chunk, ∀ opening ∈ s.openings,
        (Scan.levels template options left opening.2).Answers := by
      rintro s member ⟨scope, body⟩ opens
      have lower := Depth.opening_lt opens
      have inside := Depth.stmt_le_stmts member
      apply ih
      simp only [Block.depth] at enough ⊢
      omega
    simp only [Scan.levels, Scan.greedy, Scan.exhaustive]
    split
    · split
      · exact ⟨.noMatch, rfl⟩
      · exact greedyFrom_answers chunk 0 none each
    · exact exhaustiveFrom_answers chunk 0 each

theorem find_of_depth_le {candidate : Block} {template : Template} {options : Options}
    (fits : template.depth ≤ options.maxDepth) (enough : Block.depth candidate ≤ options.maxDepth) :
    ∃ found, find candidate template options = .ok found := by
  obtain ⟨verdict, answer⟩ := levels_answers template.stmts options enough
  refine ⟨⟨verdict, (scan template.stmts options candidate).captures⟩, ?_⟩
  simp only [find, scan, Nat.not_lt.mpr fits, if_false, answer, Except.map]

theorem mapError_bind_error {α β ε ε' : Type} {x : Except ε α} {name : ε → ε'}
    {next : α → Except ε' β} {e : ε'} (failed : (x.mapError name >>= next) = .error e) :
    (∃ cause, x = .error cause ∧ name cause = e) ∨ ∃ a, x = .ok a ∧ next a = .error e := by
  cases x with
  | error cause => exact .inl ⟨cause, rfl, Except.error.inj failed⟩
  | ok a => exact .inr ⟨a, rfl, failed⟩

theorem mapError_bind_ok {α β ε ε' : Type} {x : Except ε α} {name : ε → ε'}
    {next : α → Except ε' β} {b : β} (ok : (x.mapError name >>= next) = .ok b) :
    ∃ a, x = .ok a ∧ next a = .ok b := by
  cases x with
  | error cause => cases ok
  | ok a => exact ⟨a, rfl, ok⟩

theorem find_of_search {source template : String} {options : Options} {found : Found}
    (ok : search source template options = .ok found) :
    ∃ pattern t chunk, parse template = .ok pattern ∧ Template.ofChunk pattern = .ok t ∧
      parse source = .ok chunk ∧ find chunk t options = .ok found := by
  obtain ⟨pattern, readTemplate, ok⟩ := mapError_bind_ok ok
  obtain ⟨t, lowered, ok⟩ := mapError_bind_ok ok
  obtain ⟨chunk, read, ok⟩ := mapError_bind_ok ok
  refine ⟨pattern, t, chunk, readTemplate, lowered, read, ?_⟩
  cases answer : find chunk t options with
  | error cause =>
    rw [answer] at ok
    cases ok
  | ok given =>
    rw [answer] at ok
    cases ok
    rfl

theorem search_refused_cases {source template : String} {options : Options} {e : MatchError}
    (refused : search source template options = .error (.refused e)) :
    ∃ pattern, parse template = .ok pattern ∧ (Template.ofChunk pattern = .error e ∨
      ∃ t chunk, Template.ofChunk pattern = .ok t ∧ parse source = .ok chunk ∧
        find chunk t options = .error e) := by
  obtain ⟨_, _, other⟩ | ⟨pattern, readTemplate, refused⟩ := mapError_bind_error refused
  · cases other
  refine ⟨pattern, readTemplate, ?_⟩
  obtain ⟨cause, lowered, same⟩ | ⟨t, lowered, refused⟩ := mapError_bind_error refused
  · cases same
    exact .inl lowered
  obtain ⟨_, _, other⟩ | ⟨chunk, read, refused⟩ := mapError_bind_error refused
  · cases other
  refine .inr ⟨t, chunk, lowered, read, ?_⟩
  cases found : find chunk t options with
  | error cause =>
    rw [found] at refused
    cases refused
    rfl
  | ok found' =>
    rw [found] at refused
    cases refused

theorem refused_emptyTemplate {source template : String} {options : Options} {e : MatchError}
    (enough : maxNesting ≤ options.maxDepth)
    (refused : search source template options = .error (.refused e)) : e = .emptyTemplate := by
  obtain ⟨pattern, readTemplate, empty | ⟨t, chunk, lowered, read, failed⟩⟩ :=
    search_refused_cases refused
  · cases pattern with
    | nil => exact (Except.error.inj empty).symm
    | cons => cases empty
  · have deep := depth_le_of_parse readTemplate
    have lower := depth_ofChunk_le lowered
    have enough' := depth_le_of_parse read
    obtain ⟨found, ok⟩ : ∃ found, find chunk t options = .ok found :=
      find_of_depth_le (by omega) (by omega)
    rw [failed] at ok
    cases ok

/-- The limits of parser and matcher agree. What is read from a text is at most as deep as the
    parser allows, no block lies further in than that, and a scan of it that may go as many levels
    down ends with a verdict in every session; lowering adds no depth; so no search of a text with
    a limit as high is refused for the depth of the template or of the candidate. -/
theorem depth_limits_agree :
    (∀ source chunk, parse source = .ok chunk →
      Block.depth chunk ≤ maxNesting ∧
      (∀ path block, Reached chunk path block → path.length < maxNesting) ∧
      ∀ session : Session, session.depth + maxNesting ≤ session.options.maxDepth →
        ∃ verdict, ((Walk.scan chunk).runOn session).1 = .ok verdict) ∧
    (∀ chunk, Block.depth (Lower.stmts chunk) ≤ Block.depth chunk) ∧
    (∀ source template options, maxNesting ≤ options.maxDepth →
      (∀ depth limit,
        search source template options ≠ .error (.refused (.templateTooDeep depth limit))) ∧
      ∀ limit, search source template options ≠ .error (.refused (.depthExceeded limit))) := by
  refine ⟨?_, ?_, ?_⟩
  · intro source chunk read
    have deep := depth_le_of_parse read
    refine ⟨deep, ?_, ?_⟩
    · intro path block reached
      have lower := reached_depth_le reached
      simp only [Block.depth] at lower deep
      omega
    · intro session room
      rw [scan_runOn]
      exact levels_answers session.template session.options (by omega)
  · intro chunk
    exact Nat.succ_le_succ (Depth.stmts_lower_le chunk)
  · intro source template options enough
    constructor
    · intro depth limit refused
      cases refused_emptyTemplate enough refused
    · intro limit refused
      cases refused_emptyTemplate enough refused

/-- An `elseif` without an else branch: three blocks deep, the empty else branch being the last. -/
theorem depth_limits_agree_elseif :
    (∃ chunk, parse "if a then elseif b then end" = .ok chunk ∧ Block.depth chunk = 3 ∧
      Block.depth chunk ≤ maxNesting) ∧
    maxNesting ≤ (default : Options).maxDepth ∧
    ∀ limit, search "if a then elseif b then end" "_IdentExpr_()" default ≠
      .error (.refused (.depthExceeded limit)) := by
  have read : parse "if a then elseif b then end" =
      .ok [.ifStmt ⟨0, 27⟩ (.ident ⟨3, 4⟩ "a") []
        [.ifStmt ⟨10, 27⟩ (.ident ⟨17, 18⟩ "b") [] []]] := rfl
  have enough : maxNesting ≤ (default : Options).maxDepth := by decide
  obtain ⟨parsed, _, searched⟩ := depth_limits_agree
  exact ⟨⟨_, read, rfl, (parsed _ _ read).1⟩, enough, (searched _ _ default enough).2⟩

end LuaSearch
