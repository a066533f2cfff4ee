import LuaSearch.Proofs.Match.Cursor
import LuaSearch.Proofs.Match.Limit
import LuaSearch.Proofs.Parse.Formed.Statement

/-!
What the limit on depth does to a search. With more levels a search goes through the same steps
until the one with fewer levels has none left; so it ends in the same way or the other one is
refused for its depth. An exhaustive search that finds nothing has been in every block, and then
the levels it had are enough for the deepest one.
-/
namespace LuaSearch

/-- The second outcome is the first, unless the first is refused at the limit. -/
def Outcome.Upheld {α : Type} (limit : Nat) (first second : Outcome α) : Prop :=
  second = first ∨ first.answer = .error (.depthExceeded limit)

namespace Outcome.Upheld

variable {α β : Type} {limit : Nat}

theorem refl (outcome : Outcome α) : Upheld limit outcome outcome := .inl rfl

theorem andThen {first first' : Outcome α} {next next' : α → Outcome β}
    (upheld : Upheld limit first first') (later : ∀ a, Upheld limit (next a) (next' a)) :
    Upheld limit (first.andThen next) (first'.andThen next') := by
  rcases upheld with same | refused
  · subst same
    rcases first' with ⟨e | a, kept⟩
    · exact .refl _
    · rcases later a with same | refused
      · exact .inl (by simp [same])
      · exact .inr (by simp [refused])
  · refine .inr ?_
    simp only [Outcome.andThen, refused]

end Outcome.Upheld

section Blocks

variable {inner inner' : Block → Outcome Verdict} {limit : Nat}
variable (each : ∀ body, Outcome.Upheld limit (inner body) (inner' body))

include each

theorem inOpenings_upheld (openings : List (Scope × Block)) :
    Outcome.Upheld limit (Scan.inOpenings inner openings) (Scan.inOpenings inner' openings) := by
  induction openings with
  | nil => exact .refl _
  | cons opening openings ih =>
    apply (each opening.2).andThen
    intro verdict
    cases verdict with
    | noMatch => exact ih
    | found => exact .refl _
    | nested => exact .refl _

theorem within_upheld (s : Stmt) {next next' : Outcome Verdict}
    (later : Outcome.Upheld limit next next') :
    Outcome.Upheld limit
      ((Scan.within inner s).andThen fun scope? =>
        match scope? with
        | some scope => pure (.nested scope)
        | none => next)
      ((Scan.within inner' s).andThen fun scope? =>
        match scope? with
        | some scope => pure (.nested scope)
        | none => next') := by
  rw [Scan.within_eq_inOpenings, Scan.within_eq_inOpenings]
  apply (inOpenings_upheld each s.openings).andThen
  intro scope?
  cases scope? with
  | none => exact later
  | some scope => exact .refl _

theorem greedyFrom_upheld (policy : CapturePolicy) (template stmts : List Stmt) (index : Nat)
    (run? : Option Scan.Run) :
    Outcome.Upheld limit (Scan.greedyFrom inner policy template stmts index run?)
      (Scan.greedyFrom inner' policy template stmts index run?) := by
  induction stmts generalizing index run? with
  | nil => exact .refl _
  | cons s rest ih =>
    apply (Outcome.Upheld.refl (Scan.advance policy template run? index s)).andThen
    intro next?
    cases next? with
    | none => exact within_upheld each s (ih (index + 1) none)
    | some run =>
      simp only
      split
      · exact .refl _
      · exact ih (index + 1) (some run)

theorem exhaustiveFrom_upheld (policy : CapturePolicy) (template stmts : List Stmt) (index : Nat) :
    Outcome.Upheld limit (Scan.exhaustiveFrom inner policy template stmts index)
      (Scan.exhaustiveFrom inner' policy template stmts index) := by
  induction stmts generalizing index with
  | nil => exact .refl _
  | cons s rest ih =>
    simp only [Scan.exhaustiveFrom, Outcome.bind_eq]
    split
    · exact .refl _
    · apply (Outcome.Upheld.refl (Outcome.tell _)).andThen
      intro _
      exact within_upheld each s (ih (index + 1))

end Blocks

theorem levels_upheld (template : List Stmt) (options : Options) (limit : Nat) {left left' : Nat}
    (more : left ≤ left') (chunk : Block) :
    Outcome.Upheld options.maxDepth (Scan.levels template options left chunk)
      (Scan.levels template { options with maxDepth := limit } left' chunk) := by
  induction left generalizing left' chunk with
  | zero => exact .inr rfl
  | succ left ih =>
    obtain ⟨less, rfl⟩ : ∃ less, left' = less + 1 := ⟨left' - 1, by omega⟩
    have each := ih (show left ≤ less by omega)
    simp only [Scan.levels, Scan.greedy, Scan.exhaustive]
    split
    · split
      · exact .refl _
      · exact greedyFrom_upheld each options.captures template chunk 0 none
    · exact exhaustiveFrom_upheld each options.captures template chunk 0

theorem levels_refused {template : List Stmt} {options : Options} {left : Nat} {chunk : Block}
    {e : MatchError} (failed : (Scan.levels template options left chunk).answer = .error e) :
    e = .depthExceeded options.maxDepth := by
  -- A search with levels enough for the chunk answers, so it does not end like this one.
  obtain ⟨verdict, answers⟩ := levels_answers template
    { options with maxDepth := options.maxDepth } (Nat.le_max_right left (Block.depth chunk))
  rcases levels_upheld template options options.maxDepth (Nat.le_max_left left _) chunk with
    same | refused
  · rw [same, failed] at answers
    cases answers
  · rw [failed] at refused
    exact Except.error.inj refused

theorem exhaustiveFrom_searched {inner : Block → Outcome Verdict} {policy : CapturePolicy}
    {template : List Stmt} {stmts : List Stmt} {index : Nat}
    (none : (Scan.exhaustiveFrom inner policy template stmts index).answer = .ok .noMatch) :
    ∀ s ∈ stmts, ∀ o ∈ s.openings, (inner o.2).answer = .ok .noMatch := by
  induction stmts generalizing index with
  | nil => simp
  | cons s rest ih =>
    by_cases holds : (Scan.window template (s :: rest)).holds = true
    · simp [Scan.exhaustiveFrom, holds] at none
    · have inside := inOpenings_gives inner s.openings
      rw [← Scan.within_eq_inOpenings] at inside
      rcases searched : Scan.within inner s with ⟨_ | _ | scope, kept⟩
      · simp [Scan.exhaustiveFrom, holds, searched] at none
      · rw [searched] at inside
        cases inside with
        | missed all =>
          simp only [Scan.exhaustiveFrom, holds, Outcome.bind_eq, searched] at none
          exact List.forall_mem_cons.mpr ⟨all, ih none⟩
      · simp [Scan.exhaustiveFrom, holds, searched] at none

namespace Depth

mutual
theorem expr_le_of_literals {n : Nat} :
    ∀ e : Expr, (∀ body ∈ Literals.expr e, stmts body < n) → expr e ≤ n
  | .constant .., _ | .string .., _ | .number .., _ | .ident .., _ | .wildcard .., _ =>
      Nat.zero_le n
  | .unary _ _ operand, below => expr_le_of_literals operand below
  | .binary _ _ left right, below => by
      simp only [Literals.expr, List.forall_mem_append] at below
      exact Nat.max_le.mpr ⟨expr_le_of_literals left below.1, expr_le_of_literals right below.2⟩
  | .index _ object key, below => by
      simp only [Literals.expr, List.forall_mem_append] at below
      exact Nat.max_le.mpr ⟨expr_le_of_literals object below.1, expr_le_of_literals key below.2⟩
  | .table _ fs, below => fields_le_of_literals fs below
  | .call _ callee args _, below => by
      simp only [Literals.expr, List.forall_mem_append] at below
      exact Nat.max_le.mpr ⟨expr_le_of_literals callee below.1, exprs_le_of_literals args below.2⟩
  | .methodCall _ receiver _ args _, below => by
      simp only [Literals.expr, List.forall_mem_append] at below
      exact Nat.max_le.mpr
        ⟨expr_le_of_literals receiver below.1, exprs_le_of_literals args below.2⟩
  | .function _ _ body, below => below body (by simp [Literals.expr])
termination_by structural e => e

theorem exprs_le_of_literals {n : Nat} :
    ∀ es : List Expr, (∀ body ∈ Literals.exprs es, stmts body < n) → exprs es ≤ n
  | [], _ => Nat.zero_le n
  | e :: es, below => by
      simp only [Literals.exprs, List.forall_mem_append] at below
      exact Nat.max_le.mpr ⟨expr_le_of_literals e below.1, exprs_le_of_literals es below.2⟩
termination_by structural es => es

theorem field_le_of_literals {n : Nat} :
    ∀ f : Field, (∀ body ∈ Literals.field f, stmts body < n) → field f ≤ n
  | .positional value, below => expr_le_of_literals value below
  | .keyed key value, below => by
      simp only [Literals.field, List.forall_mem_append] at below
      exact Nat.max_le.mpr ⟨expr_le_of_literals key below.1, expr_le_of_literals value below.2⟩
termination_by structural f => f

theorem fields_le_of_literals {n : Nat} :
    ∀ fs : List Field, (∀ body ∈ Literals.fields fs, stmts body < n) → fields fs ≤ n
  | [], _ => Nat.zero_le n
  | f :: fs, below => by
      simp only [Literals.fields, List.forall_mem_append] at below
      exact Nat.max_le.mpr ⟨field_le_of_literals f below.1, fields_le_of_literals fs below.2⟩
termination_by structural fs => fs
end

theorem stmt_le_of_openings {s : Stmt} {n : Nat}
    (flat : ∀ span target method? ps body, s = .function span target method? ps body →
      expr target = 0)
    (below : ∀ o ∈ s.openings, stmts o.2 < n) : stmt s ≤ n := by
  simp only [Stmt.openings, List.forall_mem_append, List.forall_mem_map] at below
  obtain ⟨functions, bodies⟩ := below
  have searched (literal : s.functionBodies = Literals.exprs s.searched) : exprs s.searched ≤ n :=
    exprs_le_of_literals s.searched (literal ▸ functions)
  cases s with
  | localFunction _ _ _ body =>
    exact functions body (by simp [Stmt.functionBodies, Stmt.declaredBody?])
  | function _ target _ _ body =>
    have none := flat _ _ _ _ _ rfl
    have inside := functions body (by simp [Stmt.functionBodies, Stmt.declaredBody?])
    simp only [stmt]
    omega
  | numericFor _ _ start limit step? body =>
    have outside := searched rfl
    cases step? <;> simp [Stmt.searched, exprs, stmt, step, Stmt.bodies] at outside bodies ⊢ <;>
      omega
  | _ =>
    have outside := searched rfl
    simp [Stmt.searched, exprs, exprs_append, stmt, Stmt.bodies] at outside bodies ⊢ <;> omega

end Depth

/-- What names a declared function holds no block, whichever of the nodes declares it. -/
def FlatPaths (nodes : List Node) : Prop :=
  ∀ span target method? ps body, .stmt (.function span target method? ps body) ∈ nodes →
    Depth.expr target = 0

/-- An exhaustive search that finds nothing had a level for every block. -/
theorem depth_le_of_noMatch {template : List Stmt} {options : Options} {left : Nat} {chunk : Block}
    (mode : options.scan = .exhaustive) (flat : FlatPaths (Nodes.stmts chunk))
    (none : (Scan.levels template options left chunk).answer = .ok .noMatch) :
    Block.depth chunk ≤ left := by
  induction left generalizing chunk with
  | zero => cases none
  | succ left ih =>
    simp only [Scan.levels, mode, Scan.exhaustive] at none
    have searched := exhaustiveFrom_searched none
    apply Nat.succ_le_succ
    rw [Depth.stmts_le_iff]
    intro s member
    have inside := Nodes.stmt_subset_stmts member
    apply Depth.stmt_le_of_openings
    · rintro span target method? ps body rfl
      exact flat span target method? ps body (inside (Nodes.self_mem_stmt _))
    · rintro ⟨scope, body⟩ opens
      apply ih _ (searched s member _ opens)
      intro span target method? ps inner declared
      exact flat span target method? ps inner (inside (Nodes.opening_subset opens declared))

theorem Depth.expr_of_isPath {e : Expr} (isPath : e.isPath = true) : Depth.expr e = 0 := by
  fun_induction Expr.isPath e with
  | case1 => rfl
  | case2 span object keySpan key ih => simpa [Depth.expr] using ih isPath
  | case3 => cases isPath

theorem flatPaths_of_parse {source : String} {chunk : Block} (read : parse source = .ok chunk) :
    FlatPaths (Nodes.stmts chunk) := by
  obtain ⟨_, formed⟩ := formed_of_parse read
  intro span target method? ps body member
  obtain ⟨isPath, _⟩ : Stmt.Formed _ (.function span target method? ps body) := formed _ member
  exact Depth.expr_of_isPath isPath

section Find

variable {candidate : Block} {template : Template} {options : Options} {found : Found}

theorem find_of_higher_limit (ok : find candidate template options = .ok found) {limit : Nat}
    (higher : options.maxDepth ≤ limit) :
    find candidate template { options with maxDepth := limit } = .ok found := by
  have ran := scan_of_find ok
  have fits := fits_of_find ok
  rcases levels_upheld template.stmts options limit higher candidate with same | refused
  · exact find_eq_of_scan (Nat.le_trans fits higher) (same.trans ran)
  · rw [answer_of_find ok] at refused
    cases refused

theorem find_ne_depthExceeded (enough : Block.depth candidate ≤ options.maxDepth) (limit : Nat) :
    find candidate template options ≠ .error (.depthExceeded limit) := by
  intro refused
  by_cases fits : template.depth ≤ options.maxDepth
  · obtain ⟨found, ok⟩ := find_of_depth_le fits enough
    rw [refused] at ok
    cases ok
  · rw [find, if_pos (Nat.lt_of_not_le fits)] at refused
    cases refused

theorem find_lacking (mode : options.scan = .exhaustive)
    (flat : FlatPaths (Nodes.stmts candidate)) (lacks : Lacks template.stmts candidate)
    (fits : template.depth ≤ options.maxDepth) :
    (Block.depth candidate ≤ options.maxDepth →
      ∃ captures, find candidate template options = .ok ⟨.noMatch, captures⟩) ∧
    (options.maxDepth < Block.depth candidate →
      find candidate template options = .error (.depthExceeded options.maxDepth)) := by
  have missed {found : Found} (ok : find candidate template options = .ok found) :
      found.verdict = .noMatch :=
    (noMatch_iff_lacks (find_exhaustive_tellsFirst mode ok)).mpr lacks
  constructor
  · intro enough
    obtain ⟨⟨verdict, captures⟩, ok⟩ := find_of_depth_le fits enough
    obtain rfl : verdict = .noMatch := missed ok
    exact ⟨captures, ok⟩
  · intro deeper
    rcases ran : scan template.stmts options candidate with ⟨e | verdict, captures⟩
    · have answer : (Scan.levels template.stmts options options.maxDepth candidate).answer =
          .error e := congrArg Outcome.answer ran
      obtain rfl := levels_refused answer
      exact find_eq_of_scan fits ran
    · have ok : find candidate template options = .ok ⟨verdict, captures⟩ :=
        find_eq_of_scan fits ran
      have none := answer_of_find ok
      rw [missed ok] at none
      have depth := depth_le_of_noMatch mode flat none
      omega

end Find

/-- The limit on depth turns results into refusals and does nothing else. A result stays as it is
    under every higher limit; no search is refused for a candidate within the limit; and an
    exhaustive search of what was read from a text, for a template that occurs nowhere in it, finds
    nothing if the text is within the limit and is refused if it is not. -/
theorem find_depth_limit :
    (∀ (candidate : Block) (template : Template) (options : Options) (found : Found) (limit : Nat),
      find candidate template options = .ok found → options.maxDepth ≤ limit →
        find candidate template { options with maxDepth := limit } = .ok found) ∧
    (∀ (candidate : Block) (template : Template) (options : Options) (limit : Nat),
      Block.depth candidate ≤ options.maxDepth →
        find candidate template options ≠ .error (.depthExceeded limit)) ∧
    (∀ (source : String) (candidate : Block) (template : Template) (options : Options),
      parse source = .ok candidate → options.scan = .exhaustive →
      Lacks template.stmts candidate → template.depth ≤ options.maxDepth →
        (Block.depth candidate ≤ options.maxDepth →
          ∃ captures, find candidate template options = .ok ⟨.noMatch, captures⟩) ∧
        (options.maxDepth < Block.depth candidate →
          find candidate template options = .error (.depthExceeded options.maxDepth))) := by
  refine ⟨?_, ?_, ?_⟩
  · intro candidate template options found limit ok higher
    exact find_of_higher_limit ok higher
  · intro candidate template options limit enough
    exact find_ne_depthExceeded enough limit
  · intro source candidate template options read mode lacks fits
    exact find_lacking mode (flatPaths_of_parse read) lacks fits

/-- Three blocks, one in the other: with two levels the search is refused, with three or more it
    finds nothing. -/
theorem find_depth_limit_blocks :
    let candidate : Block := [.doBlock ⟨0, 13⟩ [.doBlock ⟨3, 9⟩ []]]
    let template : Template := ⟨[.breakStmt default], by simp⟩
    let options (limit : Nat) : Options := ⟨.exhaustive, .retain, limit⟩
    parse "do do end end" = .ok candidate ∧ Block.depth candidate = 3 ∧
      Lacks template.stmts candidate ∧
      find candidate template (options 2) = .error (.depthExceeded 2) ∧
      find candidate template (options 3) = .ok ⟨.noMatch, ∅⟩ ∧
      find candidate template (options 1000) = .ok ⟨.noMatch, ∅⟩ ∧
      find candidate template (options 3) ≠ .error (.depthExceeded 3) := by
  intro candidate template options
  have read : parse "do do end end" = .ok candidate := rfl
  have missed : find candidate template (options 3) = .ok ⟨.noMatch, ∅⟩ := rfl
  have lacks : Lacks template.stmts candidate :=
    (noMatch_iff_lacks (find_exhaustive_tellsFirst rfl missed)).mp rfl
  obtain ⟨higher, enough, lacking⟩ := find_depth_limit
  refine ⟨read, rfl, lacks, ?_, missed, ?_, ?_⟩
  · exact (lacking _ _ _ (options 2) read rfl lacks (by decide)).2 (by decide)
  · exact higher _ _ (options 3) _ 1000 missed (by decide)
  · exact enough _ _ (options 3) 3 (by decide)

end LuaSearch
