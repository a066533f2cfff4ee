import LuaSearch.Match.Find
import LuaSearch.Proofs.Syntax.Relabel

/-!
The matcher reads nothing that a relabeling changes. Relabeling the candidate and the template
gives the same answers, the same errors included, and the relabeled captures. The comparison of
trees is taken first, then the search of one block given that of the blocks inside it, then all
levels.
-/
namespace LuaSearch

namespace Relabeling

variable (r : Relabeling)

def captures (c : Captures) : Captures := ⟨r.exprs c.exprs, r.stmts c.stmts⟩

@[simp] theorem captures_empty : r.captures ∅ = ∅ := rfl

@[simp] theorem captures_append (a b : Captures) :
    r.captures (a ++ b) = r.captures a ++ r.captures b := by
  apply Captures.ext
  · simp [captures, exprs_eq_map]
  · simp [captures, stmts_eq_map]

@[simp] theorem captures_ofExpr (e : Expr) : r.captures (.ofExpr e) = .ofExpr (r.expr e) := rfl

@[simp] theorem captures_ofStmt (s : Stmt) : r.captures (.ofStmt s) = .ofStmt (r.stmt s) := rfl

theorem captures_keep (policy : CapturePolicy) (c : Captures) :
    r.captures (policy.keep c) = policy.keep (r.captures c) := by
  cases policy <;> rfl

def comparison (c : Comparison) : Comparison := ⟨c.holds, r.captures c.captures⟩

@[simp] theorem comparison_yes : r.comparison .yes = .yes := rfl

@[simp] theorem comparison_no : r.comparison .no = .no := rfl

@[simp] theorem comparison_test (holds : Bool) : r.comparison (.test holds) = .test holds := rfl

@[simp] theorem comparison_recorded (c : Captures) :
    r.comparison (.recorded c) = .recorded (r.captures c) := rfl

@[simp] theorem comparison_and (a b : Comparison) :
    r.comparison (a.and b) = (r.comparison a).and (r.comparison b) := by
  rcases a with ⟨_ | _, kept⟩
  · rfl
  · rcases b with ⟨holds, more⟩
    simp [comparison, Comparison.and]

@[simp] theorem captures_declared (bs ts : List Binder) :
    Compare.declared (bs.map r.binder) (ts.map r.binder) =
      r.captures (Compare.declared bs ts) := by
  induction bs generalizing ts with
  | nil => rfl
  | cons b bs ih =>
    cases ts with
    | nil => rfl
    | cons t ts =>
      rcases b with ⟨span, _ | name⟩ <;> rcases t with ⟨other, _ | wanted⟩ <;>
        simp [Compare.declared, binder, ih, expr]

@[simp] theorem comparison_sized {α : Type} (items others : List α) (pairs : Comparison) :
    r.comparison (Compare.sized items others pairs) =
      Compare.sized items others (r.comparison pairs) := by
  simp [Compare.sized]

@[simp] theorem sized_exprs (es ts : List Expr) (pairs : Comparison) :
    Compare.sized (r.exprs es) (r.exprs ts) pairs = Compare.sized es ts pairs := by
  simp [Compare.sized]

@[simp] theorem sized_map {α β : Type} (f : α → β) (items others : List α) (pairs : Comparison) :
    Compare.sized (items.map f) (others.map f) pairs = Compare.sized items others pairs := by
  simp [Compare.sized]

@[simp] theorem comparison_bodies (body other : Block) (pairs : Comparison) :
    r.comparison (Compare.bodies body other pairs) =
      Compare.bodies (r.stmts body) (r.stmts other) (r.comparison pairs) := by
  simp only [Compare.bodies, isEmpty_stmts]
  split
  · rfl
  · simp [Compare.sized]

@[simp] theorem comparison_functions (ps others : Params) (body : Comparison) :
    r.comparison (Compare.functions ps others body) =
      Compare.functions (r.params ps) (r.params others) (r.comparison body) := by
  simp only [Compare.functions, comparison_and, comparison_test, comparison_sized,
    comparison_recorded, params, sized_map, captures_declared]
  rfl

theorem compare_number (span : Span) (text : String) (t : Expr) :
    Compare.number (r.span span) (r.number text) (r.expr t) =
      r.comparison (Compare.number span text t) := by
  cases t with
  | wildcard span wanted => cases wanted <;> rfl
  | _ => rfl

theorem compare_string (span : Span) (value : String) (t : Expr) :
    Compare.string (r.span span) (r.string value) (r.expr t) =
      r.comparison (Compare.string span value t) := by
  cases t with
  | wildcard span wanted => cases wanted <;> rfl
  | _ => rfl

theorem compare_ident (span : Span) (name : String) (t : Expr) :
    Compare.ident (r.span span) (r.name name) (r.expr t) =
      r.comparison (Compare.ident span name t) := by
  cases t with
  | wildcard span wanted => cases wanted <;> rfl
  | _ => rfl

theorem compare_constant (value : Constant) (t : Expr) :
    Compare.constant value (r.expr t) = r.comparison (Compare.constant value t) := by
  cases t <;> rfl

mutual
theorem compare_expr : ∀ e t : Expr,
    Compare.expr (r.expr e) (r.expr t) = r.comparison (Compare.expr e t)
  | .constant _ value, t => compare_constant r value t
  | .string span value, t => compare_string r span value t
  | .number span text, t => compare_number r span text t
  | .ident span name, t => compare_ident r span name t
  | .unary _ _ operand, t => by
      cases t with
      | unary _ _ other => exact compare_expr operand other
      | _ => rfl
  | .binary _ op left right, t => by
      cases t with
      | binary _ otherOp otherLeft otherRight =>
        simp [expr, Compare.expr, compare_expr left otherLeft, compare_expr right otherRight]
      | _ => rfl
  | .index _ object key, t => by
      cases t with
      | index _ otherObject otherKey =>
        simp [expr, Compare.expr, compare_expr object otherObject, compare_expr key otherKey]
      | _ => rfl
  | .table .., t => by cases t <;> rfl
  | .call _ callee args adjusted, t => by
      cases t with
      | call _ otherCallee otherArgs otherAdjusted =>
        simp [expr, Compare.expr, compare_expr callee otherCallee,
          compare_exprPairs args otherArgs]
      | _ => rfl
  | .methodCall _ receiver _ args adjusted, t => by
      cases t with
      | methodCall _ otherReceiver _ otherArgs otherAdjusted =>
        simp [expr, Compare.expr, compare_expr receiver otherReceiver,
          compare_exprPairs args otherArgs]
      | _ => rfl
  | .function _ ps body, t => by
      cases t with
      | function _ otherParams otherBody =>
        simp [expr, Compare.expr, compare_stmtPairs body otherBody]
      | wildcard _ wanted => cases wanted <;> rfl
      | _ => rfl
  | .wildcard .., t => by cases t <;> rfl
termination_by structural e => e

theorem compare_exprPairs : ∀ es ts : List Expr,
    Compare.exprPairs (r.exprs es) (r.exprs ts) = r.comparison (Compare.exprPairs es ts)
  | [], _ => rfl
  | _ :: _, [] => rfl
  | e :: es, t :: ts => by
      simp [exprs, Compare.exprPairs, compare_expr e t, compare_exprPairs es ts]
termination_by structural es => es

theorem compare_steps (span otherSpan : Span) : ∀ step? other? : Option Expr,
    Compare.steps (r.span span) (r.span otherSpan) (r.step span step?)
        (r.step otherSpan other?) =
      r.comparison (Compare.steps span otherSpan step? other?)
  | none, none => by unfold step absentStep; split <;> rfl
  | none, some t => by
      have number := compare_number r span "1" t
      unfold step absentStep
      split
      · exact number
      · rename_i absent
        rw [r.keepsUnit (by simpa using absent)] at number
        exact number
  | some e, none => by
      have unit := compare_expr e (.number otherSpan "1")
      unfold step absentStep
      split
      · exact unit
      · rename_i absent
        rw [expr, r.keepsUnit (by simpa using absent)] at unit
        exact unit
  | some e, some t => compare_expr e t
termination_by structural e => e

theorem compare_stmt : ∀ s t : Stmt,
    Compare.stmt (r.stmt s) (r.stmt t) = r.comparison (Compare.stmt s t)
  | .assign _ targets values, t => by
      cases t with
      | assign _ otherTargets otherValues =>
        simp [stmt, Compare.stmt, compare_exprPairs targets otherTargets,
          compare_exprPairs values otherValues]
      | _ => rfl
  | .localVars _ names values, t => by
      cases t with
      | localVars _ otherNames otherValues =>
        simp [stmt, Compare.stmt, compare_exprPairs values otherValues]
      | _ => rfl
  | .call _ call, t => by
      cases t with
      | call _ other => exact compare_expr call other
      | _ => rfl
  | .doBlock _ body, t => by
      cases t with
      | doBlock _ other => simp [stmt, Compare.stmt, compare_stmtPairs body other]
      | _ => rfl
  | .whileLoop _ condition body, t => by
      cases t with
      | whileLoop _ otherCondition otherBody =>
        simp [stmt, Compare.stmt, compare_expr condition otherCondition,
          compare_stmtPairs body otherBody]
      | _ => rfl
  | .repeatLoop _ body condition, t => by
      cases t with
      | repeatLoop _ otherBody otherCondition =>
        simp [stmt, Compare.stmt, compare_expr condition otherCondition,
          compare_stmtPairs body otherBody]
      | _ => rfl
  | .localFunction _ name ps body, t => by
      cases t with
      | localFunction _ _ otherParams otherBody =>
        simp [stmt, Compare.stmt, compare_stmtPairs body otherBody]
      | wildcard _ wanted => cases wanted <;> rfl
      | _ => rfl
  | .function _ target method? ps body, t => by
      cases t with
      | function _ otherTarget otherMethod? otherParams otherBody =>
        simp [stmt, Compare.stmt, compare_expr target otherTarget,
          compare_stmtPairs body otherBody]
      | _ => rfl
  | .returnStmt _ values, t => by
      cases t with
      | returnStmt _ others => simp [stmt, Compare.stmt, compare_exprPairs values others]
      | _ => rfl
  | .ifStmt _ condition thenBody elseBody, t => by
      cases t with
      | ifStmt _ otherCondition otherThen otherElse =>
        simp [stmt, Compare.stmt, compare_expr condition otherCondition,
          compare_stmtPairs thenBody otherThen, compare_stmtPairs elseBody otherElse]
      | wildcard _ wanted => cases wanted <;> rfl
      | _ => rfl
  | .breakStmt _, t => by cases t <;> rfl
  | .continueStmt _, t => by cases t <;> rfl
  | .numericFor span _ start limit step? body, t => by
      cases t with
      | numericFor otherSpan _ _ _ otherStep? otherBody =>
        simp [stmt, Compare.stmt, compare_steps span otherSpan step? otherStep?,
          compare_stmtPairs body otherBody]
      | _ => rfl
  | .genericFor _ names es body, t => by
      cases t with
      | genericFor _ otherNames otherExprs otherBody =>
        simp [stmt, Compare.stmt, compare_exprPairs es otherExprs,
          compare_stmtPairs body otherBody]
      | _ => rfl
  | .wildcard .., t => by cases t <;> rfl
termination_by structural s => s

theorem compare_stmtPairs : ∀ ss ts : List Stmt,
    Compare.stmtPairs (r.stmts ss) (r.stmts ts) = r.comparison (Compare.stmtPairs ss ts)
  | [], _ => rfl
  | _ :: _, [] => rfl
  | s :: ss, t :: ts => by
      simp [stmts, Compare.stmtPairs, compare_stmt s t, compare_stmtPairs ss ts]
termination_by structural ss => ss
end

def outcome {α β : Type} (f : α → β) (o : Outcome α) : Outcome β :=
  ⟨o.answer.map f, r.captures o.captures⟩

theorem outcome_andThen {α α' β β' : Type} {f : α → α'} {g : β → β'} (first : Outcome α)
    {next : α → Outcome β} {next' : α' → Outcome β'}
    (later : ∀ a, next' (f a) = r.outcome g (next a)) :
    (r.outcome f first).andThen next' = r.outcome g (first.andThen next) := by
  rcases first with ⟨_ | a, recorded⟩
  · rfl
  · have after := later a
    simp only [outcome, Except.map, Outcome.andThen_ok, captures_append] at after ⊢
    rw [after]

theorem outcome_tell (c : Captures) :
    r.outcome id (Outcome.tell c) = Outcome.tell (r.captures c) := rfl

theorem outcome_told {β β' : Type} (g : β → β') (c : Captures) (answer : β) :
    (Outcome.tell (r.captures c)).andThen (fun _ => pure (g answer)) =
      r.outcome g ((Outcome.tell c).andThen fun _ => pure answer) := by
  rw [← outcome_tell]
  exact outcome_andThen r (Outcome.tell c) fun _ => rfl

def run (run : Scan.Run) : Scan.Run := ⟨run.start, r.captures run.captures, r.stmts run.pending⟩

theorem run_meet (policy : CapturePolicy) (run : Scan.Run) (s : Stmt) :
    (r.run run).meet policy (r.stmt s) = r.outcome (Option.map r.run) (run.meet policy s) := by
  rcases run with ⟨start, recorded, _ | ⟨next, later⟩⟩
  · rfl
  · have same := compare_stmt r s next
    simp only [Relabeling.run, stmts, Scan.Run.meet, same]
    rcases Compare.stmt s next with ⟨_ | _, more⟩
    · simp only [comparison, ← captures_append, ← captures_keep]
      exact outcome_told r (Option.map r.run) (policy.keep (recorded ++ more)) none
    · simp only [comparison, ← captures_append]
      rfl

section Blocks

variable {inner inner' : Block → Outcome Verdict}
variable (same : ∀ body, inner' (r.stmts body) = r.outcome id (inner body))
variable (policy : CapturePolicy) (template : List Stmt)

include same

theorem inOpenings_relabel (openings : List (Scope × Block)) :
    Scan.inOpenings inner' (openings.map fun opening => (opening.1, r.stmts opening.2)) =
      r.outcome id (Scan.inOpenings inner openings) := by
  induction openings with
  | nil => rfl
  | cons opening rest ih =>
    simp only [List.map_cons, Scan.inOpenings, Outcome.bind_eq, same]
    refine outcome_andThen r _ fun verdict => ?_
    cases verdict with
    | noMatch => exact ih
    | _ => rfl

theorem within_relabel (s : Stmt) :
    Scan.within inner' (r.stmt s) = r.outcome id (Scan.within inner s) := by
  rw [Scan.within_eq_inOpenings, Scan.within_eq_inOpenings, openings_stmt]
  exact inOpenings_relabel r same s.openings

omit same in
theorem advance_relabel (run? : Option Scan.Run) (index : Nat) (s : Stmt) :
    Scan.advance policy (r.stmts template) (run?.map r.run) index (r.stmt s) =
      r.outcome (Option.map r.run) (Scan.advance policy template run? index s) := by
  have fresh := run_meet r policy ⟨index, ∅, template⟩ s
  cases run? with
  | none => exact fresh
  | some run =>
    simp only [Scan.advance, Option.map_some, Outcome.bind_eq, run_meet r policy run s]
    refine outcome_andThen r _ fun longer? => ?_
    cases longer? with
    | none => exact fresh
    | some longer => rfl

theorem greedyFrom_relabel (ss : List Stmt) (index : Nat) (run? : Option Scan.Run) :
    Scan.greedyFrom inner' policy (r.stmts template) (r.stmts ss) index (run?.map r.run) =
      r.outcome id (Scan.greedyFrom inner policy template ss index run?) := by
  induction ss generalizing index run? with
  | nil =>
    have held : ((run?.map r.run).map Scan.Run.captures).getD ∅ =
        r.captures ((run?.map Scan.Run.captures).getD ∅) := by
      cases run? <;> rfl
    simp only [stmts, Scan.greedyFrom, held, ← captures_keep]
    exact outcome_told r id _ Verdict.noMatch
  | cons s rest ih =>
    simp only [stmts, Scan.greedyFrom, Outcome.bind_eq, advance_relabel]
    refine outcome_andThen r _ fun next? => ?_
    cases next? with
    | none =>
      simp only [Option.map_none, within_relabel r same]
      refine outcome_andThen r _ fun scope? => ?_
      cases scope? with
      | none => exact ih (index + 1) none
      | some scope => rfl
    | some next =>
      simp only [Option.map_some, Relabeling.run, isEmpty_stmts]
      split
      · exact outcome_told r id _ (Verdict.found next.start (index + 1))
      · exact ih (index + 1) (some next)

omit same in
theorem window_relabel (ss : List Stmt) :
    Scan.window (r.stmts template) (r.stmts ss) = r.comparison (Scan.window template ss) := by
  simp only [Scan.window, length_stmts]
  split
  · exact compare_stmtPairs r ss template
  · rfl

theorem exhaustiveFrom_relabel (ss : List Stmt) (index : Nat) :
    Scan.exhaustiveFrom inner' policy (r.stmts template) (r.stmts ss) index =
      r.outcome id (Scan.exhaustiveFrom inner policy template ss index) := by
  induction ss generalizing index with
  | nil => rfl
  | cons s rest ih =>
    have tried := window_relabel r template (s :: rest)
    simp only [stmts] at tried
    simp only [stmts, Scan.exhaustiveFrom, tried, length_stmts, Outcome.bind_eq]
    rcases Scan.window template (s :: rest) with ⟨_ | _, recorded⟩
    · simp only [comparison, ← captures_keep, Bool.false_eq_true, if_false, ← outcome_tell]
      refine outcome_andThen r _ fun _ => ?_
      simp only [within_relabel r same]
      refine outcome_andThen r _ fun scope? => ?_
      cases scope? with
      | none => exact ih (index + 1)
      | some scope => rfl
    · simp only [comparison, if_true]
      exact outcome_told r id recorded (Verdict.found index (index + template.length))

end Blocks

theorem levels_relabel (template : List Stmt) (options : Options) (left : Nat) (chunk : Block) :
    Scan.levels (r.stmts template) options left (r.stmts chunk) =
      r.outcome id (Scan.levels template options left chunk) := by
  induction left generalizing chunk with
  | zero => rfl
  | succ left ih =>
    simp only [Scan.levels]
    cases options.scan with
    | greedy =>
      simp only [Scan.greedy, isEmpty_stmts]
      split
      · rfl
      · exact greedyFrom_relabel r ih options.captures template chunk 0 none
    | exhaustive => exact exhaustiveFrom_relabel r ih options.captures template chunk 0

def template (t : Template) : Template :=
  ⟨r.stmts t.stmts, by simpa [stmts_eq_map] using t.nonempty⟩

def found (f : Found) : Found := ⟨f.verdict, r.captures f.captures⟩

theorem depth_template (t : Template) : (r.template t).depth = t.depth := by
  simp [Template.depth, Block.depth, template, depth_stmts]

/-- The matcher sees shapes only: a relabeled candidate and template give the same verdict or the
    same error, and the relabeled captures. -/
theorem find_relabel (candidate : Block) (t : Template) (options : Options) :
    find (r.stmts candidate) (r.template t) options =
      (find candidate t options).map r.found := by
  unfold find
  rw [depth_template]
  split
  · rfl
  · have scanned := levels_relabel r t.stmts options options.maxDepth candidate
    simp only [scan, template, scanned, outcome]
    cases (Scan.levels t.stmts options options.maxDepth candidate).answer <;> rfl

theorem template_ofChunk (keeps : r.KeepsNames) (chunk : Block) :
    Template.ofChunk (r.stmts chunk) = (Template.ofChunk chunk).map r.template := by
  cases chunk with
  | nil => rfl
  | cons s ss =>
    simp only [stmts, Template.ofChunk, Except.map, template, lower_stmt r keeps,
      lower_stmts r keeps]

end Relabeling

end LuaSearch
