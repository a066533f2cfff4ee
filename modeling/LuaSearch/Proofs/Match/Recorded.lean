import LuaSearch.Proofs.Match.Exhaustive
import LuaSearch.Proofs.Syntax.Node

/-!
What can be left recorded. A comparison records nodes of the candidate that wildcards ask for, the
names that the candidate declares where the template has a wildcard, and the step that a numeric
loop leaves out. A property that holds of each of these, and of all of them in sequence, holds of
whatever a comparison records; so it does of whatever a search leaves recorded.
-/
namespace LuaSearch

def Expr.isRecordable : Expr → Bool
  | ident .. | string .. | number .. | function .. => true
  | _ => false

def Stmt.isRecordable : Stmt → Bool
  | localFunction .. | ifStmt .. => true
  | _ => false

theorem Compare.declared_of_each {P : Captures → Prop} (empty : P ∅)
    (append : ∀ {a b : Captures}, P a → P b → P (a ++ b)) {bs : List Binder}
    (each : ∀ b ∈ bs, ∀ name ∈ b.name?, P (.ofExpr (.ident b.span name))) (ts : List Binder) :
    P (declared bs ts) := by
  induction bs generalizing ts with
  | nil => exact empty
  | cons b bs ih =>
    obtain ⟨first, rest⟩ := List.forall_mem_cons.mp each
    cases ts with
    | nil => exact empty
    | cons t ts =>
      have later := ih rest ts
      rcases b with ⟨span, _ | name⟩
      · exact later
      · rcases t with ⟨_, _ | _⟩
        · exact append (first name rfl) later
        · exact later

/-- The property holds of all that is recorded where a candidate whose nodes are as `A` says is
    compared with a template whose nodes are as `B` says. -/
structure Recording (A B : Node → Prop) (P : Captures → Prop) : Prop where
  empty : P ∅
  append {a b : Captures} : P a → P b → P (a ++ b)
  expr {e : Expr} : e.isRecordable = true → A (.expr e) → P (.ofExpr e)
  stmt {s : Stmt} : s.isRecordable = true → A (.stmt s) → P (.ofStmt s)
  declared (n t : Node) : A n → (∀ b ∈ n.declares, A (.binder b)) → B t →
    n.isMethod = t.isMethod → P (Compare.declared n.declares t.declares)
  unitStep {span : Span} {var : String} {start limit : Expr} {body : Block} :
    A (.stmt (.numericFor span var start limit none body)) → P (.ofExpr (Compare.unitStep span))
  impliedStep (span : Span) : B (.expr (Compare.unitStep span))

def Comparison.Records (P : Captures → Prop) (c : Comparison) : Prop := P c.captures

namespace Recording

open Comparison (Records)

variable {A B : Node → Prop} {P : Captures → Prop} {a b : Comparison}

section

variable (r : Recording A B P)

include r

theorem no : Records P .no := r.empty

theorem yes : Records P .yes := r.empty

theorem test (holds : Bool) : Records P (.test holds) := r.empty

theorem and (first : Records P a) (second : Records P b) : Records P (a.and b) := by
  unfold Records
  rw [Comparison.captures_and]
  split
  · exact r.append first second
  · exact first

theorem guarded {holds : Bool} (later : holds = true → Records P a) :
    Records P ((Comparison.test holds).and a) := by
  cases holds with
  | false => exact r.no
  | true => exact r.and (r.test true) (later rfl)

theorem sized {α : Type} {items others : List α} (pairs : Records P a) :
    Records P (Compare.sized items others a) := r.and (r.test _) pairs

theorem bodies {body other : Block} (pairs : Records P a) :
    Records P (Compare.bodies body other a) := by
  unfold Compare.bodies
  split
  · exact r.yes
  · exact r.sized pairs

theorem functions {ps others : Params} (names : P (Compare.declared ps.names others.names))
    (body : Records P a) : Records P (Compare.functions ps others a) :=
  r.and (r.and (r.test _) (r.sized body)) names

theorem number {span : Span} {text : String} (holds : P (.ofExpr (.number span text))) (t : Expr) :
    Records P (Compare.number span text t) := by
  cases t with
  | wildcard _ wanted =>
    cases wanted with
    | number => exact holds
    | _ => exact r.no
  | number => exact r.yes
  | _ => exact r.no

theorem string {span : Span} {value : String} (holds : P (.ofExpr (.string span value)))
    (t : Expr) : Records P (Compare.string span value t) := by
  cases t with
  | wildcard _ wanted =>
    cases wanted with
    | string => exact holds
    | _ => exact r.no
  | string => exact r.yes
  | _ => exact r.no

theorem ident {span : Span} {name : String} (holds : P (.ofExpr (.ident span name))) (t : Expr) :
    Records P (Compare.ident span name t) := by
  cases t with
  | wildcard _ wanted =>
    cases wanted with
    | ident | function => exact holds
    | _ => exact r.yes
  | ident => exact r.yes
  | _ => exact r.no

theorem constant (value : Constant) (t : Expr) : Records P (Compare.constant value t) := by
  cases t with
  | constant _ other => exact r.test _
  | _ => exact r.no

theorem keep (policy : CapturePolicy) {captures : Captures} (holds : P captures) :
    P (policy.keep captures) := by
  cases policy with
  | retain => exact holds
  | discard => exact r.empty

end

end Recording

namespace Compare

open Comparison (Records)

variable {A B : Node → Prop} {P : Captures → Prop} (r : Recording A B P)

include r

mutual
theorem expr_records : ∀ e t : Expr, (∀ n ∈ Nodes.expr e, A n) → (∀ n ∈ Nodes.expr t, B n) →
    Records P (expr e t)
  | .constant _ value, t, _, _ => r.constant value t
  | .string _ _, t, given, _ => r.string (r.expr rfl (given _ List.mem_cons_self)) t
  | .number _ _, t, given, _ => r.number (r.expr rfl (given _ List.mem_cons_self)) t
  | .ident _ _, t, given, _ => r.ident (r.expr rfl (given _ List.mem_cons_self)) t
  | .unary _ _ operand, t, given, asked => by
      cases t with
      | unary _ _ other =>
        exact expr_records operand other (List.forall_mem_cons.mp given).2
          (List.forall_mem_cons.mp asked).2
      | _ => exact r.no
  | .binary _ op left right, t, given, asked => by
      cases t with
      | binary _ otherOp otherLeft otherRight =>
        simp only [Nodes.expr, List.forall_mem_cons, List.forall_mem_append] at given asked
        obtain ⟨_, inLeft, inRight⟩ := given
        obtain ⟨_, ofLeft, ofRight⟩ := asked
        exact r.and (r.and (r.test _) (expr_records left otherLeft inLeft ofLeft))
          (expr_records right otherRight inRight ofRight)
      | _ => exact r.no
  | .index _ object key, t, given, asked => by
      cases t with
      | index _ otherObject otherKey =>
        simp only [Nodes.expr, List.forall_mem_cons, List.forall_mem_append] at given asked
        obtain ⟨_, inObject, inKey⟩ := given
        obtain ⟨_, ofObject, ofKey⟩ := asked
        exact r.and (expr_records object otherObject inObject ofObject)
          (expr_records key otherKey inKey ofKey)
      | _ => exact r.no
  | .table .., t, _, _ => by
      cases t with
      | table => exact r.yes
      | _ => exact r.no
  | .call _ callee args adjusted, t, given, asked => by
      cases t with
      | call _ otherCallee otherArgs otherAdjusted =>
        simp only [Nodes.expr, List.forall_mem_cons, List.forall_mem_append] at given asked
        obtain ⟨_, inCallee, inArgs⟩ := given
        obtain ⟨_, ofCallee, ofArgs⟩ := asked
        exact r.and (r.test _) (r.sized (r.and
          (expr_records callee otherCallee inCallee ofCallee)
          (exprPairs_records args otherArgs inArgs ofArgs)))
      | _ => exact r.no
  | .methodCall _ receiver _ args adjusted, t, given, asked => by
      cases t with
      | methodCall _ otherReceiver _ otherArgs otherAdjusted =>
        simp only [Nodes.expr, List.forall_mem_cons, List.forall_mem_append] at given asked
        obtain ⟨_, inReceiver, inArgs⟩ := given
        obtain ⟨_, ofReceiver, ofArgs⟩ := asked
        exact r.and (r.test _) (r.sized (r.and
          (expr_records receiver otherReceiver inReceiver ofReceiver)
          (exprPairs_records args otherArgs inArgs ofArgs)))
      | _ => exact r.no
  | .function span ps body, t, given, asked => by
      cases t with
      | function otherSpan others otherBody =>
        simp only [Nodes.expr, List.forall_mem_cons, List.forall_mem_append,
          Nodes.forall_mem_binders] at given asked
        obtain ⟨here, names, inBody⟩ := given
        obtain ⟨there, _, ofBody⟩ := asked
        have named := r.declared (.expr (.function span ps body))
          (.expr (.function otherSpan others otherBody)) here names there rfl
        exact r.functions named (r.bodies (stmtPairs_records body otherBody inBody ofBody))
      | wildcard _ wanted =>
        cases wanted with
        | function => exact r.expr rfl (given _ List.mem_cons_self)
        | _ => exact r.no
      | _ => exact r.no
  | .wildcard .., t, _, _ => by cases t <;> exact r.no
termination_by structural e => e

theorem exprPairs_records : ∀ es ts : List Expr, (∀ n ∈ Nodes.exprs es, A n) →
    (∀ n ∈ Nodes.exprs ts, B n) → Records P (exprPairs es ts)
  | [], _, _, _ => r.yes
  | _ :: _, [], _, _ => r.yes
  | e :: es, t :: ts, given, asked => by
      obtain ⟨inFirst, inRest⟩ := List.forall_mem_append.mp given
      obtain ⟨ofFirst, ofRest⟩ := List.forall_mem_append.mp asked
      exact r.and (expr_records e t inFirst ofFirst) (exprPairs_records es ts inRest ofRest)
termination_by structural es => es

theorem steps_records {span : Span} (otherSpan : Span) : ∀ step? other? : Option Expr,
    (step? = none → P (.ofExpr (unitStep span))) → (∀ n ∈ Nodes.step step?, A n) →
    (∀ n ∈ Nodes.step other?, B n) → Records P (steps span otherSpan step? other?)
  | none, none, _, _, _ => r.yes
  | none, some t, implied, _, _ => r.number (implied rfl) t
  | some e, none, _, given, _ => expr_records e (unitStep otherSpan) given
      (List.forall_mem_singleton.mpr (r.impliedStep otherSpan))
  | some e, some t, _, given, asked => expr_records e t given asked
termination_by structural step? => step?

theorem stmt_records : ∀ s t : Stmt, (∀ n ∈ Nodes.stmt s, A n) → (∀ n ∈ Nodes.stmt t, B n) →
    Records P (stmt s t)
  | .assign _ targets values, t, given, asked => by
      cases t with
      | assign _ otherTargets otherValues =>
        simp only [Nodes.stmt, List.forall_mem_cons, List.forall_mem_append] at given asked
        obtain ⟨_, inTargets, inValues⟩ := given
        obtain ⟨_, ofTargets, ofValues⟩ := asked
        exact r.sized (r.sized (r.and
          (exprPairs_records targets otherTargets inTargets ofTargets)
          (exprPairs_records values otherValues inValues ofValues)))
      | _ => exact r.no
  | .localVars span names values, t, given, asked => by
      cases t with
      | localVars otherSpan others otherValues =>
        simp only [Nodes.stmt, List.forall_mem_cons, List.forall_mem_append,
          Nodes.forall_mem_binders] at given asked
        obtain ⟨here, named, inValues⟩ := given
        obtain ⟨there, _, ofValues⟩ := asked
        exact r.and (r.sized (r.sized (exprPairs_records values otherValues inValues ofValues)))
          (r.declared (.stmt (.localVars span names values))
            (.stmt (.localVars otherSpan others otherValues)) here named there rfl)
      | _ => exact r.no
  | .call _ call, t, given, asked => by
      cases t with
      | call _ other =>
        exact expr_records call other (List.forall_mem_cons.mp given).2
          (List.forall_mem_cons.mp asked).2
      | _ => exact r.no
  | .doBlock _ body, t, given, asked => by
      cases t with
      | doBlock _ other =>
        exact r.bodies (stmtPairs_records body other (List.forall_mem_cons.mp given).2
          (List.forall_mem_cons.mp asked).2)
      | _ => exact r.no
  | .whileLoop _ condition body, t, given, asked => by
      cases t with
      | whileLoop _ otherCondition otherBody =>
        simp only [Nodes.stmt, List.forall_mem_cons, List.forall_mem_append] at given asked
        obtain ⟨_, inCondition, inBody⟩ := given
        obtain ⟨_, ofCondition, ofBody⟩ := asked
        exact r.and (expr_records condition otherCondition inCondition ofCondition)
          (r.bodies (stmtPairs_records body otherBody inBody ofBody))
      | _ => exact r.no
  | .repeatLoop _ body condition, t, given, asked => by
      cases t with
      | repeatLoop _ otherBody otherCondition =>
        simp only [Nodes.stmt, List.forall_mem_cons, List.forall_mem_append] at given asked
        obtain ⟨_, inBody, inCondition⟩ := given
        obtain ⟨_, ofBody, ofCondition⟩ := asked
        exact r.and (expr_records condition otherCondition inCondition ofCondition)
          (r.bodies (stmtPairs_records body otherBody inBody ofBody))
      | _ => exact r.no
  | .localFunction span name ps body, t, given, asked => by
      cases t with
      | localFunction otherSpan otherName others otherBody =>
        simp only [Nodes.stmt, List.forall_mem_cons, List.forall_mem_append,
          Nodes.forall_mem_binders] at given asked
        obtain ⟨here, names, inBody⟩ := given
        obtain ⟨there, _, ofBody⟩ := asked
        have named := r.declared (.stmt (.localFunction span name ps body))
          (.stmt (.localFunction otherSpan otherName others otherBody)) here names there rfl
        exact r.functions named (r.bodies (stmtPairs_records body otherBody inBody ofBody))
      | wildcard _ wanted =>
        cases wanted with
        | localFunction => exact r.stmt rfl (given _ List.mem_cons_self)
        | ifStmt => exact r.no
      | _ => exact r.no
  | .function span target method? ps body, t, given, asked => by
      cases t with
      | function otherSpan otherTarget otherMethod? others otherBody =>
        simp only [Nodes.stmt, List.forall_mem_cons, List.forall_mem_append,
          Nodes.forall_mem_binders] at given asked
        obtain ⟨here, inTarget, names, inBody⟩ := given
        obtain ⟨there, ofTarget, _, ofBody⟩ := asked
        apply r.guarded
        intro alike
        have named := r.declared (.stmt (.function span target method? ps body))
          (.stmt (.function otherSpan otherTarget otherMethod? others otherBody)) here names there
          (of_decide_eq_true alike)
        exact r.and (expr_records target otherTarget inTarget ofTarget)
          (r.functions named (r.bodies (stmtPairs_records body otherBody inBody ofBody)))
      | _ => exact r.no
  | .returnStmt _ values, t, given, asked => by
      cases t with
      | returnStmt _ others =>
        exact r.sized (exprPairs_records values others (List.forall_mem_cons.mp given).2
          (List.forall_mem_cons.mp asked).2)
      | _ => exact r.no
  | .ifStmt _ condition thenBody elseBody, t, given, asked => by
      cases t with
      | ifStmt _ otherCondition otherThen otherElse =>
        simp only [Nodes.stmt, List.forall_mem_cons, List.forall_mem_append] at given asked
        obtain ⟨_, inCondition, inThen, inElse⟩ := given
        obtain ⟨_, ofCondition, ofThen, ofElse⟩ := asked
        exact r.and (expr_records condition otherCondition inCondition ofCondition) (r.and
          (r.bodies (stmtPairs_records thenBody otherThen inThen ofThen))
          (r.bodies (stmtPairs_records elseBody otherElse inElse ofElse)))
      | wildcard _ wanted =>
        cases wanted with
        | ifStmt => exact r.stmt rfl (given _ List.mem_cons_self)
        | localFunction => exact r.no
      | _ => exact r.no
  | .breakStmt _, t, _, _ => by
      cases t with
      | breakStmt => exact r.yes
      | _ => exact r.no
  | .continueStmt _, t, _, _ => by cases t <;> exact r.no
  | .numericFor _ _ start limit step? body, t, given, asked => by
      cases t with
      | numericFor otherSpan _ _ _ otherStep? otherBody =>
        simp only [Nodes.stmt, List.forall_mem_cons, List.forall_mem_append] at given asked
        obtain ⟨here, _, _, inStep, inBody⟩ := given
        obtain ⟨_, _, _, ofStep, ofBody⟩ := asked
        have implied (absent : step? = none) : P (.ofExpr (unitStep _)) :=
          r.unitStep (absent ▸ here)
        exact r.and (steps_records otherSpan step? otherStep? implied inStep ofStep)
          (r.bodies (stmtPairs_records body otherBody inBody ofBody))
      | _ => exact r.no
  | .genericFor _ names es body, t, given, asked => by
      cases t with
      | genericFor _ otherNames otherExprs otherBody =>
        simp only [Nodes.stmt, List.forall_mem_cons, List.forall_mem_append] at given asked
        obtain ⟨_, inExprs, inBody⟩ := given
        obtain ⟨_, ofExprs, ofBody⟩ := asked
        exact r.sized (r.and (r.sized (exprPairs_records es otherExprs inExprs ofExprs))
          (r.bodies (stmtPairs_records body otherBody inBody ofBody)))
      | _ => exact r.no
  | .wildcard .., t, _, _ => by cases t <;> exact r.no
termination_by structural s => s

theorem stmtPairs_records : ∀ ss ts : List Stmt, (∀ n ∈ Nodes.stmts ss, A n) →
    (∀ n ∈ Nodes.stmts ts, B n) → Records P (stmtPairs ss ts)
  | [], _, _, _ => r.yes
  | _ :: _, [], _, _ => r.yes
  | s :: ss, t :: ts, given, asked => by
      obtain ⟨inFirst, inRest⟩ := List.forall_mem_append.mp given
      obtain ⟨ofFirst, ofRest⟩ := List.forall_mem_append.mp asked
      exact r.and (stmt_records s t inFirst ofFirst) (stmtPairs_records ss ts inRest ofRest)
termination_by structural ss => ss
end

end Compare

/-- The property holds of all that the step leaves recorded, and its answer is as `Q` says. -/
structure Outcome.Leaves {α : Type} (P : Captures → Prop) (Q : α → Prop) (outcome : Outcome α) :
    Prop where
  captures : P outcome.captures
  answer : ∀ a, outcome.answer = .ok a → Q a

namespace Outcome.Leaves

variable {α β : Type} {P : Captures → Prop} {Q : α → Prop} {R : β → Prop}

theorem ok {a : α} {kept : Captures} (recorded : P kept) (holds : Q a) :
    Leaves P Q ⟨.ok a, kept⟩ where
  captures := recorded
  answer := by
    rintro _ ⟨⟩
    exact holds

theorem told {kept : Captures} (recorded : P kept) :
    Leaves P (fun _ => True) (Outcome.tell kept) := .ok recorded trivial

end Outcome.Leaves

namespace Recording

open Outcome (Leaves)

variable {A B : Node → Prop} {P : Captures → Prop} {α β : Type} {Q : α → Prop} {R : β → Prop}
  (r : Recording A B P)

include r

theorem pure {a : α} (holds : Q a) : Leaves P Q ⟨.ok a, ∅⟩ := .ok r.empty holds

theorem andThen {first : Outcome α} {next : α → Outcome β} (before : Leaves P Q first)
    (later : ∀ a, Q a → Leaves P R (next a)) : Leaves P R (first.andThen next) := by
  obtain ⟨error | a, kept⟩ := first
  · exact ⟨before.captures, by nofun⟩
  · have after := later a (before.answer a rfl)
    exact ⟨r.append before.captures after.captures, after.answer⟩

theorem tell {a : α} {kept : Captures} (recorded : P kept) (holds : Q a) :
    Leaves P Q ((Outcome.tell kept).andThen fun _ => ⟨.ok a, ∅⟩) :=
  r.andThen (.told recorded) fun _ _ => r.pure holds

end Recording

namespace Scan

open Outcome (Leaves)

variable {A B : Node → Prop} {P : Captures → Prop} {template : List Stmt}
  {inner : Block → Outcome Verdict}

abbrev RunKept (B : Node → Prop) (P : Captures → Prop) (run? : Option Run) : Prop :=
  ∀ run ∈ run?, P run.captures ∧ ∀ n ∈ Nodes.stmts run.pending, B n

abbrev OpeningsKept (P : Captures → Prop) (inner : Block → Outcome Verdict) (s : Stmt) : Prop :=
  ∀ opening ∈ s.openings, P (inner opening.2).captures

theorem runKept_none : RunKept B P none := by nofun

theorem runKept_some {run : Run} (recorded : P run.captures)
    (asked : ∀ n ∈ Nodes.stmts run.pending, B n) : RunKept B P (some run) := by
  rintro _ ⟨⟩
  exact ⟨recorded, asked⟩

section

variable (r : Recording A B P)

include r

theorem inOpenings_records {openings : List (Scope × Block)}
    (each : ∀ opening ∈ openings, P (inner opening.2).captures) :
    P (inOpenings inner openings).captures := by
  suffices Leaves P (fun _ => True) (inOpenings inner openings) from this.captures
  induction openings with
  | nil => exact r.pure trivial
  | cons opening rest ih =>
    obtain ⟨first, others⟩ := List.forall_mem_cons.mp each
    have searched : Leaves P (fun _ => True) (inner opening.2) := ⟨first, fun _ _ => trivial⟩
    apply r.andThen searched
    intro verdict _
    cases verdict with
    | noMatch => exact ih others
    | found => exact r.pure trivial
    | nested => exact r.pure trivial

theorem within_records {s : Stmt} (each : OpeningsKept P inner s) :
    P (within inner s).captures := by
  rw [within_eq_inOpenings]
  exact inOpenings_records r each

theorem meet_records (policy : CapturePolicy) {run : Run} {s : Stmt} (kept : RunKept B P (some run))
    (given : ∀ n ∈ Nodes.stmt s, A n) : Leaves P (RunKept B P) (run.meet policy s) := by
  obtain ⟨recorded, asked⟩ := kept run rfl
  unfold Run.meet
  split
  · exact r.pure runKept_none
  · rename_i next later pending
    rw [pending] at asked
    obtain ⟨ofNext, ofLater⟩ := List.forall_mem_append.mp asked
    have longer : P (run.captures ++ (Compare.stmt s next).captures) :=
      r.append recorded (Compare.stmt_records r s next given ofNext)
    simp only
    split
    · exact r.pure (runKept_some longer ofLater)
    · exact r.tell (r.keep policy longer) runKept_none

theorem advance_records (asked : ∀ n ∈ Nodes.stmts template, B n) (policy : CapturePolicy)
    {run? : Option Run} {s : Stmt} (kept : RunKept B P run?) (given : ∀ n ∈ Nodes.stmt s, A n)
    (index : Nat) : Leaves P (RunKept B P) (advance policy template run? index s) := by
  have fresh : Leaves P (RunKept B P) (Run.meet policy ⟨index, ∅, template⟩ s) :=
    meet_records r policy (runKept_some r.empty asked) given
  unfold advance
  cases run? with
  | none => exact fresh
  | some run =>
    apply r.andThen (meet_records r policy kept given)
    intro longer? kept
    cases longer? with
    | some longer => exact r.pure kept
    | none => exact fresh

theorem nested_records {s : Stmt} {next : Outcome Verdict} (each : OpeningsKept P inner s)
    (later : Leaves P (fun _ => True) next) :
    Leaves P (fun _ => True) ((within inner s).andThen fun scope? =>
      match scope? with
      | some scope => pure (.nested scope)
      | none => next) := by
  have searched : Leaves P (fun _ => True) (within inner s) :=
    ⟨within_records r each, fun _ _ => trivial⟩
  apply r.andThen searched
  intro scope? _
  cases scope? with
  | none => exact later
  | some scope => exact r.pure trivial

theorem greedyFrom_records (asked : ∀ n ∈ Nodes.stmts template, B n) (policy : CapturePolicy)
    (stmts : List Stmt) (given : ∀ n ∈ Nodes.stmts stmts, A n)
    (each : ∀ s ∈ stmts, OpeningsKept P inner s) (index : Nat) {run? : Option Run}
    (kept : RunKept B P run?) :
    Leaves P (fun _ => True) (greedyFrom inner policy template stmts index run?) := by
  induction stmts generalizing index run? with
  | nil =>
    have left : P ((run?.map Run.captures).getD ∅) := by
      cases run? with
      | none => exact r.empty
      | some run => exact (kept run rfl).1
    exact r.tell (r.keep policy left) trivial
  | cons s rest ih =>
    obtain ⟨first, behind⟩ := List.forall_mem_append.mp given
    obtain ⟨here, others⟩ := List.forall_mem_cons.mp each
    apply r.andThen (advance_records r asked policy kept first index)
    intro next? kept
    cases next? with
    | none => exact nested_records r here (ih behind others _ runKept_none)
    | some run =>
      simp only
      split
      · exact r.tell (kept run rfl).1 trivial
      · exact ih behind others _ kept

theorem window_records (asked : ∀ n ∈ Nodes.stmts template, B n) (stmts : List Stmt)
    (given : ∀ n ∈ Nodes.stmts stmts, A n) : P (window template stmts).captures := by
  unfold window
  split
  · exact Compare.stmtPairs_records r stmts template given asked
  · exact r.empty

theorem exhaustiveFrom_records (asked : ∀ n ∈ Nodes.stmts template, B n) (policy : CapturePolicy)
    (stmts : List Stmt) (given : ∀ n ∈ Nodes.stmts stmts, A n)
    (each : ∀ s ∈ stmts, OpeningsKept P inner s) (index : Nat) :
    Leaves P (fun _ => True) (exhaustiveFrom inner policy template stmts index) := by
  induction stmts generalizing index with
  | nil => exact r.pure trivial
  | cons s rest ih =>
    obtain ⟨_, behind⟩ := List.forall_mem_append.mp given
    obtain ⟨here, others⟩ := List.forall_mem_cons.mp each
    have compared := window_records r asked (s :: rest) given
    simp only [exhaustiveFrom, Outcome.bind_eq]
    split
    · exact r.tell compared trivial
    · apply r.andThen (.told (r.keep policy compared))
      intro _ _
      exact nested_records r here (ih behind others _)

theorem levels_records (asked : ∀ n ∈ Nodes.stmts template, B n) (options : Options) (left : Nat)
    {chunk : Block} (given : ∀ n ∈ Nodes.stmts chunk, A n) :
    P (levels template options left chunk).captures := by
  induction left generalizing chunk with
  | zero => exact r.empty
  | succ left ih =>
    have each : ∀ s ∈ chunk, OpeningsKept P (levels template options left) s := by
      rintro s member ⟨scope, body⟩ opens
      apply ih
      intro node below
      exact given node (Nodes.stmt_subset_stmts member (Nodes.opening_subset opens below))
    simp only [levels, greedy, exhaustive]
    split
    · split
      · exact r.empty
      · exact (greedyFrom_records r asked _ chunk given each 0 runKept_none).captures
    · exact (exhaustiveFrom_records r asked _ chunk given each 0).captures

end

end Scan

theorem find_records {A B : Node → Prop} {P : Captures → Prop} (r : Recording A B P)
    {candidate : Block} {template : Template} {options : Options} {found : Found}
    (ok : find candidate template options = .ok found)
    (given : ∀ n ∈ Nodes.stmts candidate, A n) (asked : ∀ n ∈ Nodes.stmts template.stmts, B n) :
    P found.captures := by
  have recorded := Scan.levels_records r asked options options.maxDepth given
  have ran := scan_of_find ok
  rw [scan] at ran
  rwa [ran] at recorded

end LuaSearch
