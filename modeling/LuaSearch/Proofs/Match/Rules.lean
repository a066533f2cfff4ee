import LuaSearch.Match.Compare

/-!
The rules of comparing, as a relation between a candidate, a template and what is recorded. There is
one rule for each pair of forms that may match; what has no rule does not match. The comparison
decides the relation: it holds, with some captures, exactly when the rules give these captures. So
whatever is true of all matches is proved by going through the rules, not through the pairs of forms
that the comparison goes through.
-/
namespace LuaSearch

/-- Whether the wildcard records a name that it takes. -/
def ExprWildcard.recordsName : ExprWildcard → Bool
  | ident | function => true
  | string | number => false

def Captures.ofName (wanted : ExprWildcard) (span : Span) (name : String) : Captures :=
  if wanted.recordsName then .ofExpr (.ident span name) else ∅

structure ParamsMatch (p p' : Params) : Prop where
  hasVarargs : p.hasVarargs = p'.hasVarargs
  names : p.names.length = p'.names.length

mutual
inductive MatchesExpr : Expr → Expr → Captures → Prop where
  | constant (span span' : Span) (value : Constant) :
      MatchesExpr (.constant span value) (.constant span' value) ∅
  | string (span span' : Span) (value value' : String) :
      MatchesExpr (.string span value) (.string span' value') ∅
  | number (span span' : Span) (text text' : String) :
      MatchesExpr (.number span text) (.number span' text') ∅
  | ident (span span' : Span) (name name' : String) :
      MatchesExpr (.ident span name) (.ident span' name') ∅
  | takenString (span span' : Span) (value : String) :
      MatchesExpr (.string span value) (.wildcard span' .string) (.ofExpr (.string span value))
  | takenNumber (span span' : Span) (text : String) :
      MatchesExpr (.number span text) (.wildcard span' .number) (.ofExpr (.number span text))
  | takenName (span span' : Span) (name : String) (wanted : ExprWildcard) :
      MatchesExpr (.ident span name) (.wildcard span' wanted) (.ofName wanted span name)
  | takenFunction (span span' : Span) (params : Params) (body : Block) :
      MatchesExpr (.function span params body) (.wildcard span' .function)
        (.ofExpr (.function span params body))
  | unary (span span' : Span) (op op' : UnaryOp) {e t : Expr} {kept : Captures}
      (operand : MatchesExpr e t kept) :
      MatchesExpr (.unary span op e) (.unary span' op' t) kept
  | binary (span span' : Span) (op : BinaryOp) {l l' r r' : Expr} {a b : Captures}
      (left : MatchesExpr l l' a) (right : MatchesExpr r r' b) :
      MatchesExpr (.binary span op l r) (.binary span' op l' r') (a ++ b)
  | index (span span' : Span) {o o' k k' : Expr} {a b : Captures}
      (object : MatchesExpr o o' a) (key : MatchesExpr k k' b) :
      MatchesExpr (.index span o k) (.index span' o' k') (a ++ b)
  | table (span span' : Span) (fields fields' : List Field) :
      MatchesExpr (.table span fields) (.table span' fields') ∅
  | call (span span' : Span) (adjusted : Bool) {c c' : Expr} {es ts : List Expr} {a b : Captures}
      (callee : MatchesExpr c c' a) (args : MatchesExprs es ts b) :
      MatchesExpr (.call span c es adjusted) (.call span' c' ts adjusted) (a ++ b)
  | methodCall (span span' : Span) (method method' : String) (adjusted : Bool) {c c' : Expr}
      {es ts : List Expr} {a b : Captures}
      (receiver : MatchesExpr c c' a) (args : MatchesExprs es ts b) :
      MatchesExpr (.methodCall span c method es adjusted)
        (.methodCall span' c' method' ts adjusted) (a ++ b)
  | function (span span' : Span) {p p' : Params} {body body' : Block} {kept : Captures}
      (params : ParamsMatch p p') (bodies : MatchesBlock body body' kept) :
      MatchesExpr (.function span p body) (.function span' p' body')
        (kept ++ Compare.declared p.names p'.names)

inductive MatchesExprs : List Expr → List Expr → Captures → Prop where
  | nil : MatchesExprs [] [] ∅
  | cons {e t : Expr} {es ts : List Expr} {a b : Captures} (first : MatchesExpr e t a)
      (rest : MatchesExprs es ts b) : MatchesExprs (e :: es) (t :: ts) (a ++ b)

/-- Steps of two numeric loops with these spans. A step that is left out is the number one. -/
inductive MatchesStep : Span → Span → Option Expr → Option Expr → Captures → Prop where
  | absent (span span' : Span) : MatchesStep span span' none none ∅
  | omitted {span : Span} (span' : Span) {t : Expr} {kept : Captures}
      (one : MatchesExpr (Compare.unitStep span) t kept) :
      MatchesStep span span' none (some t) kept
  | written (span : Span) {span' : Span} {e : Expr} {kept : Captures}
      (one : MatchesExpr e (Compare.unitStep span') kept) :
      MatchesStep span span' (some e) none kept
  | given (span span' : Span) {e t : Expr} {kept : Captures} (step : MatchesExpr e t kept) :
      MatchesStep span span' (some e) (some t) kept

inductive MatchesStmt : Stmt → Stmt → Captures → Prop where
  | assign (span span' : Span) {es es' vs vs' : List Expr} {a b : Captures}
      (targets : MatchesExprs es es' a) (values : MatchesExprs vs vs' b) :
      MatchesStmt (.assign span es vs) (.assign span' es' vs') (a ++ b)
  | localVars (span span' : Span) {ns ns' : List Binder} {vs vs' : List Expr} {kept : Captures}
      (names : ns.length = ns'.length) (values : MatchesExprs vs vs' kept) :
      MatchesStmt (.localVars span ns vs) (.localVars span' ns' vs')
        (kept ++ Compare.declared ns ns')
  | call (span span' : Span) {e t : Expr} {kept : Captures} (call : MatchesExpr e t kept) :
      MatchesStmt (.call span e) (.call span' t) kept
  | doBlock (span span' : Span) {body body' : Block} {kept : Captures}
      (bodies : MatchesBlock body body' kept) :
      MatchesStmt (.doBlock span body) (.doBlock span' body') kept
  | whileLoop (span span' : Span) {c c' : Expr} {body body' : Block} {a b : Captures}
      (condition : MatchesExpr c c' a) (bodies : MatchesBlock body body' b) :
      MatchesStmt (.whileLoop span c body) (.whileLoop span' c' body') (a ++ b)
  | repeatLoop (span span' : Span) {c c' : Expr} {body body' : Block} {a b : Captures}
      (condition : MatchesExpr c c' a) (bodies : MatchesBlock body body' b) :
      MatchesStmt (.repeatLoop span body c) (.repeatLoop span' body' c') (a ++ b)
  | takenLocalFunction (span span' : Span) (name : String) (params : Params) (body : Block) :
      MatchesStmt (.localFunction span name params body) (.wildcard span' .localFunction)
        (.ofStmt (.localFunction span name params body))
  | localFunction (span span' : Span) (name name' : String) {p p' : Params} {body body' : Block}
      {kept : Captures} (params : ParamsMatch p p') (bodies : MatchesBlock body body' kept) :
      MatchesStmt (.localFunction span name p body) (.localFunction span' name' p' body')
        (kept ++ Compare.declared p.names p'.names)
  | function (span span' : Span) {e t : Expr} {m m' : Option String} {p p' : Params}
      {body body' : Block} {a b : Captures} (methods : m.isSome = m'.isSome)
      (target : MatchesExpr e t a) (params : ParamsMatch p p')
      (bodies : MatchesBlock body body' b) :
      MatchesStmt (.function span e m p body) (.function span' t m' p' body')
        (a ++ (b ++ Compare.declared p.names p'.names))
  | returnStmt (span span' : Span) {vs vs' : List Expr} {kept : Captures}
      (values : MatchesExprs vs vs' kept) :
      MatchesStmt (.returnStmt span vs) (.returnStmt span' vs') kept
  | takenIf (span span' : Span) (condition : Expr) (thenBody elseBody : Block) :
      MatchesStmt (.ifStmt span condition thenBody elseBody) (.wildcard span' .ifStmt)
        (.ofStmt (.ifStmt span condition thenBody elseBody))
  | ifStmt (span span' : Span) {c c' : Expr} {body body' other other' : Block}
      {a b d : Captures} (condition : MatchesExpr c c' a) (thens : MatchesBlock body body' b)
      (elses : MatchesBlock other other' d) :
      MatchesStmt (.ifStmt span c body other) (.ifStmt span' c' body' other') (a ++ (b ++ d))
  | breakStmt (span span' : Span) : MatchesStmt (.breakStmt span) (.breakStmt span') ∅
  | numericFor (span span' : Span) (var var' : String) (start start' limit limit' : Expr)
      {step? step?' : Option Expr} {body body' : Block} {a b : Captures}
      (steps : MatchesStep span span' step? step?' a) (bodies : MatchesBlock body body' b) :
      MatchesStmt (.numericFor span var start limit step? body)
        (.numericFor span' var' start' limit' step?' body') (a ++ b)
  | genericFor (span span' : Span) {ns ns' : List String} {es ts : List Expr}
      {body body' : Block} {a b : Captures} (names : ns.length = ns'.length)
      (exprs : MatchesExprs es ts a) (bodies : MatchesBlock body body' b) :
      MatchesStmt (.genericFor span ns es body) (.genericFor span' ns' ts body') (a ++ b)

inductive MatchesStmts : List Stmt → List Stmt → Captures → Prop where
  | nil : MatchesStmts [] [] ∅
  | cons {s t : Stmt} {ss ts : List Stmt} {a b : Captures} (first : MatchesStmt s t a)
      (rest : MatchesStmts ss ts b) : MatchesStmts (s :: ss) (t :: ts) (a ++ b)

/-- An empty template takes any block. -/
inductive MatchesBlock : Block → Block → Captures → Prop where
  | empty (body : Block) : MatchesBlock body [] ∅
  | same {body body' : Block} {kept : Captures} (pairs : MatchesStmts body body' kept) :
      MatchesBlock body body' kept
end

namespace Comparison

variable {a b : Comparison} {kept : Captures}

theorem holds_iff_recorded : a.holds = true ↔ ∃ kept, a = .recorded kept := by
  obtain ⟨holds, captures⟩ := a
  cases holds <;> simp [recorded]

@[simp] theorem recorded_inj {captures : Captures} :
    recorded captures = recorded kept ↔ captures = kept := by
  simp [recorded]

@[simp] theorem yes_eq_recorded : yes = recorded kept ↔ ∅ = kept := recorded_inj

@[simp] theorem no_ne_recorded : no ≠ recorded kept := by
  simp [no, recorded]

@[simp] theorem test_eq_recorded {holds : Bool} :
    test holds = recorded kept ↔ holds = true ∧ ∅ = kept := by
  simp [test, recorded]

theorem and_eq_recorded :
    a.and b = recorded kept ↔
      ∃ before after, a = recorded before ∧ b = recorded after ∧ before ++ after = kept := by
  obtain ⟨_ | _, before⟩ := a <;> obtain ⟨_ | _, after⟩ := b <;> simp [and, recorded]

theorem test_and_eq_recorded {holds : Bool} :
    (test holds).and b = recorded kept ↔ holds = true ∧ b = recorded kept := by
  cases holds <;> obtain ⟨_, after⟩ := b <;> simp [and, test, recorded]

end Comparison

namespace Compare

open Comparison

variable {c : Comparison} {kept : Captures}

theorem sized_eq_recorded {α : Type} {items others : List α} :
    sized items others c = .recorded kept ↔
      items.length = others.length ∧ c = .recorded kept := by
  simp [sized, test_and_eq_recorded]

theorem functions_eq_recorded {ps others : Params} :
    functions ps others c = .recorded kept ↔
      ParamsMatch ps others ∧
        ∃ inside, c = .recorded inside ∧ inside ++ declared ps.names others.names = kept := by
  rw [functions, and_eq_recorded]
  simp only [test_and_eq_recorded, sized_eq_recorded, recorded_inj, decide_eq_true_eq]
  constructor
  · rintro ⟨inside, _, ⟨varargs, names, held⟩, rfl, rfl⟩
    exact ⟨⟨varargs, names⟩, inside, held, rfl⟩
  · rintro ⟨⟨varargs, names⟩, inside, held, rfl⟩
    exact ⟨inside, _, ⟨varargs, names, held⟩, rfl, rfl⟩

theorem bodies_eq_recorded {body other : Block} :
    bodies body other c = .recorded kept ↔
      (other = [] ∧ ∅ = kept) ∨
        (other ≠ [] ∧ body.length = other.length ∧ c = .recorded kept) := by
  cases other <;> simp [bodies, sized_eq_recorded]

theorem matches_of_number {span : Span} {text : String} (t : Expr)
    (held : number span text t = .recorded kept) : MatchesExpr (.number span text) t kept := by
  cases t with
  | number => cases held; exact .number ..
  | wildcard _ wanted =>
    cases wanted with
    | number => cases held; exact .takenNumber ..
    | _ => cases held
  | _ => cases held

theorem matches_of_bodies {body other : Block} {pairs : Comparison}
    (each : body.length = other.length → pairs = .recorded kept → MatchesStmts body other kept)
    (held : bodies body other pairs = .recorded kept) : MatchesBlock body other kept := by
  rw [bodies_eq_recorded] at held
  rcases held with ⟨rfl, rfl⟩ | ⟨_, size, pairs⟩
  · exact .empty body
  · exact .same (each size pairs)

mutual
theorem matches_of_expr : ∀ {e t : Expr} {kept : Captures},
    expr e t = .recorded kept → MatchesExpr e t kept
  | .constant _ value, t, kept, held => by
      cases t with
      | constant _ other =>
        simp only [expr, constant, test_eq_recorded, decide_eq_true_eq] at held
        obtain ⟨rfl, rfl⟩ := held
        exact .constant ..
      | _ => cases held
  | .string .., t, kept, held => by
      cases t with
      | string => cases held; exact .string ..
      | wildcard _ wanted =>
        cases wanted with
        | string => cases held; exact .takenString ..
        | _ => cases held
      | _ => cases held
  | .number .., t, _, held => matches_of_number t held
  | .ident .., t, kept, held => by
      cases t with
      | ident => cases held; exact .ident ..
      | wildcard _ wanted => cases wanted <;> cases held <;> exact .takenName ..
      | _ => cases held
  | .unary .., t, kept, held => by
      cases t with
      | unary => exact .unary _ _ _ _ (matches_of_expr held)
      | _ => cases held
  | .binary _ op left right, t, kept, held => by
      cases t with
      | binary _ op' left' right' =>
        rw [expr, and_eq_recorded] at held
        simp only [test_and_eq_recorded, decide_eq_true_eq] at held
        obtain ⟨_, _, ⟨rfl, first⟩, second, rfl⟩ := held
        exact .binary _ _ _ (matches_of_expr first) (matches_of_expr second)
      | _ => cases held
  | .index .., t, kept, held => by
      cases t with
      | index =>
        rw [expr, and_eq_recorded] at held
        obtain ⟨_, _, first, second, rfl⟩ := held
        exact .index _ _ (matches_of_expr first) (matches_of_expr second)
      | _ => cases held
  | .table .., t, kept, held => by
      cases t with
      | table => cases held; exact .table ..
      | _ => cases held
  | .call _ callee args adjusted, t, kept, held => by
      cases t with
      | call _ callee' args' adjusted' =>
        rw [expr, test_and_eq_recorded, sized_eq_recorded, and_eq_recorded,
          decide_eq_true_eq] at held
        obtain ⟨rfl, size, _, _, first, rest, rfl⟩ := held
        exact .call _ _ _ (matches_of_expr first) (matches_of_exprPairs size rest)
      | _ => cases held
  | .methodCall _ receiver method args adjusted, t, kept, held => by
      cases t with
      | methodCall _ receiver' method' args' adjusted' =>
        rw [expr, test_and_eq_recorded, sized_eq_recorded, and_eq_recorded,
          decide_eq_true_eq] at held
        obtain ⟨rfl, size, _, _, first, rest, rfl⟩ := held
        exact .methodCall _ _ _ _ _ (matches_of_expr first) (matches_of_exprPairs size rest)
      | _ => cases held
  | .function .., t, kept, held => by
      cases t with
      | function =>
        rw [expr, functions_eq_recorded] at held
        obtain ⟨params, _, bodies, rfl⟩ := held
        exact .function _ _ params (matches_of_bodies matches_of_stmtPairs bodies)
      | wildcard _ wanted =>
        cases wanted with
        | function => cases held; exact .takenFunction ..
        | _ => cases held
      | _ => cases held
  | .wildcard .., t, kept, held => by cases t <;> cases held
termination_by structural e => e

theorem matches_of_exprPairs : ∀ {es ts : List Expr} {kept : Captures},
    es.length = ts.length → exprPairs es ts = .recorded kept → MatchesExprs es ts kept
  | [], ts, kept, size, held => by
      cases ts with
      | nil => cases held; exact .nil
      | cons => cases size
  | e :: es, ts, kept, size, held => by
      cases ts with
      | nil => cases size
      | cons t ts =>
        rw [exprPairs, and_eq_recorded] at held
        obtain ⟨_, _, first, rest, rfl⟩ := held
        exact .cons (matches_of_expr first) (matches_of_exprPairs (Nat.succ.inj size) rest)
termination_by structural es => es

theorem matches_of_steps {span span' : Span} : ∀ {step? step?' : Option Expr} {kept : Captures},
    steps span span' step? step?' = .recorded kept → MatchesStep span span' step? step?' kept
  | none, none, _, held => by
      cases held
      exact .absent ..
  | none, some t, _, held => .omitted span' (matches_of_number t held)
  | some _, none, _, held => .written span (matches_of_expr held)
  | some _, some _, _, held => .given span span' (matches_of_expr held)
termination_by structural step? => step?

theorem matches_of_stmt : ∀ {s t : Stmt} {kept : Captures},
    stmt s t = .recorded kept → MatchesStmt s t kept
  | .assign .., t, kept, held => by
      cases t with
      | assign =>
        rw [stmt, sized_eq_recorded, sized_eq_recorded, and_eq_recorded] at held
        obtain ⟨targets, values, _, _, first, second, rfl⟩ := held
        exact .assign _ _ (matches_of_exprPairs targets first)
          (matches_of_exprPairs values second)
      | _ => cases held
  | .localVars .., t, kept, held => by
      cases t with
      | localVars =>
        rw [stmt, and_eq_recorded] at held
        simp only [sized_eq_recorded, recorded_inj] at held
        obtain ⟨_, _, ⟨names, values, held⟩, rfl, rfl⟩ := held
        exact .localVars _ _ names (matches_of_exprPairs values held)
      | _ => cases held
  | .call .., t, kept, held => by
      cases t with
      | call => exact .call _ _ (matches_of_expr held)
      | _ => cases held
  | .doBlock .., t, kept, held => by
      cases t with
      | doBlock => exact .doBlock _ _ (matches_of_bodies matches_of_stmtPairs held)
      | _ => cases held
  | .whileLoop .., t, kept, held => by
      cases t with
      | whileLoop =>
        rw [stmt, and_eq_recorded] at held
        obtain ⟨_, _, condition, body, rfl⟩ := held
        exact .whileLoop _ _ (matches_of_expr condition)
          (matches_of_bodies matches_of_stmtPairs body)
      | _ => cases held
  | .repeatLoop .., t, kept, held => by
      cases t with
      | repeatLoop =>
        rw [stmt, and_eq_recorded] at held
        obtain ⟨_, _, condition, body, rfl⟩ := held
        exact .repeatLoop _ _ (matches_of_expr condition)
          (matches_of_bodies matches_of_stmtPairs body)
      | _ => cases held
  | .localFunction .., t, kept, held => by
      cases t with
      | localFunction =>
        rw [stmt, functions_eq_recorded] at held
        obtain ⟨params, _, body, rfl⟩ := held
        exact .localFunction _ _ _ _ params (matches_of_bodies matches_of_stmtPairs body)
      | wildcard _ wanted =>
        cases wanted with
        | localFunction => cases held; exact .takenLocalFunction ..
        | ifStmt => cases held
      | _ => cases held
  | .function .., t, kept, held => by
      cases t with
      | function =>
        rw [stmt, test_and_eq_recorded, and_eq_recorded, decide_eq_true_eq] at held
        simp only [functions_eq_recorded] at held
        obtain ⟨methods, _, _, target, ⟨params, _, body, rfl⟩, rfl⟩ := held
        exact .function _ _ methods (matches_of_expr target) params
          (matches_of_bodies matches_of_stmtPairs body)
      | _ => cases held
  | .returnStmt .., t, kept, held => by
      cases t with
      | returnStmt =>
        rw [stmt, sized_eq_recorded] at held
        exact .returnStmt _ _ (matches_of_exprPairs held.1 held.2)
      | _ => cases held
  | .ifStmt .., t, kept, held => by
      cases t with
      | ifStmt =>
        rw [stmt, and_eq_recorded] at held
        simp only [and_eq_recorded] at held
        obtain ⟨_, _, condition, ⟨_, _, thens, elses, rfl⟩, rfl⟩ := held
        exact .ifStmt _ _ (matches_of_expr condition)
          (matches_of_bodies matches_of_stmtPairs thens)
          (matches_of_bodies matches_of_stmtPairs elses)
      | wildcard _ wanted =>
        cases wanted with
        | localFunction => cases held
        | ifStmt => cases held; exact .takenIf ..
      | _ => cases held
  | .breakStmt .., t, kept, held => by
      cases t with
      | breakStmt => cases held; exact .breakStmt ..
      | _ => cases held
  | .continueStmt .., t, kept, held => by cases t <;> cases held
  | .numericFor .., t, kept, held => by
      cases t with
      | numericFor =>
        rw [stmt, and_eq_recorded] at held
        obtain ⟨_, _, step, body, rfl⟩ := held
        exact .numericFor _ _ _ _ _ _ _ _ (matches_of_steps step)
          (matches_of_bodies matches_of_stmtPairs body)
      | _ => cases held
  | .genericFor .., t, kept, held => by
      cases t with
      | genericFor =>
        rw [stmt, sized_eq_recorded, and_eq_recorded] at held
        simp only [sized_eq_recorded] at held
        obtain ⟨names, _, _, ⟨size, exprs⟩, body, rfl⟩ := held
        exact .genericFor _ _ names (matches_of_exprPairs size exprs)
          (matches_of_bodies matches_of_stmtPairs body)
      | _ => cases held
  | .wildcard .., t, kept, held => by cases t <;> cases held
termination_by structural s => s

theorem matches_of_stmtPairs : ∀ {ss ts : List Stmt} {kept : Captures},
    ss.length = ts.length → stmtPairs ss ts = .recorded kept → MatchesStmts ss ts kept
  | [], ts, kept, size, held => by
      cases ts with
      | nil => cases held; exact .nil
      | cons => cases size
  | s :: ss, ts, kept, size, held => by
      cases ts with
      | nil => cases size
      | cons t ts =>
        rw [stmtPairs, and_eq_recorded] at held
        obtain ⟨_, _, first, rest, rfl⟩ := held
        exact .cons (matches_of_stmt first) (matches_of_stmtPairs (Nat.succ.inj size) rest)
termination_by structural ss => ss
end

theorem bodies_of_matches {body other : Block}
    (pairs : body.length = other.length ∧ stmtPairs body other = .recorded kept) :
    bodies body other (stmtPairs body other) = .recorded kept := by
  rw [bodies_eq_recorded]
  by_cases empty : other = []
  · subst empty
    obtain rfl := List.eq_nil_of_length_eq_zero pairs.1
    exact .inl ⟨rfl, recorded_inj.mp pairs.2⟩
  · exact .inr ⟨empty, pairs⟩

mutual
theorem expr_of_matches : ∀ {e t : Expr} {kept : Captures},
    MatchesExpr e t kept → expr e t = .recorded kept
  | _, _, _, .constant .. => by simp [expr, constant]
  | _, _, _, .string .. | _, _, _, .number .. | _, _, _, .ident .. | _, _, _, .table .. => rfl
  | _, _, _, .takenString .. | _, _, _, .takenNumber .. | _, _, _, .takenFunction .. => rfl
  | _, _, _, .takenName _ _ _ wanted => by cases wanted <;> rfl
  | _, _, _, .unary _ _ _ _ operand => by
      rw [expr]
      exact expr_of_matches operand
  | _, _, _, .binary _ _ _ left right => by
      rw [expr, and_eq_recorded]
      exact ⟨_, _, by simp [test_and_eq_recorded, expr_of_matches left], expr_of_matches right,
        rfl⟩
  | _, _, _, .index _ _ object key => by
      rw [expr, and_eq_recorded]
      exact ⟨_, _, expr_of_matches object, expr_of_matches key, rfl⟩
  | _, _, _, .call _ _ _ callee args => by
      obtain ⟨size, pairs⟩ := exprPairs_of_matches args
      rw [expr, test_and_eq_recorded, sized_eq_recorded, and_eq_recorded]
      exact ⟨by simp, size, _, _, expr_of_matches callee, pairs, rfl⟩
  | _, _, _, .methodCall _ _ _ _ _ receiver args => by
      obtain ⟨size, pairs⟩ := exprPairs_of_matches args
      rw [expr, test_and_eq_recorded, sized_eq_recorded, and_eq_recorded]
      exact ⟨by simp, size, _, _, expr_of_matches receiver, pairs, rfl⟩
  | _, _, _, .function _ _ params bodies => by
      rw [expr, functions_eq_recorded]
      exact ⟨params, _, bodies_of_matchesBlock bodies, rfl⟩
termination_by structural _ _ _ h => h

theorem exprPairs_of_matches : ∀ {es ts : List Expr} {kept : Captures},
    MatchesExprs es ts kept → es.length = ts.length ∧ exprPairs es ts = .recorded kept
  | _, _, _, .nil => ⟨rfl, rfl⟩
  | _, _, _, .cons first rest => by
      obtain ⟨size, pairs⟩ := exprPairs_of_matches rest
      rw [exprPairs, and_eq_recorded]
      exact ⟨congrArg Nat.succ size, _, _, expr_of_matches first, pairs, rfl⟩
termination_by structural _ _ _ h => h

theorem steps_of_matches : ∀ {span span' : Span} {step? step?' : Option Expr} {kept : Captures},
    MatchesStep span span' step? step?' kept → steps span span' step? step?' = .recorded kept
  | _, _, _, _, _, .absent .. => rfl
  | _, _, _, _, _, .omitted _ one => expr_of_matches one
  | _, _, _, _, _, .written _ one => expr_of_matches one
  | _, _, _, _, _, .given _ _ step => expr_of_matches step
termination_by structural _ _ _ _ _ h => h

theorem stmt_of_matches : ∀ {s t : Stmt} {kept : Captures},
    MatchesStmt s t kept → stmt s t = .recorded kept
  | _, _, _, .assign _ _ targets values => by
      obtain ⟨size, first⟩ := exprPairs_of_matches targets
      obtain ⟨size', second⟩ := exprPairs_of_matches values
      rw [stmt, sized_eq_recorded, sized_eq_recorded, and_eq_recorded]
      exact ⟨size, size', _, _, first, second, rfl⟩
  | _, _, _, .localVars _ _ names values => by
      obtain ⟨size, pairs⟩ := exprPairs_of_matches values
      rw [stmt, and_eq_recorded]
      exact ⟨_, _, by simp [sized_eq_recorded, names, size, pairs], rfl, rfl⟩
  | _, _, _, .call _ _ call => expr_of_matches call
  | _, _, _, .doBlock _ _ bodies => bodies_of_matchesBlock bodies
  | _, _, _, .whileLoop _ _ condition bodies => by
      rw [stmt, and_eq_recorded]
      exact ⟨_, _, expr_of_matches condition, bodies_of_matchesBlock bodies, rfl⟩
  | _, _, _, .repeatLoop _ _ condition bodies => by
      rw [stmt, and_eq_recorded]
      exact ⟨_, _, expr_of_matches condition, bodies_of_matchesBlock bodies, rfl⟩
  | _, _, _, .takenLocalFunction .. | _, _, _, .takenIf .. | _, _, _, .breakStmt .. => rfl
  | _, _, _, .localFunction _ _ _ _ params bodies => by
      rw [stmt, functions_eq_recorded]
      exact ⟨params, _, bodies_of_matchesBlock bodies, rfl⟩
  | _, _, _, .function _ _ methods target params bodies => by
      rw [stmt, test_and_eq_recorded, and_eq_recorded]
      refine ⟨by simp [methods], _, _, expr_of_matches target, ?_, rfl⟩
      rw [functions_eq_recorded]
      exact ⟨params, _, bodies_of_matchesBlock bodies, rfl⟩
  | _, _, _, .returnStmt _ _ values => by
      rw [stmt, sized_eq_recorded]
      exact exprPairs_of_matches values
  | _, _, _, .ifStmt _ _ condition thens elses => by
      rw [stmt, and_eq_recorded]
      refine ⟨_, _, expr_of_matches condition, ?_, rfl⟩
      rw [and_eq_recorded]
      exact ⟨_, _, bodies_of_matchesBlock thens, bodies_of_matchesBlock elses, rfl⟩
  | _, _, _, .numericFor _ _ _ _ _ _ _ _ steps bodies => by
      rw [stmt, and_eq_recorded]
      exact ⟨_, _, steps_of_matches steps, bodies_of_matchesBlock bodies, rfl⟩
  | _, _, _, .genericFor _ _ names exprs bodies => by
      obtain ⟨size, pairs⟩ := exprPairs_of_matches exprs
      rw [stmt, sized_eq_recorded, and_eq_recorded]
      exact ⟨names, _, _, by simp [sized_eq_recorded, size, pairs], bodies_of_matchesBlock bodies,
        rfl⟩
termination_by structural _ _ _ h => h

theorem stmtPairs_of_matches : ∀ {ss ts : List Stmt} {kept : Captures},
    MatchesStmts ss ts kept → ss.length = ts.length ∧ stmtPairs ss ts = .recorded kept
  | _, _, _, .nil => ⟨rfl, rfl⟩
  | _, _, _, .cons first rest => by
      obtain ⟨size, pairs⟩ := stmtPairs_of_matches rest
      rw [stmtPairs, and_eq_recorded]
      exact ⟨congrArg Nat.succ size, _, _, stmt_of_matches first, pairs, rfl⟩
termination_by structural _ _ _ h => h

theorem bodies_of_matchesBlock : ∀ {body other : Block} {kept : Captures},
    MatchesBlock body other kept → bodies body other (stmtPairs body other) = .recorded kept
  | _, _, _, .empty _ => rfl
  | _, _, _, .same pairs => bodies_of_matches (stmtPairs_of_matches pairs)
termination_by structural _ _ _ h => h
end

theorem expr_holds_iff {e t : Expr} : (expr e t).holds = true ↔ ∃ kept, MatchesExpr e t kept := by
  rw [holds_iff_recorded]
  exact exists_congr fun _ => ⟨matches_of_expr, expr_of_matches⟩

theorem stmt_holds_iff {s t : Stmt} : (stmt s t).holds = true ↔ ∃ kept, MatchesStmt s t kept := by
  rw [holds_iff_recorded]
  exact exists_congr fun _ => ⟨matches_of_stmt, stmt_of_matches⟩

theorem exprs_holds_iff {es ts : List Expr} :
    (exprs es ts).holds = true ↔ ∃ kept, MatchesExprs es ts kept := by
  rw [holds_iff_recorded]
  apply exists_congr
  intro kept
  rw [exprs, sized_eq_recorded]
  exact ⟨fun held => matches_of_exprPairs held.1 held.2, exprPairs_of_matches⟩

theorem stmts_holds_iff {ss ts : Block} :
    (stmts ss ts).holds = true ↔ ∃ kept, MatchesBlock ss ts kept := by
  rw [holds_iff_recorded]
  exact exists_congr fun _ => ⟨matches_of_bodies matches_of_stmtPairs, bodies_of_matchesBlock⟩

end Compare

end LuaSearch
