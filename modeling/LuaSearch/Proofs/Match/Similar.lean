import Mathlib.Data.List.Forall2
import LuaSearch.Proofs.Match.Relabel

/-!
Similar trees. Two trees are similar when they are built alike and differ at most in their spans,
their names, the contents of their literals and their unary operators; a numeric loop that leaves
its step out is similar to one whose step is a number. Similar trees are those of one shape, the
shape being the relabeling that makes equal whatever may differ; so the matcher, which sees no
relabeling, does not tell similar trees apart.
-/
namespace LuaSearch

def SimilarBinder (b b' : Binder) : Prop := b.name?.isSome = b'.name?.isSome

structure SimilarParams (p p' : Params) : Prop where
  names : List.Forall₂ SimilarBinder p.names p'.names
  hasVarargs : p.hasVarargs = p'.hasVarargs

mutual
inductive SimilarExpr : Expr → Expr → Prop where
  | constant (span span' : Span) (value : Constant) :
      SimilarExpr (.constant span value) (.constant span' value)
  | string (span span' : Span) (value value' : String) :
      SimilarExpr (.string span value) (.string span' value')
  | number (span span' : Span) (text text' : String) :
      SimilarExpr (.number span text) (.number span' text')
  | ident (span span' : Span) (name name' : String) :
      SimilarExpr (.ident span name) (.ident span' name')
  | unary (span span' : Span) (op op' : UnaryOp) {e e' : Expr} (operand : SimilarExpr e e') :
      SimilarExpr (.unary span op e) (.unary span' op' e')
  | binary (span span' : Span) (op : BinaryOp) {l l' r r' : Expr} (left : SimilarExpr l l')
      (right : SimilarExpr r r') : SimilarExpr (.binary span op l r) (.binary span' op l' r')
  | index (span span' : Span) {o o' k k' : Expr} (object : SimilarExpr o o')
      (key : SimilarExpr k k') : SimilarExpr (.index span o k) (.index span' o' k')
  | table (span span' : Span) {fs fs' : List Field} (fields : List.Forall₂ SimilarField fs fs') :
      SimilarExpr (.table span fs) (.table span' fs')
  | call (span span' : Span) (adjusted : Bool) {c c' : Expr} {as as' : List Expr}
      (callee : SimilarExpr c c') (args : List.Forall₂ SimilarExpr as as') :
      SimilarExpr (.call span c as adjusted) (.call span' c' as' adjusted)
  | methodCall (span span' : Span) (method method' : String) (adjusted : Bool) {c c' : Expr}
      {as as' : List Expr} (receiver : SimilarExpr c c') (args : List.Forall₂ SimilarExpr as as') :
      SimilarExpr (.methodCall span c method as adjusted)
        (.methodCall span' c' method' as' adjusted)
  | function (span span' : Span) {p p' : Params} {b b' : Block} (params : SimilarParams p p')
      (body : List.Forall₂ SimilarStmt b b') :
      SimilarExpr (.function span p b) (.function span' p' b')
  | wildcard (span span' : Span) (wanted : ExprWildcard) :
      SimilarExpr (.wildcard span wanted) (.wildcard span' wanted)

inductive SimilarField : Field → Field → Prop where
  | positional {v v' : Expr} (value : SimilarExpr v v') :
      SimilarField (.positional v) (.positional v')
  | keyed {k k' v v' : Expr} (key : SimilarExpr k k') (value : SimilarExpr v v') :
      SimilarField (.keyed k v) (.keyed k' v')

/-- Steps of two numeric loops. No step stands for any number. -/
inductive SimilarStep : Option Expr → Option Expr → Prop where
  | absent : SimilarStep none none
  | omitted (span : Span) (text : String) : SimilarStep none (some (.number span text))
  | written (span : Span) (text : String) : SimilarStep (some (.number span text)) none
  | given {e e' : Expr} (similar : SimilarExpr e e') : SimilarStep (some e) (some e')

inductive SimilarStmt : Stmt → Stmt → Prop where
  | assign (span span' : Span) {ts ts' vs vs' : List Expr}
      (targets : List.Forall₂ SimilarExpr ts ts') (values : List.Forall₂ SimilarExpr vs vs') :
      SimilarStmt (.assign span ts vs) (.assign span' ts' vs')
  | localVars (span span' : Span) {ns ns' : List Binder} {vs vs' : List Expr}
      (names : List.Forall₂ SimilarBinder ns ns') (values : List.Forall₂ SimilarExpr vs vs') :
      SimilarStmt (.localVars span ns vs) (.localVars span' ns' vs')
  | call (span span' : Span) {c c' : Expr} (call : SimilarExpr c c') :
      SimilarStmt (.call span c) (.call span' c')
  | doBlock (span span' : Span) {b b' : Block} (body : List.Forall₂ SimilarStmt b b') :
      SimilarStmt (.doBlock span b) (.doBlock span' b')
  | whileLoop (span span' : Span) {c c' : Expr} {b b' : Block} (condition : SimilarExpr c c')
      (body : List.Forall₂ SimilarStmt b b') :
      SimilarStmt (.whileLoop span c b) (.whileLoop span' c' b')
  | repeatLoop (span span' : Span) {b b' : Block} {c c' : Expr}
      (body : List.Forall₂ SimilarStmt b b') (condition : SimilarExpr c c') :
      SimilarStmt (.repeatLoop span b c) (.repeatLoop span' b' c')
  | localFunction (span span' : Span) (name name' : String) {p p' : Params} {b b' : Block}
      (params : SimilarParams p p') (body : List.Forall₂ SimilarStmt b b') :
      SimilarStmt (.localFunction span name p b) (.localFunction span' name' p' b')
  | function (span span' : Span) {t t' : Expr} {m m' : Option String} {p p' : Params}
      {b b' : Block} (target : SimilarExpr t t') (method : m.isSome = m'.isSome)
      (params : SimilarParams p p') (body : List.Forall₂ SimilarStmt b b') :
      SimilarStmt (.function span t m p b) (.function span' t' m' p' b')
  | returnStmt (span span' : Span) {vs vs' : List Expr}
      (values : List.Forall₂ SimilarExpr vs vs') :
      SimilarStmt (.returnStmt span vs) (.returnStmt span' vs')
  | ifStmt (span span' : Span) {c c' : Expr} {t t' e e' : Block} (condition : SimilarExpr c c')
      (thenBody : List.Forall₂ SimilarStmt t t') (elseBody : List.Forall₂ SimilarStmt e e') :
      SimilarStmt (.ifStmt span c t e) (.ifStmt span' c' t' e')
  | breakStmt (span span' : Span) : SimilarStmt (.breakStmt span) (.breakStmt span')
  | continueStmt (span span' : Span) : SimilarStmt (.continueStmt span) (.continueStmt span')
  | numericFor (span span' : Span) (var var' : String) {s s' l l' : Expr} {t t' : Option Expr}
      {b b' : Block} (start : SimilarExpr s s') (limit : SimilarExpr l l')
      (step : SimilarStep t t') (body : List.Forall₂ SimilarStmt b b') :
      SimilarStmt (.numericFor span var s l t b) (.numericFor span' var' s' l' t' b')
  | genericFor (span span' : Span) {ns ns' : List String} {es es' : List Expr} {b b' : Block}
      (names : ns.length = ns'.length) (exprs : List.Forall₂ SimilarExpr es es')
      (body : List.Forall₂ SimilarStmt b b') :
      SimilarStmt (.genericFor span ns es b) (.genericFor span' ns' es' b')
  | wildcard (span span' : Span) (wanted : StmtWildcard) :
      SimilarStmt (.wildcard span wanted) (.wildcard span' wanted)
end

abbrev SimilarBlock (b b' : Block) : Prop := List.Forall₂ SimilarStmt b b'

/-- The relabeling that keeps of a tree what similar trees have in common. -/
def shape : Relabeling where
  span _ := default
  name _ := ""
  string _ := ""
  number _ := "1"
  unary _ := .neg
  fillsStep := true
  keepsUnit := by simp

theorem shape_binder_iff (b b' : Binder) :
    SimilarBinder b b' ↔ shape.binder b = shape.binder b' := by
  rcases b with ⟨_, _ | _⟩ <;> rcases b' with ⟨_, _ | _⟩ <;>
    simp [SimilarBinder, Relabeling.binder, shape]

theorem forall₂_iff_map_eq {α β : Type} {R : α → α → Prop} {view : α → β}
    (each : ∀ a a', R a a' ↔ view a = view a') (as as' : List α) :
    List.Forall₂ R as as' ↔ as.map view = as'.map view := by
  induction as generalizing as' with
  | nil => cases as' <;> simp
  | cons a as ih => cases as' <;> simp [each, ih]

theorem shape_binders_iff (bs bs' : List Binder) :
    List.Forall₂ SimilarBinder bs bs' ↔ bs.map shape.binder = bs'.map shape.binder :=
  forall₂_iff_map_eq shape_binder_iff bs bs'

theorem shape_params_iff (p p' : Params) :
    SimilarParams p p' ↔ shape.params p = shape.params p' := by
  simp only [Relabeling.params, Params.mk.injEq, ← shape_binders_iff]
  constructor
  · rintro ⟨names, dots⟩
    exact ⟨names, dots⟩
  · rintro ⟨names, dots⟩
    exact ⟨names, dots⟩

theorem shape_names_iff (ns ns' : List String) :
    ns.length = ns'.length ↔ ns.map shape.name = ns'.map shape.name := by
  simp [shape, List.map_const']

theorem shape_method_iff (m m' : Option String) :
    m.isSome = m'.isSome ↔ m.map shape.name = m'.map shape.name := by
  cases m <;> cases m' <;> simp [shape]

mutual
theorem SimilarExpr.shape_eq : ∀ {e e' : Expr}, SimilarExpr e e' → shape.expr e = shape.expr e'
  | _, _, .constant .. | _, _, .string .. | _, _, .number .. | _, _, .ident ..
  | _, _, .wildcard .. => rfl
  | _, _, .unary _ _ _ _ operand => by
      simp only [Relabeling.expr, operand.shape_eq]
      rfl
  | _, _, .binary _ _ _ left right => by
      simp only [Relabeling.expr, left.shape_eq, right.shape_eq]
      rfl
  | _, _, .index _ _ object key => by
      simp only [Relabeling.expr, object.shape_eq, key.shape_eq]
      rfl
  | _, _, .table _ _ fields => by
      simp only [Relabeling.expr, similarFields_shape_eq fields]
      rfl
  | _, _, .call _ _ _ callee args => by
      simp only [Relabeling.expr, callee.shape_eq, similarExprs_shape_eq args]
      rfl
  | _, _, .methodCall _ _ _ _ _ receiver args => by
      simp only [Relabeling.expr, receiver.shape_eq, similarExprs_shape_eq args]
      rfl
  | _, _, .function _ _ params body => by
      simp only [Relabeling.expr, (shape_params_iff _ _).mp params, similarBlock_shape_eq body]
      rfl
termination_by structural h => h

theorem similarExprs_shape_eq : ∀ {es es' : List Expr}, List.Forall₂ SimilarExpr es es' →
    shape.exprs es = shape.exprs es'
  | _, _, .nil => rfl
  | _, _, .cons first rest => by
      simp only [Relabeling.exprs, first.shape_eq, similarExprs_shape_eq rest]
termination_by structural h => h

theorem SimilarField.shape_eq : ∀ {f f' : Field}, SimilarField f f' →
    shape.field f = shape.field f'
  | _, _, .positional value => by simp only [Relabeling.field, value.shape_eq]
  | _, _, .keyed key value => by simp only [Relabeling.field, key.shape_eq, value.shape_eq]
termination_by structural h => h

theorem similarFields_shape_eq : ∀ {fs fs' : List Field}, List.Forall₂ SimilarField fs fs' →
    shape.fields fs = shape.fields fs'
  | _, _, .nil => rfl
  | _, _, .cons first rest => by
      simp only [Relabeling.fields, first.shape_eq, similarFields_shape_eq rest]
termination_by structural h => h

theorem SimilarStep.shape_eq (span span' : Span) : ∀ {step? step?' : Option Expr},
    SimilarStep step? step?' → shape.step span step? = shape.step span' step?'
  | _, _, .absent | _, _, .omitted .. | _, _, .written .. => rfl
  | _, _, .given similar => by simp only [Relabeling.step, similar.shape_eq]
termination_by structural h => h

theorem SimilarStmt.shape_eq : ∀ {s s' : Stmt}, SimilarStmt s s' → shape.stmt s = shape.stmt s'
  | _, _, .breakStmt .. | _, _, .continueStmt .. | _, _, .wildcard .. => rfl
  | _, _, .assign _ _ targets values => by
      simp only [Relabeling.stmt, similarExprs_shape_eq targets, similarExprs_shape_eq values]
      rfl
  | _, _, .localVars _ _ names values => by
      simp only [Relabeling.stmt, (shape_binders_iff _ _).mp names, similarExprs_shape_eq values]
      rfl
  | _, _, .call _ _ call => by
      simp only [Relabeling.stmt, call.shape_eq]
      rfl
  | _, _, .doBlock _ _ body => by
      simp only [Relabeling.stmt, similarBlock_shape_eq body]
      rfl
  | _, _, .whileLoop _ _ condition body => by
      simp only [Relabeling.stmt, condition.shape_eq, similarBlock_shape_eq body]
      rfl
  | _, _, .repeatLoop _ _ body condition => by
      simp only [Relabeling.stmt, condition.shape_eq, similarBlock_shape_eq body]
      rfl
  | _, _, .localFunction _ _ _ _ params body => by
      simp only [Relabeling.stmt, (shape_params_iff _ _).mp params, similarBlock_shape_eq body]
      rfl
  | _, _, .function _ _ target method params body => by
      simp only [Relabeling.stmt, target.shape_eq, (shape_method_iff _ _).mp method,
        (shape_params_iff _ _).mp params, similarBlock_shape_eq body]
      rfl
  | _, _, .returnStmt _ _ values => by
      simp only [Relabeling.stmt, similarExprs_shape_eq values]
      rfl
  | _, _, .ifStmt _ _ condition thenBody elseBody => by
      simp only [Relabeling.stmt, condition.shape_eq, similarBlock_shape_eq thenBody,
        similarBlock_shape_eq elseBody]
      rfl
  | _, _, .numericFor span span' _ _ start limit step body => by
      simp only [Relabeling.stmt, start.shape_eq, limit.shape_eq, step.shape_eq span span',
        similarBlock_shape_eq body]
      rfl
  | _, _, .genericFor _ _ names exprs body => by
      simp only [Relabeling.stmt, (shape_names_iff _ _).mp names, similarExprs_shape_eq exprs,
        similarBlock_shape_eq body]
      rfl
termination_by structural h => h

theorem similarBlock_shape_eq : ∀ {b b' : Block}, SimilarBlock b b' →
    shape.stmts b = shape.stmts b'
  | _, _, .nil => rfl
  | _, _, .cons first rest => by
      simp only [Relabeling.stmts, first.shape_eq, similarBlock_shape_eq rest]
termination_by structural h => h
end

mutual
theorem similarExpr_of_shape_eq : ∀ {e e' : Expr}, shape.expr e = shape.expr e' → SimilarExpr e e'
  | .constant _ value, e', same => by
      cases e' with
      | constant _ value' =>
        obtain ⟨_, rfl⟩ := Expr.constant.inj same
        exact .constant ..
      | _ => cases same
  | .string .., e', same => by
      cases e' with
      | string => exact .string ..
      | _ => cases same
  | .number .., e', same => by
      cases e' with
      | number => exact .number ..
      | _ => cases same
  | .ident .., e', same => by
      cases e' with
      | ident => exact .ident ..
      | _ => cases same
  | .unary _ _ operand, e', same => by
      cases e' with
      | unary _ _ operand' =>
        obtain ⟨_, _, operands⟩ := Expr.unary.inj same
        exact .unary _ _ _ _ (similarExpr_of_shape_eq operands)
      | _ => cases same
  | .binary _ op left right, e', same => by
      cases e' with
      | binary _ op' left' right' =>
        obtain ⟨_, rfl, lefts, rights⟩ := Expr.binary.inj same
        exact .binary _ _ _ (similarExpr_of_shape_eq lefts) (similarExpr_of_shape_eq rights)
      | _ => cases same
  | .index _ object key, e', same => by
      cases e' with
      | index _ object' key' =>
        obtain ⟨_, objects, keys⟩ := Expr.index.inj same
        exact .index _ _ (similarExpr_of_shape_eq objects) (similarExpr_of_shape_eq keys)
      | _ => cases same
  | .table _ fs, e', same => by
      cases e' with
      | table _ fs' => exact .table _ _ (similarFields_of_shape_eq (Expr.table.inj same).2)
      | _ => cases same
  | .call _ callee args adjusted, e', same => by
      cases e' with
      | call _ callee' args' adjusted' =>
        obtain ⟨_, callees, given, rfl⟩ := Expr.call.inj same
        exact .call _ _ _ (similarExpr_of_shape_eq callees) (similarExprs_of_shape_eq given)
      | _ => cases same
  | .methodCall _ receiver _ args adjusted, e', same => by
      cases e' with
      | methodCall _ receiver' _ args' adjusted' =>
        obtain ⟨_, receivers, _, given, rfl⟩ := Expr.methodCall.inj same
        exact .methodCall _ _ _ _ _ (similarExpr_of_shape_eq receivers)
          (similarExprs_of_shape_eq given)
      | _ => cases same
  | .function _ ps body, e', same => by
      cases e' with
      | function _ ps' body' =>
        obtain ⟨_, params, bodies⟩ := Expr.function.inj same
        exact .function _ _ ((shape_params_iff ps ps').mpr params)
          (similarBlock_of_shape_eq bodies)
      | _ => cases same
  | .wildcard _ wanted, e', same => by
      cases e' with
      | wildcard _ wanted' =>
        obtain ⟨_, rfl⟩ := Expr.wildcard.inj same
        exact .wildcard ..
      | _ => cases same
termination_by structural e => e

theorem similarExprs_of_shape_eq : ∀ {es es' : List Expr}, shape.exprs es = shape.exprs es' →
    List.Forall₂ SimilarExpr es es'
  | [], es', same => by
      cases es' with
      | nil => exact .nil
      | cons => cases same
  | e :: es, es', same => by
      cases es' with
      | nil => cases same
      | cons e' es' =>
        obtain ⟨first, rest⟩ := List.cons.inj same
        exact .cons (similarExpr_of_shape_eq first) (similarExprs_of_shape_eq rest)
termination_by structural es => es

theorem similarField_of_shape_eq : ∀ {f f' : Field}, shape.field f = shape.field f' →
    SimilarField f f'
  | .positional value, f', same => by
      cases f' with
      | positional value' =>
        exact .positional (similarExpr_of_shape_eq (Field.positional.inj same))
      | keyed => cases same
  | .keyed key value, f', same => by
      cases f' with
      | positional => cases same
      | keyed key' value' =>
        obtain ⟨keys, values⟩ := Field.keyed.inj same
        exact .keyed (similarExpr_of_shape_eq keys) (similarExpr_of_shape_eq values)
termination_by structural f => f

theorem similarFields_of_shape_eq : ∀ {fs fs' : List Field},
    shape.fields fs = shape.fields fs' → List.Forall₂ SimilarField fs fs'
  | [], fs', same => by
      cases fs' with
      | nil => exact .nil
      | cons => cases same
  | f :: fs, fs', same => by
      cases fs' with
      | nil => cases same
      | cons f' fs' =>
        obtain ⟨first, rest⟩ := List.cons.inj same
        exact .cons (similarField_of_shape_eq first) (similarFields_of_shape_eq rest)
termination_by structural fs => fs

theorem similarStep_of_shape_eq {span span' : Span} : ∀ {step? step?' : Option Expr},
    shape.step span step? = shape.step span' step?' → SimilarStep step? step?'
  | none, none, _ => .absent
  | none, some e', same => by
      cases e' with
      | number => exact .omitted ..
      | _ => cases same
  | some e, none, same => by
      cases e with
      | number => exact .written ..
      | _ => cases same
  | some e, some e', same => .given (similarExpr_of_shape_eq (Option.some.inj same))
termination_by structural step? => step?

theorem similarStmt_of_shape_eq : ∀ {s s' : Stmt}, shape.stmt s = shape.stmt s' → SimilarStmt s s'
  | .assign _ targets values, s', same => by
      cases s' with
      | assign _ targets' values' =>
        obtain ⟨_, left, right⟩ := Stmt.assign.inj same
        exact .assign _ _ (similarExprs_of_shape_eq left) (similarExprs_of_shape_eq right)
      | _ => cases same
  | .localVars _ names values, s', same => by
      cases s' with
      | localVars _ names' values' =>
        obtain ⟨_, left, right⟩ := Stmt.localVars.inj same
        exact .localVars _ _ ((shape_binders_iff names names').mpr left)
          (similarExprs_of_shape_eq right)
      | _ => cases same
  | .call _ call, s', same => by
      cases s' with
      | call _ call' => exact .call _ _ (similarExpr_of_shape_eq (Stmt.call.inj same).2)
      | _ => cases same
  | .doBlock _ body, s', same => by
      cases s' with
      | doBlock _ body' => exact .doBlock _ _ (similarBlock_of_shape_eq (Stmt.doBlock.inj same).2)
      | _ => cases same
  | .whileLoop _ condition body, s', same => by
      cases s' with
      | whileLoop _ condition' body' =>
        obtain ⟨_, conditions, bodies⟩ := Stmt.whileLoop.inj same
        exact .whileLoop _ _ (similarExpr_of_shape_eq conditions)
          (similarBlock_of_shape_eq bodies)
      | _ => cases same
  | .repeatLoop _ body condition, s', same => by
      cases s' with
      | repeatLoop _ body' condition' =>
        obtain ⟨_, bodies, conditions⟩ := Stmt.repeatLoop.inj same
        exact .repeatLoop _ _ (similarBlock_of_shape_eq bodies)
          (similarExpr_of_shape_eq conditions)
      | _ => cases same
  | .localFunction _ _ ps body, s', same => by
      cases s' with
      | localFunction _ _ ps' body' =>
        obtain ⟨_, _, params, bodies⟩ := Stmt.localFunction.inj same
        exact .localFunction _ _ _ _ ((shape_params_iff ps ps').mpr params)
          (similarBlock_of_shape_eq bodies)
      | _ => cases same
  | .function _ target method? ps body, s', same => by
      cases s' with
      | function _ target' method?' ps' body' =>
        obtain ⟨_, targets, methods, params, bodies⟩ := Stmt.function.inj same
        exact .function _ _ (similarExpr_of_shape_eq targets)
          ((shape_method_iff method? method?').mpr methods)
          ((shape_params_iff ps ps').mpr params) (similarBlock_of_shape_eq bodies)
      | _ => cases same
  | .returnStmt _ values, s', same => by
      cases s' with
      | returnStmt _ values' =>
        exact .returnStmt _ _ (similarExprs_of_shape_eq (Stmt.returnStmt.inj same).2)
      | _ => cases same
  | .ifStmt _ condition thenBody elseBody, s', same => by
      cases s' with
      | ifStmt _ condition' thenBody' elseBody' =>
        obtain ⟨_, conditions, thens, elses⟩ := Stmt.ifStmt.inj same
        exact .ifStmt _ _ (similarExpr_of_shape_eq conditions) (similarBlock_of_shape_eq thens)
          (similarBlock_of_shape_eq elses)
      | _ => cases same
  | .breakStmt _, s', same => by
      cases s' with
      | breakStmt => exact .breakStmt ..
      | _ => cases same
  | .continueStmt _, s', same => by
      cases s' with
      | continueStmt => exact .continueStmt ..
      | _ => cases same
  | .numericFor _ _ start limit step? body, s', same => by
      cases s' with
      | numericFor _ _ start' limit' step?' body' =>
        obtain ⟨_, _, starts, limits, steps, bodies⟩ := Stmt.numericFor.inj same
        exact .numericFor _ _ _ _ (similarExpr_of_shape_eq starts)
          (similarExpr_of_shape_eq limits) (similarStep_of_shape_eq steps)
          (similarBlock_of_shape_eq bodies)
      | _ => cases same
  | .genericFor _ names es body, s', same => by
      cases s' with
      | genericFor _ names' es' body' =>
        obtain ⟨_, left, right, bodies⟩ := Stmt.genericFor.inj same
        exact .genericFor _ _ ((shape_names_iff names names').mpr left)
          (similarExprs_of_shape_eq right) (similarBlock_of_shape_eq bodies)
      | _ => cases same
  | .wildcard _ wanted, s', same => by
      cases s' with
      | wildcard _ wanted' =>
        obtain ⟨_, rfl⟩ := Stmt.wildcard.inj same
        exact .wildcard ..
      | _ => cases same
termination_by structural s => s

theorem similarBlock_of_shape_eq : ∀ {b b' : Block}, shape.stmts b = shape.stmts b' →
    SimilarBlock b b'
  | [], b', same => by
      cases b' with
      | nil => exact .nil
      | cons => cases same
  | s :: b, b', same => by
      cases b' with
      | nil => cases same
      | cons s' b' =>
        obtain ⟨first, rest⟩ := List.cons.inj same
        exact .cons (similarStmt_of_shape_eq first) (similarBlock_of_shape_eq rest)
termination_by structural b => b
end

/-- The matcher does not tell similar trees apart: searching similar candidates for similar
    templates ends with the same error, or with the same verdict and captures that are similar one
    by one. -/
theorem find_similar {candidate candidate' : Block} {template template' : Template}
    (candidates : SimilarBlock candidate candidate')
    (templates : SimilarBlock template.stmts template'.stmts) (options : Options) :
    let result := find candidate template options
    let result' := find candidate' template' options
    (∃ e, result = .error e ∧ result' = .error e) ∨
      ∃ verdict kept kept', result = .ok ⟨verdict, kept⟩ ∧ result' = .ok ⟨verdict, kept'⟩ ∧
        List.Forall₂ SimilarExpr kept.exprs kept'.exprs ∧
        List.Forall₂ SimilarStmt kept.stmts kept'.stmts := by
  have sameTemplate : shape.template template = shape.template template' := by
    simp only [Relabeling.template, similarBlock_shape_eq templates]
  -- Both searches are the search of the shapes.
  have same : (find candidate template options).map shape.found =
      (find candidate' template' options).map shape.found := by
    rw [← Relabeling.find_relabel, ← Relabeling.find_relabel, similarBlock_shape_eq candidates,
      sameTemplate]
  simp only
  generalize find candidate template options = result at same ⊢
  generalize find candidate' template' options = result' at same ⊢
  cases result with
  | error e =>
    cases result' with
    | error e' =>
      obtain rfl := Except.error.inj same
      exact .inl ⟨e, rfl, rfl⟩
    | ok found' => cases same
  | ok found =>
    cases result' with
    | error e' => cases same
    | ok found' =>
      simp only [Except.map, Except.ok.injEq, Relabeling.found, Found.mk.injEq,
        Relabeling.captures, Captures.mk.injEq] at same
      obtain ⟨verdict, kept⟩ := found
      obtain ⟨verdict', kept'⟩ := found'
      obtain ⟨rfl, exprs, stmts⟩ := same
      exact .inr ⟨verdict, kept, kept', rfl, rfl, similarExprs_of_shape_eq exprs,
        similarBlock_of_shape_eq stmts⟩

/-- A loop that leaves its step out and one that counts down, with other names and another unary
    operator: a wildcard for the step takes the number one from the first and the written number
    from the second. -/
theorem find_similar_step :
    let span : Span := default
    let loop (var op text) (step? : Option Expr) : Stmt :=
      .numericFor span var (.number span text) (.unary span op (.ident span var)) step? []
    let candidate : Block := [loop "i" .len "1" none]
    let candidate' : Block := [loop "k" .neg "10" (some (.number span "2"))]
    let template : Template := ⟨[loop "i" .len "1" (some (.wildcard span .number))], by simp⟩
    let template' : Template := ⟨[loop "n" .not "0" (some (.wildcard span .number))], by simp⟩
    SimilarBlock candidate candidate' ∧ SimilarBlock template.stmts template'.stmts ∧
      find candidate template default = .ok ⟨.found 0 1, .ofExpr (.number span "1")⟩ ∧
      ∃ kept', find candidate' template' default = .ok ⟨.found 0 1, kept'⟩ ∧
        List.Forall₂ SimilarExpr [.number span "1"] kept'.exprs := by
  intro span loop candidate candidate' template template'
  have candidates : SimilarBlock candidate candidate' := similarBlock_of_shape_eq rfl
  have templates : SimilarBlock template.stmts template'.stmts := similarBlock_of_shape_eq rfl
  have ok : find candidate template default = .ok ⟨.found 0 1, .ofExpr (.number span "1")⟩ := rfl
  refine ⟨candidates, templates, ok, ?_⟩
  rcases find_similar candidates templates default with
    ⟨e, failed, _⟩ | ⟨verdict, kept, kept', found, found', exprs, _⟩
  · rw [ok] at failed
    cases failed
  · rw [ok] at found
    cases found
    exact ⟨kept', found', exprs⟩

end LuaSearch
