import LuaSearch.Proofs.Match.Nesting
import LuaSearch.Template

/-!
Relabelings of syntax trees. A relabeling changes what a node carries beside its shape: the span,
the names, the contents of literals, the unary operator. Constructors, binary operators, list
lengths, flags and wildcards stay. It may also write out the step that a numeric loop leaves out.

Erasing all spans is the relabeling that layout is measured with: two trees are the same up to
layout when they are equal once their spans are erased.
-/
namespace LuaSearch

structure Relabeling where
  span : Span → Span
  name : String → String
  string : String → String
  number : String → String
  unary : UnaryOp → UnaryOp
  fillsStep : Bool
  /-- A step that is left out counts as one and must go on doing so. -/
  keepsUnit : fillsStep = false → number "1" = "1"

namespace Relabeling

def eraseSpans : Relabeling where
  span _ := default
  name := id
  string := id
  number := id
  unary := id
  fillsStep := false
  keepsUnit _ := rfl

variable (r : Relabeling)

def binder (b : Binder) : Binder := ⟨r.span b.span, b.name?.map r.name⟩

def params (p : Params) : Params := ⟨p.names.map r.binder, p.hasVarargs⟩

def absentStep (span : Span) : Option Expr :=
  if r.fillsStep then some (.number (r.span span) (r.number "1")) else none

mutual
def expr : Expr → Expr
  | .constant span value => .constant (r.span span) value
  | .string span value => .string (r.span span) (r.string value)
  | .number span text => .number (r.span span) (r.number text)
  | .ident span name => .ident (r.span span) (r.name name)
  | .unary span op operand => .unary (r.span span) (r.unary op) (expr operand)
  | .binary span op left right => .binary (r.span span) op (expr left) (expr right)
  | .index span object key => .index (r.span span) (expr object) (expr key)
  | .table span fs => .table (r.span span) (fields fs)
  | .call span callee args adjusted => .call (r.span span) (expr callee) (exprs args) adjusted
  | .methodCall span receiver method args adjusted =>
      .methodCall (r.span span) (expr receiver) (r.name method) (exprs args) adjusted
  | .function span ps body => .function (r.span span) (r.params ps) (stmts body)
  | .wildcard span wanted => .wildcard (r.span span) wanted
termination_by structural e => e

def exprs : List Expr → List Expr
  | [] => []
  | e :: es => expr e :: exprs es
termination_by structural es => es

def field : Field → Field
  | .positional value => .positional (expr value)
  | .keyed key value => .keyed (expr key) (expr value)
termination_by structural f => f

def fields : List Field → List Field
  | [] => []
  | f :: fs => field f :: fields fs
termination_by structural fs => fs

def step (span : Span) : Option Expr → Option Expr
  | none => r.absentStep span
  | some e => some (expr e)
termination_by structural e => e

def stmt : Stmt → Stmt
  | .assign span targets values => .assign (r.span span) (exprs targets) (exprs values)
  | .localVars span names values =>
      .localVars (r.span span) (names.map r.binder) (exprs values)
  | .call span call => .call (r.span span) (expr call)
  | .doBlock span body => .doBlock (r.span span) (stmts body)
  | .whileLoop span condition body => .whileLoop (r.span span) (expr condition) (stmts body)
  | .repeatLoop span body condition => .repeatLoop (r.span span) (stmts body) (expr condition)
  | .localFunction span name ps body =>
      .localFunction (r.span span) (r.name name) (r.params ps) (stmts body)
  | .function span target method? ps body =>
      .function (r.span span) (expr target) (method?.map r.name) (r.params ps) (stmts body)
  | .returnStmt span values => .returnStmt (r.span span) (exprs values)
  | .ifStmt span condition thenBody elseBody =>
      .ifStmt (r.span span) (expr condition) (stmts thenBody) (stmts elseBody)
  | .breakStmt span => .breakStmt (r.span span)
  | .continueStmt span => .continueStmt (r.span span)
  | .numericFor span var start limit step? body =>
      .numericFor (r.span span) (r.name var) (expr start) (expr limit) (step span step?)
        (stmts body)
  | .genericFor span names es body =>
      .genericFor (r.span span) (names.map r.name) (exprs es) (stmts body)
  | .wildcard span wanted => .wildcard (r.span span) wanted
termination_by structural s => s

def stmts : List Stmt → List Stmt
  | [] => []
  | s :: ss => stmt s :: stmts ss
termination_by structural ss => ss
end

theorem exprs_eq_map (es : List Expr) : r.exprs es = es.map r.expr := by
  induction es with
  | nil => rfl
  | cons e es ih => simp [exprs, ih]

theorem fields_eq_map (fs : List Field) : r.fields fs = fs.map r.field := by
  induction fs with
  | nil => rfl
  | cons f fs ih => simp [fields, ih]

theorem stmts_eq_map (ss : List Stmt) : r.stmts ss = ss.map r.stmt := by
  induction ss with
  | nil => rfl
  | cons s ss ih => simp [stmts, ih]

@[simp] theorem length_exprs (es : List Expr) : (r.exprs es).length = es.length := by
  simp [exprs_eq_map]

@[simp] theorem length_stmts (ss : List Stmt) : (r.stmts ss).length = ss.length := by
  simp [stmts_eq_map]

@[simp] theorem isEmpty_stmts (ss : List Stmt) : (r.stmts ss).isEmpty = ss.isEmpty := by
  cases ss <;> rfl

mutual
theorem depth_expr : ∀ e : Expr, Depth.expr (r.expr e) = Depth.expr e
  | .constant .. | .string .. | .number .. | .ident .. | .wildcard .. => rfl
  | .unary _ _ operand => depth_expr operand
  | .binary _ _ left right => by simp [expr, Depth.expr, depth_expr left, depth_expr right]
  | .index _ object key => by simp [expr, Depth.expr, depth_expr object, depth_expr key]
  | .table _ fs => by simp [expr, Depth.expr, depth_fields fs]
  | .call _ callee args _ => by simp [expr, Depth.expr, depth_expr callee, depth_exprs args]
  | .methodCall _ receiver _ args _ => by
      simp [expr, Depth.expr, depth_expr receiver, depth_exprs args]
  | .function _ _ body => by simp [expr, Depth.expr, depth_stmts body]

theorem depth_exprs : ∀ es : List Expr, Depth.exprs (r.exprs es) = Depth.exprs es
  | [] => rfl
  | e :: es => by simp [exprs, Depth.exprs, depth_expr e, depth_exprs es]

theorem depth_field : ∀ f : Field, Depth.field (r.field f) = Depth.field f
  | .positional value => by simp [field, Depth.field, depth_expr value]
  | .keyed key value => by simp [field, Depth.field, depth_expr key, depth_expr value]

theorem depth_fields : ∀ fs : List Field, Depth.fields (r.fields fs) = Depth.fields fs
  | [] => rfl
  | f :: fs => by simp [fields, Depth.fields, depth_field f, depth_fields fs]

theorem depth_step (span : Span) : ∀ step? : Option Expr,
    Depth.step (r.step span step?) = Depth.step step?
  | none => by unfold step absentStep; split <;> rfl
  | some e => by simp [step, Depth.step, depth_expr e]

theorem depth_stmt : ∀ s : Stmt, Depth.stmt (r.stmt s) = Depth.stmt s
  | .breakStmt _ | .continueStmt _ | .wildcard .. => rfl
  | .assign _ targets values => by
      simp [stmt, Depth.stmt, depth_exprs targets, depth_exprs values]
  | .localVars _ _ values => by simp [stmt, Depth.stmt, depth_exprs values]
  | .call _ call => by simp [stmt, Depth.stmt, depth_expr call]
  | .doBlock _ body => by simp [stmt, Depth.stmt, depth_stmts body]
  | .whileLoop _ condition body => by
      simp [stmt, Depth.stmt, depth_expr condition, depth_stmts body]
  | .repeatLoop _ body condition => by
      simp [stmt, Depth.stmt, depth_expr condition, depth_stmts body]
  | .localFunction _ _ _ body => by simp [stmt, Depth.stmt, depth_stmts body]
  | .function _ target _ _ body => by
      simp [stmt, Depth.stmt, depth_expr target, depth_stmts body]
  | .returnStmt _ values => by simp [stmt, Depth.stmt, depth_exprs values]
  | .ifStmt _ condition thenBody elseBody => by
      simp [stmt, Depth.stmt, depth_expr condition, depth_stmts thenBody, depth_stmts elseBody]
  | .numericFor span _ start limit step? body => by
      simp [stmt, Depth.stmt, depth_expr start, depth_expr limit, depth_step span step?,
        depth_stmts body]
  | .genericFor _ _ es body => by simp [stmt, Depth.stmt, depth_exprs es, depth_stmts body]

theorem depth_stmts : ∀ ss : List Stmt, Depth.stmts (r.stmts ss) = Depth.stmts ss
  | [] => rfl
  | s :: ss => by simp [stmts, Depth.stmts, depth_stmt s, depth_stmts ss]
end

mutual
theorem literals_expr : ∀ e : Expr, Literals.expr (r.expr e) = (Literals.expr e).map r.stmts
  | .constant .. | .string .. | .number .. | .ident .. | .wildcard .. => rfl
  | .unary _ _ operand => by simp [expr, Literals.expr, literals_expr operand]
  | .binary _ _ left right => by
      simp [expr, Literals.expr, literals_expr left, literals_expr right]
  | .index _ object key => by
      simp [expr, Literals.expr, literals_expr object, literals_expr key]
  | .table _ fs => by simp [expr, Literals.expr, literals_fields fs]
  | .call _ callee args _ => by
      simp [expr, Literals.expr, literals_expr callee, literals_exprs args]
  | .methodCall _ receiver _ args _ => by
      simp [expr, Literals.expr, literals_expr receiver, literals_exprs args]
  | .function _ _ body => by simp [expr, Literals.expr]

theorem literals_exprs : ∀ es : List Expr,
    Literals.exprs (r.exprs es) = (Literals.exprs es).map r.stmts
  | [] => rfl
  | e :: es => by simp [exprs, Literals.exprs, literals_expr e, literals_exprs es]

theorem literals_field : ∀ f : Field, Literals.field (r.field f) = (Literals.field f).map r.stmts
  | .positional value => by simp [field, Literals.field, literals_expr value]
  | .keyed key value => by
      simp [field, Literals.field, literals_expr key, literals_expr value]

theorem literals_fields : ∀ fs : List Field,
    Literals.fields (r.fields fs) = (Literals.fields fs).map r.stmts
  | [] => rfl
  | f :: fs => by simp [fields, Literals.fields, literals_field f, literals_fields fs]
end

theorem literals_step (span : Span) (step? : Option Expr) :
    Literals.exprs (r.step span step?).toList =
      (Literals.exprs step?.toList).map r.stmts := by
  cases step? with
  | none => unfold step absentStep; split <;> rfl
  | some e => exact literals_exprs r [e]

theorem literals_searched (s : Stmt) :
    Literals.exprs (r.stmt s).searched = (Literals.exprs s.searched).map r.stmts := by
  cases s with
  | numericFor span var start limit step? body =>
    simp [stmt, Stmt.searched, Literals.exprs, literals_expr, literals_step]
  | _ =>
    simp [stmt, Stmt.searched, Literals.exprs, Literals.exprs_append, literals_expr,
      literals_exprs]

theorem functionBodies_stmt (s : Stmt) :
    (r.stmt s).functionBodies = s.functionBodies.map r.stmts := by
  cases s with
  | localFunction span name ps body => rfl
  | function span target method? ps body => rfl
  | _ => exact literals_searched r _

/-- A relabeled statement opens the relabeled blocks, in the same order. -/
theorem openings_stmt (s : Stmt) :
    (r.stmt s).openings = s.openings.map fun opening => (opening.1, r.stmts opening.2) := by
  have bodies : (r.stmt s).bodies = s.bodies.map r.stmts := by cases s <;> rfl
  simp [Stmt.openings, functionBodies_stmt, bodies, Function.comp_def]

/-- Markers are names, so lowering sees what a relabeling does to names. -/
def KeepsNames : Prop := ∀ name, r.name name = name

theorem eraseSpans_keepsNames : eraseSpans.KeepsNames := fun _ => rfl

theorem lower_name (keeps : r.KeepsNames) (span : Span) (name : String) :
    Lower.name (r.span span) (r.name name) = r.expr (Lower.name span name) := by
  unfold Lower.name
  rw [keeps name]
  cases Marker.wildcard? name with
  | none => simp [expr, keeps name]
  | some wanted => rfl

theorem lower_binder (keeps : r.KeepsNames) (b : Binder) :
    Lower.binder (r.binder b) = r.binder (Lower.binder b) := by
  have same : (r.binder b).name? = b.name? := by
    cases given : b.name? <;> simp [binder, given, keeps _]
  unfold Lower.binder
  rw [same]
  split <;> rfl

theorem lower_params (keeps : r.KeepsNames) (p : Params) :
    Lower.params (r.params p) = r.params (Lower.params p) := by
  simp [Lower.params, params, Function.comp_def, lower_binder r keeps]

theorem isIfCall_expr (keeps : r.KeepsNames) (e : Expr) :
    Marker.isIfCall (r.expr e) = Marker.isIfCall e := by
  cases e with
  | call span callee args adjusted =>
    cases callee with
    | ident span name => simp [expr, Marker.isIfCall, keeps _]
    | _ => rfl
  | _ => rfl

mutual
theorem lower_expr (keeps : r.KeepsNames) : ∀ e : Expr,
    Lower.expr (r.expr e) = r.expr (Lower.expr e)
  | .constant .. | .string .. | .number .. | .wildcard .. => rfl
  | .ident span name => lower_name r keeps span name
  | .unary _ _ operand => by simp [expr, Lower.expr, lower_expr keeps operand]
  | .binary _ _ left right => by
      simp [expr, Lower.expr, lower_expr keeps left, lower_expr keeps right]
  | .index _ object key => by simp [expr, Lower.expr, lower_expr keeps object, lower_expr keeps key]
  | .table _ fs => by simp [expr, Lower.expr, lower_fields keeps fs]
  | .call _ callee args _ => by
      simp [expr, Lower.expr, lower_expr keeps callee, lower_exprs keeps args]
  | .methodCall _ receiver _ args _ => by
      simp [expr, Lower.expr, lower_expr keeps receiver, lower_exprs keeps args]
  | .function _ ps body => by
      simp [expr, Lower.expr, lower_params r keeps ps, lower_stmts keeps body]

theorem lower_exprs (keeps : r.KeepsNames) : ∀ es : List Expr,
    Lower.exprs (r.exprs es) = r.exprs (Lower.exprs es)
  | [] => rfl
  | e :: es => by simp [exprs, Lower.exprs, lower_expr keeps e, lower_exprs keeps es]

theorem lower_field (keeps : r.KeepsNames) : ∀ f : Field,
    Lower.field (r.field f) = r.field (Lower.field f)
  | .positional value => by simp [field, Lower.field, lower_expr keeps value]
  | .keyed key value => by simp [field, Lower.field, lower_expr keeps key, lower_expr keeps value]

theorem lower_fields (keeps : r.KeepsNames) : ∀ fs : List Field,
    Lower.fields (r.fields fs) = r.fields (Lower.fields fs)
  | [] => rfl
  | f :: fs => by simp [fields, Lower.fields, lower_field keeps f, lower_fields keeps fs]

theorem lower_step (keeps : r.KeepsNames) (span : Span) : ∀ step? : Option Expr,
    Lower.step (r.step span step?) = r.step span (Lower.step step?)
  | none => by simp only [step, Lower.step]; unfold absentStep; split <;> rfl
  | some e => by simp [step, Lower.step, lower_expr keeps e]

theorem lower_stmt (keeps : r.KeepsNames) : ∀ s : Stmt,
    Lower.stmt (r.stmt s) = r.stmt (Lower.stmt s)
  | .breakStmt _ | .continueStmt _ | .wildcard .. => rfl
  | .assign _ targets values => by
      simp [stmt, Lower.stmt, lower_exprs keeps targets, lower_exprs keeps values]
  | .localVars _ names values => by
      simp [stmt, Lower.stmt, lower_exprs keeps values, Function.comp_def, lower_binder r keeps]
  | .call _ call => by
      simp only [stmt, Lower.stmt, isIfCall_expr r keeps call, lower_expr keeps call]
      split <;> rfl
  | .doBlock _ body => by simp [stmt, Lower.stmt, lower_stmts keeps body]
  | .whileLoop _ condition body => by
      simp [stmt, Lower.stmt, lower_expr keeps condition, lower_stmts keeps body]
  | .repeatLoop _ body condition => by
      simp [stmt, Lower.stmt, lower_expr keeps condition, lower_stmts keeps body]
  | .localFunction _ name ps body => by
      simp only [stmt, Lower.stmt, keeps name, lower_params r keeps ps, lower_stmts keeps body]
      split <;> simp [stmt, keeps name]
  | .function _ target _ ps body => by
      simp [stmt, Lower.stmt, lower_expr keeps target, lower_params r keeps ps,
        lower_stmts keeps body]
  | .returnStmt _ values => by simp [stmt, Lower.stmt, lower_exprs keeps values]
  | .ifStmt _ condition thenBody elseBody => by
      simp [stmt, Lower.stmt, lower_expr keeps condition, lower_stmts keeps thenBody,
        lower_stmts keeps elseBody]
  | .numericFor span _ start limit step? body => by
      simp [stmt, Lower.stmt, lower_expr keeps start, lower_expr keeps limit,
        lower_step keeps span step?, lower_stmts keeps body]
  | .genericFor _ _ es body => by
      simp [stmt, Lower.stmt, lower_exprs keeps es, lower_stmts keeps body]

theorem lower_stmts (keeps : r.KeepsNames) : ∀ ss : List Stmt,
    Lower.stmts (r.stmts ss) = r.stmts (Lower.stmts ss)
  | [] => rfl
  | s :: ss => by simp [stmts, Lower.stmts, lower_stmt keeps s, lower_stmts keeps ss]
end

end Relabeling

end LuaSearch
