import LuaSearch.Syntax.Json

/-!
A flat view of a tree: one row for each node, parents before children, with the depth of the
node. The children of a statement are its expressions in the order of evaluation, then the
statements of its bodies; those of a function are its parameters, then its body.
-/
namespace LuaSearch.Outline

inductive Role where
  | stmt | binder | call | expr
  deriving DecidableEq, Repr

def Role.label : Role → String
  | .stmt => "stmt"
  | .binder => "binder"
  | .call => "call"
  | .expr => "expr"

structure Row where
  depth : Nat
  role : Role
  kindName : String
  span : Span
  detail : Json

def Row.toJson (row : Row) : Json :=
  .array [.number row.depth, .string row.role.label, .string row.kindName,
    .number row.span.start, .number row.span.stop, row.detail]

def ofBinder (depth : Nat) (b : Binder) : Row :=
  ⟨depth, .binder, "binder", b.span, (b.name?.map .string).getD .null⟩

def ofBinders (depth : Nat) (names : List Binder) : List Row := names.map (ofBinder depth)

def exprDetail : Expr → Json
  | .string _ value => .string value
  | .number _ text => .string text
  | .ident _ name => .string name
  | .unary _ op _ => .string op.label
  | .binary _ (.arith op) _ _ => .string op.label
  | .binary _ (.rel op) _ _ => .string op.label
  | .binary _ (.logic op) _ _ => .string op.label
  | .call _ _ _ adjusted => .bool adjusted
  | .methodCall _ _ _ _ adjusted => .bool adjusted
  | .function _ params _ => .bool params.hasVarargs
  | .wildcard _ wanted => .string wanted.label
  | _ => .null

def exprRow (depth : Nat) (e : Expr) : Row :=
  ⟨depth, if e.isCall then .call else .expr, e.kindName, e.span, exprDetail e⟩

def stmtRow (depth : Nat) (s : Stmt) : Row :=
  ⟨depth, .stmt, s.kindName, s.span, .array (s.bodies.map fun body => .number body.length)⟩

mutual
def ofExpr : Expr → Nat → List Row
  | e@(.constant ..), depth | e@(.string ..), depth | e@(.number ..), depth
  | e@(.ident ..), depth | e@(.wildcard ..), depth => [exprRow depth e]
  | e@(.unary _ _ operand), depth => exprRow depth e :: ofExpr operand (depth + 1)
  | e@(.binary _ _ left right), depth =>
      exprRow depth e :: (ofExpr left (depth + 1) ++ ofExpr right (depth + 1))
  | e@(.index _ object key), depth =>
      exprRow depth e :: (ofExpr object (depth + 1) ++ ofExpr key (depth + 1))
  | e@(.table _ fields), depth => exprRow depth e :: ofFields fields (depth + 1)
  | e@(.call _ callee args _), depth =>
      exprRow depth e :: (ofExpr callee (depth + 1) ++ ofExprs args (depth + 1))
  | e@(.methodCall _ receiver _ args _), depth =>
      exprRow depth e :: (ofExpr receiver (depth + 1) ++ ofExprs args (depth + 1))
  | e@(.function _ params body), depth =>
      exprRow depth e :: (ofBinders (depth + 1) params.names ++ ofStmts body (depth + 1))
termination_by structural e => e

def ofExprs : List Expr → Nat → List Row
  | [], _ => []
  | e :: es, depth => ofExpr e depth ++ ofExprs es depth
termination_by structural es => es

def ofField : Field → Nat → List Row
  | .positional value, depth => ofExpr value depth
  | .keyed key value, depth => ofExpr key depth ++ ofExpr value depth
termination_by structural f => f

def ofFields : List Field → Nat → List Row
  | [], _ => []
  | f :: fs, depth => ofField f depth ++ ofFields fs depth
termination_by structural fs => fs

def ofStep : Option Expr → Nat → List Row
  | none, _ => []
  | some e, depth => ofExpr e depth
termination_by structural e => e

def ofStmt : Stmt → Nat → List Row
  | s@(.breakStmt _), depth | s@(.continueStmt _), depth | s@(.wildcard ..), depth =>
      [stmtRow depth s]
  | s@(.assign _ targets values), depth =>
      stmtRow depth s :: (ofExprs targets (depth + 1) ++ ofExprs values (depth + 1))
  | s@(.localVars _ names values), depth =>
      stmtRow depth s :: (ofBinders (depth + 1) names ++ ofExprs values (depth + 1))
  | s@(.call _ call), depth => stmtRow depth s :: ofExpr call (depth + 1)
  | s@(.doBlock _ body), depth => stmtRow depth s :: ofStmts body (depth + 1)
  | s@(.whileLoop _ condition body), depth =>
      stmtRow depth s :: (ofExpr condition (depth + 1) ++ ofStmts body (depth + 1))
  | s@(.repeatLoop _ body condition), depth =>
      stmtRow depth s :: (ofExpr condition (depth + 1) ++ ofStmts body (depth + 1))
  | s@(.localFunction _ _ params body), depth =>
      stmtRow depth s :: (ofBinders (depth + 1) params.names ++ ofStmts body (depth + 1))
  | s@(.function _ target _ params body), depth =>
      stmtRow depth s :: (ofExpr target (depth + 1) ++ ofBinders (depth + 1) params.names ++
        ofStmts body (depth + 1))
  | s@(.returnStmt _ values), depth => stmtRow depth s :: ofExprs values (depth + 1)
  | s@(.ifStmt _ condition thenBody elseBody), depth =>
      stmtRow depth s :: (ofExpr condition (depth + 1) ++ ofStmts thenBody (depth + 1) ++
        ofStmts elseBody (depth + 1))
  | s@(.numericFor _ _ start limit step? body), depth =>
      stmtRow depth s :: (ofExpr start (depth + 1) ++ ofExpr limit (depth + 1) ++
        ofStep step? (depth + 1) ++ ofStmts body (depth + 1))
  | s@(.genericFor _ _ exprs body), depth =>
      stmtRow depth s :: (ofExprs exprs (depth + 1) ++ ofStmts body (depth + 1))
termination_by structural s => s

def ofStmts : List Stmt → Nat → List Row
  | [], _ => []
  | s :: ss, depth => ofStmt s depth ++ ofStmts ss depth
termination_by structural ss => ss
end

end LuaSearch.Outline

namespace LuaSearch

def Block.outline (b : Block) : List Outline.Row := Outline.ofStmts b 0

end LuaSearch
