import LuaSearch.Syntax.Basic

/-!
How deep blocks nest. A block counts itself; bodies of statements, declared functions and
function literals count wherever they stand, operators and calls add nothing.
-/
namespace LuaSearch.Depth

mutual
def expr : Expr → Nat
  | .constant .. | .string .. | .number .. | .ident .. | .wildcard .. => 0
  | .unary _ _ operand => expr operand
  | .binary _ _ left right => max (expr left) (expr right)
  | .index _ object key => max (expr object) (expr key)
  | .table _ fs => fields fs
  | .call _ callee args _ => max (expr callee) (exprs args)
  | .methodCall _ receiver _ args _ => max (expr receiver) (exprs args)
  | .function _ _ body => stmts body + 1
termination_by structural e => e

def exprs : List Expr → Nat
  | [] => 0
  | e :: es => max (expr e) (exprs es)
termination_by structural es => es

def field : Field → Nat
  | .positional value => expr value
  | .keyed key value => max (expr key) (expr value)
termination_by structural f => f

def fields : List Field → Nat
  | [] => 0
  | f :: fs => max (field f) (fields fs)
termination_by structural fs => fs

def step : Option Expr → Nat
  | none => 0
  | some e => expr e
termination_by structural e => e

def stmt : Stmt → Nat
  | .breakStmt _ | .continueStmt _ | .wildcard .. => 0
  | .assign _ targets values => max (exprs targets) (exprs values)
  | .localVars _ _ values => exprs values
  | .call _ call => expr call
  | .doBlock _ body => stmts body + 1
  | .whileLoop _ condition body => max (expr condition) (stmts body + 1)
  | .repeatLoop _ body condition => max (expr condition) (stmts body + 1)
  | .localFunction _ _ _ body => stmts body + 1
  | .function _ target _ _ body => max (expr target) (stmts body + 1)
  | .returnStmt _ values => exprs values
  | .ifStmt _ condition thenBody elseBody =>
      max (expr condition) (max (stmts thenBody + 1) (stmts elseBody + 1))
  | .numericFor _ _ start limit step? body =>
      max (max (expr start) (max (expr limit) (step step?))) (stmts body + 1)
  | .genericFor _ _ es body => max (exprs es) (stmts body + 1)
termination_by structural s => s

def stmts : List Stmt → Nat
  | [] => 0
  | s :: ss => max (stmt s) (stmts ss)
termination_by structural ss => ss
end

end LuaSearch.Depth

namespace LuaSearch

/-- Blocks nested in the block, the block itself counted. -/
def Block.depth (b : Block) : Nat := Depth.stmts b + 1

end LuaSearch
