import LuaSearch.Match.Error
import LuaSearch.Syntax.Depth

/-!
Templates. A template is written as ordinary Lua in which reserved names mark the places that may
vary. Lowering replaces every marker by a wildcard and leaves all else, spans included, as it is:
marked expressions and declared names become wildcards of their kind; a local function with the
marker's name and a call statement of the `if` marker become statement wildcards as a whole.
-/
namespace LuaSearch

namespace Marker

def ident : String := "_IdentExpr_"
def string : String := "_StringExpr_"
def number : String := "_NumberExpr_"
def function : String := "_FunctionExpr_"
def localFunction : String := "_LocalFunctionStmt_"
def ifStmt : String := "_IfStmt_"

def all : List String := [ident, string, number, function, localFunction, ifStmt]

def wildcard? (name : String) : Option ExprWildcard :=
  if name = ident then some .ident
  else if name = string then some .string
  else if name = number then some .number
  else if name = function then some .function
  else none

/-- A plain call of the `if` marker, whatever its arguments. -/
def isIfCall : Expr → Bool
  | .call _ (.ident _ name) _ _ => name = ifStmt
  | _ => false

end Marker

namespace Lower

def name (span : Span) (name : String) : Expr :=
  match Marker.wildcard? name with
  | some wanted => .wildcard span wanted
  | none => .ident span name

def binder (b : Binder) : Binder :=
  if b.name? = some Marker.ident then { b with name? := none } else b

def params (p : Params) : Params := { p with names := p.names.map binder }

mutual
def expr : Expr → Expr
  | .constant span value => .constant span value
  | .string span value => .string span value
  | .number span text => .number span text
  | .ident span text => name span text
  | .unary span op operand => .unary span op (expr operand)
  | .binary span op left right => .binary span op (expr left) (expr right)
  | .index span object key => .index span (expr object) (expr key)
  | .table span fs => .table span (fields fs)
  | .call span callee args adjusted => .call span (expr callee) (exprs args) adjusted
  | .methodCall span receiver method args adjusted =>
      .methodCall span (expr receiver) method (exprs args) adjusted
  | .function span ps body => .function span (params ps) (stmts body)
  | .wildcard span wanted => .wildcard span wanted
termination_by structural e => e

def exprs : List Expr → List Expr
  | [] => []
  | e :: es => expr e :: exprs es
termination_by structural es => es

def field : Field → Field
  | .positional value => .positional (expr value)
  | .keyed key value => .keyed (expr key) (expr value)
termination_by structural f => f

def fields : List Field → List Field
  | [] => []
  | f :: fs => field f :: fields fs
termination_by structural fs => fs

def step : Option Expr → Option Expr
  | none => none
  | some e => some (expr e)
termination_by structural e => e

def stmt : Stmt → Stmt
  | .assign span targets values => .assign span (exprs targets) (exprs values)
  | .localVars span names values => .localVars span (names.map binder) (exprs values)
  | .call span call =>
      if Marker.isIfCall call then .wildcard span .ifStmt else .call span (expr call)
  | .doBlock span body => .doBlock span (stmts body)
  | .whileLoop span condition body => .whileLoop span (expr condition) (stmts body)
  | .repeatLoop span body condition => .repeatLoop span (stmts body) (expr condition)
  | .localFunction span name ps body =>
      if name = Marker.localFunction then .wildcard span .localFunction
      else .localFunction span name (params ps) (stmts body)
  | .function span target method? ps body =>
      .function span (expr target) method? (params ps) (stmts body)
  | .returnStmt span values => .returnStmt span (exprs values)
  | .ifStmt span condition thenBody elseBody =>
      .ifStmt span (expr condition) (stmts thenBody) (stmts elseBody)
  | .breakStmt span => .breakStmt span
  | .continueStmt span => .continueStmt span
  | .numericFor span var start limit step? body =>
      .numericFor span var (expr start) (expr limit) (step step?) (stmts body)
  | .genericFor span names es body => .genericFor span names (exprs es) (stmts body)
  | .wildcard span wanted => .wildcard span wanted
termination_by structural s => s

def stmts : List Stmt → List Stmt
  | [] => []
  | s :: ss => stmt s :: stmts ss
termination_by structural ss => ss
end

theorem stmts_eq_map (ss : List Stmt) : stmts ss = ss.map stmt := by
  induction ss with
  | nil => rfl
  | cons s ss ih => simp [stmts, ih]

end Lower

structure Template where
  stmts : List Stmt
  nonempty : stmts ≠ []

namespace Template

def ofChunk : Block → Except MatchError Template
  | [] => .error .emptyTemplate
  | s :: ss => .ok ⟨Lower.stmt s :: Lower.stmts ss, by simp⟩

def length (t : Template) : Nat := t.stmts.length

def depth (t : Template) : Nat := Block.depth t.stmts

end Template

end LuaSearch
