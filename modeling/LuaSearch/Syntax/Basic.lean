import LuaSearch.Span

/-!
Lua syntax trees. Every node carries the span of the source that it was read from. Wildcards and
wildcard binders stand only in templates; trees read from source have none.

A call in parentheses is marked as adjusted: it gives exactly one value. The name of a field or
method access is kept as a string key. An `elseif` is an `if` alone in the else branch.
-/
namespace LuaSearch

inductive UnaryOp where
  | neg | not | len | bitNot
  deriving DecidableEq, Repr

inductive ArithOp where
  | add | sub | mul | div | floorDiv | mod | pow | bitAnd | bitOr | bitXor | shl | shr
  deriving DecidableEq, Repr

inductive RelOp where
  | eq | ne | lt | le | gt | ge
  deriving DecidableEq, Repr

inductive LogicOp where
  | and | or
  deriving DecidableEq, Repr

inductive BinaryOp where
  | arith (op : ArithOp)
  | rel (op : RelOp)
  | logic (op : LogicOp)
  | concat
  deriving DecidableEq, Repr

inductive Constant where
  | nil | false | true | vararg
  deriving DecidableEq, Repr

inductive ExprWildcard where
  | ident | string | number | function
  deriving DecidableEq, Repr

inductive StmtWildcard where
  | localFunction | ifStmt
  deriving DecidableEq, Repr

/-- A declared name: a local variable or a parameter. Without a name it is a wildcard. -/
structure Binder where
  span : Span
  name? : Option String
  deriving DecidableEq, Repr

structure Params where
  names : List Binder
  hasVarargs : Bool
  deriving DecidableEq, Repr

mutual
inductive Expr where
  | constant (span : Span) (value : Constant)
  | string (span : Span) (value : String)
  | number (span : Span) (text : String)
  | ident (span : Span) (name : String)
  | unary (span : Span) (op : UnaryOp) (operand : Expr)
  | binary (span : Span) (op : BinaryOp) (left right : Expr)
  | index (span : Span) (object key : Expr)
  | table (span : Span) (fields : List Field)
  | call (span : Span) (callee : Expr) (args : List Expr) (adjusted : Bool)
  | methodCall (span : Span) (receiver : Expr) (method : String) (args : List Expr)
      (adjusted : Bool)
  | function (span : Span) (params : Params) (body : List Stmt)
  | wildcard (span : Span) (wanted : ExprWildcard)

inductive Field where
  | positional (value : Expr)
  | keyed (key value : Expr)

inductive Stmt where
  | assign (span : Span) (targets values : List Expr)
  | localVars (span : Span) (names : List Binder) (values : List Expr)
  | call (span : Span) (call : Expr)
  | doBlock (span : Span) (body : List Stmt)
  | whileLoop (span : Span) (condition : Expr) (body : List Stmt)
  | repeatLoop (span : Span) (body : List Stmt) (condition : Expr)
  | localFunction (span : Span) (name : String) (params : Params) (body : List Stmt)
  | function (span : Span) (target : Expr) (method? : Option String) (params : Params)
      (body : List Stmt)
  | returnStmt (span : Span) (values : List Expr)
  | ifStmt (span : Span) (condition : Expr) (thenBody elseBody : List Stmt)
  | breakStmt (span : Span)
  | continueStmt (span : Span)
  | numericFor (span : Span) (var : String) (start limit : Expr) (step? : Option Expr)
      (body : List Stmt)
  | genericFor (span : Span) (names : List String) (exprs : List Expr) (body : List Stmt)
  | wildcard (span : Span) (wanted : StmtWildcard)
end

instance : Inhabited Expr := ⟨.constant default .nil⟩

instance : Inhabited Stmt := ⟨.breakStmt default⟩

abbrev Block := List Stmt

def BinaryOp.kindName : BinaryOp → String
  | .arith _ => "arithmetic"
  | .rel _ => "relational"
  | .logic _ => "logical"
  | .concat => "concat"

def Constant.kindName : Constant → String
  | .nil => "nil"
  | .false => "false"
  | .true => "true"
  | .vararg => "vararg"

namespace Expr

def span : Expr → Span
  | constant s .. | string s .. | number s .. | ident s .. | unary s .. | binary s ..
  | index s .. | table s .. | call s .. | methodCall s .. | function s .. | wildcard s .. => s

def kindName : Expr → String
  | constant _ value => value.kindName
  | string .. => "string"
  | number .. => "number"
  | ident .. => "identifier"
  | unary .. => "unary"
  | binary _ op _ _ => op.kindName
  | index .. => "index"
  | table .. => "table"
  | call .. | methodCall .. => "call"
  | function .. => "function"
  | wildcard .. => "capture"

def isCall : Expr → Bool
  | call .. | methodCall .. => true
  | _ => false

def isAssignable : Expr → Bool
  | ident .. | index .. => true
  | _ => false

def parenthesized (outer : Span) : Expr → Expr
  | constant _ value => constant outer value
  | string _ value => string outer value
  | number _ text => number outer text
  | ident _ name => ident outer name
  | unary _ op operand => unary outer op operand
  | binary _ op left right => binary outer op left right
  | index _ object key => index outer object key
  | table _ fields => table outer fields
  | call _ callee args _ => call outer callee args true
  | methodCall _ receiver method args _ => methodCall outer receiver method args true
  | function _ params body => function outer params body
  | wildcard _ wanted => wildcard outer wanted

def ofBinary (op : BinaryOp) (left right : Expr) : Expr :=
  binary (left.span.merge right.span) op left right

def ofField (object : Expr) (nameSpan : Span) (name : String) : Expr :=
  index (object.span.merge nameSpan) object (string nameSpan name)

end Expr

namespace Stmt

def span : Stmt → Span
  | assign s .. | localVars s .. | call s .. | doBlock s .. | whileLoop s .. | repeatLoop s ..
  | localFunction s .. | function s .. | returnStmt s .. | ifStmt s .. | breakStmt s
  | continueStmt s | numericFor s .. | genericFor s .. | wildcard s .. => s

def kindName : Stmt → String
  | assign .. => "assignment"
  | localVars .. => "local"
  | call .. => "call"
  | doBlock .. => "do"
  | whileLoop .. => "while"
  | repeatLoop .. => "repeat"
  | localFunction .. => "local function"
  | function .. => "function"
  | returnStmt .. => "return"
  | ifStmt .. => "if"
  | breakStmt .. => "break"
  | continueStmt .. => "continue"
  | numericFor .. => "numeric for"
  | genericFor .. => "generic for"
  | wildcard .. => "capture"

/-- The blocks directly inside the statement. The body of a declared function is not one. -/
def bodies : Stmt → List Block
  | doBlock _ body | whileLoop _ _ body | repeatLoop _ body _ | numericFor _ _ _ _ _ body
  | genericFor _ _ _ body => [body]
  | ifStmt _ _ thenBody elseBody => [thenBody, elseBody]
  | _ => []

end Stmt

end LuaSearch
