import LuaSearch.Json
import LuaSearch.Syntax.Basic

/-!
Syntax trees as JSON. A node is an object of its kind and its span. A kind without parts is a
string, any other an object with one member, named for the kind. Reading takes an absent or null
step, method or key for none.
-/
namespace LuaSearch

def UnaryOp.all : List UnaryOp := [.neg, .not, .len, .bitNot]

def UnaryOp.label : UnaryOp → String
  | .neg => "Neg" | .not => "Not" | .len => "Len" | .bitNot => "BitNot"

def ArithOp.all : List ArithOp :=
  [.add, .sub, .mul, .div, .floorDiv, .mod, .pow, .bitAnd, .bitOr, .bitXor, .shl, .shr]

def ArithOp.label : ArithOp → String
  | .add => "Add" | .sub => "Sub" | .mul => "Mul" | .div => "Div" | .floorDiv => "FloorDiv"
  | .mod => "Mod" | .pow => "Pow" | .bitAnd => "BitAnd" | .bitOr => "BitOr"
  | .bitXor => "BitXor" | .shl => "Shl" | .shr => "Shr"

def RelOp.all : List RelOp := [.eq, .ne, .lt, .le, .gt, .ge]

def RelOp.label : RelOp → String
  | .eq => "Eq" | .ne => "Ne" | .lt => "Lt" | .le => "Le" | .gt => "Gt" | .ge => "Ge"

def LogicOp.all : List LogicOp := [.and, .or]

def LogicOp.label : LogicOp → String
  | .and => "And" | .or => "Or"

def Constant.all : List Constant := [.nil, .false, .true, .vararg]

def Constant.label : Constant → String
  | .nil => "Nil" | .false => "False" | .true => "True" | .vararg => "Vararg"

def ExprWildcard.all : List ExprWildcard := [.ident, .string, .number, .function]

def ExprWildcard.label : ExprWildcard → String
  | .ident => "Ident" | .string => "String" | .number => "Number" | .function => "Function"

def StmtWildcard.all : List StmtWildcard := [.localFunction, .ifStmt]

def StmtWildcard.label : StmtWildcard → String
  | .localFunction => "LocalFunction" | .ifStmt => "If"

def ofLabel? {α : Type} (all : List α) (label : α → String) (value : Json) : Option α := do
  let name ← value.string?
  all.find? (label · = name)

def Span.toJson (s : Span) : Json :=
  .object [("start", .number s.start), ("end", .number s.stop)]

namespace Encode

def tagged (tag : String) (content : Json) : Json := .object [(tag, content)]

def node (span : Span) (kind : Json) : Json := .object [("kind", kind), ("span", span.toJson)]

def strings (names : List String) : Json := .array (names.map .string)

def binder (b : Binder) : Json :=
  node b.span <|
    match b.name? with
    | some name => tagged "Name" (.string name)
    | none => .string "Capture"

def binders (names : List Binder) : Json := .array (names.map binder)

def params (given : Params) : Json :=
  .object [("names", binders given.names), ("has_varargs", .bool given.hasVarargs)]

def function (given : Params) (body : Json) : Json :=
  .object [("params", params given), ("body", body)]

def binary (op : BinaryOp) (left right : Json) : Json :=
  match op with
  | .arith op => tagged "Arithmetic" (operation op.label)
  | .rel op => tagged "Relational" (operation op.label)
  | .logic op => tagged "Logical" (operation op.label)
  | .concat => tagged "Concat" (.object [("left", left), ("right", right)])
where
  operation (label : String) : Json :=
    .object [("op", .string label), ("left", left), ("right", right)]

def call (target args : Json) (adjusted : Bool) : Json :=
  tagged "Call" (.object [("target", target), ("args", args), ("adjust_ret", .bool adjusted)])

mutual
@[simp] def expr : Expr → Json
  | .constant span value => node span (.string value.label)
  | .string span value => node span (tagged "String" (.string value))
  | .number span text => node span (tagged "Number" (.string text))
  | .ident span name => node span (tagged "Ident" (.string name))
  | .unary span op operand =>
      node span (tagged "Unary" (.object [("op", .string op.label), ("operand", expr operand)]))
  | .binary span op left right => node span (binary op (expr left) (expr right))
  | .index span object key =>
      node span (tagged "Index" (.object [("object", expr object), ("key", expr key)]))
  | .table span fields => node span (tagged "Table" (.array (fieldItems fields)))
  | .call span callee args adjusted =>
      node span (call (tagged "Function" (expr callee)) (.array (exprItems args)) adjusted)
  | .methodCall span receiver method args adjusted =>
      node span (call
        (tagged "Method" (.object [("receiver", expr receiver), ("method", .string method)]))
        (.array (exprItems args)) adjusted)
  | .function span params body =>
      node span (tagged "Function" (function params (.array (stmtItems body))))
  | .wildcard span wanted => node span (tagged "Capture" (.string wanted.label))
termination_by structural e => e

@[simp] def exprItems : List Expr → List Json
  | [] => []
  | e :: es => expr e :: exprItems es
termination_by structural es => es

@[simp] def field : Field → Json
  | .positional value => .object [("key", .null), ("value", expr value)]
  | .keyed key value => .object [("key", expr key), ("value", expr value)]
termination_by structural f => f

@[simp] def fieldItems : List Field → List Json
  | [] => []
  | f :: fs => field f :: fieldItems fs
termination_by structural fs => fs

@[simp] def step : Option Expr → Json
  | none => .null
  | some e => expr e
termination_by structural e => e

@[simp] def stmt : Stmt → Json
  | .assign span targets values =>
      node span (tagged "Assign" (.object [("targets", .array (exprItems targets)),
        ("values", .array (exprItems values))]))
  | .localVars span names values =>
      node span (tagged "Local" (.object [("names", binders names),
        ("values", .array (exprItems values))]))
  | .call span call => node span (tagged "Call" (expr call))
  | .doBlock span body => node span (tagged "Do" (.array (stmtItems body)))
  | .whileLoop span condition body =>
      node span (tagged "While" (.object [("condition", expr condition),
        ("body", .array (stmtItems body))]))
  | .repeatLoop span body condition =>
      node span (tagged "Repeat" (.object [("body", .array (stmtItems body)),
        ("condition", expr condition)]))
  | .localFunction span name params body =>
      node span (tagged "LocalFunction" (.object [("name", .string name),
        ("func", function params (.array (stmtItems body)))]))
  | .function span target method? params body =>
      node span (tagged "Function" (.object [("target", expr target),
        ("method", (method?.map .string).getD .null),
        ("func", function params (.array (stmtItems body)))]))
  | .returnStmt span values => node span (tagged "Return" (.array (exprItems values)))
  | .ifStmt span condition thenBody elseBody =>
      node span (tagged "If" (.object [("condition", expr condition),
        ("then_body", .array (stmtItems thenBody)), ("else_body", .array (stmtItems elseBody))]))
  | .breakStmt span => node span (.string "Break")
  | .continueStmt span => node span (.string "Continue")
  | .numericFor span var start limit step? body =>
      node span (tagged "NumericFor" (.object [("var", .string var), ("start", expr start),
        ("limit", expr limit), ("step", step step?), ("body", .array (stmtItems body))]))
  | .genericFor span names exprs body =>
      node span (tagged "GenericFor" (.object [("names", strings names),
        ("exprs", .array (exprItems exprs)), ("body", .array (stmtItems body))]))
  | .wildcard span wanted => node span (tagged "Capture" (.string wanted.label))
termination_by structural s => s

@[simp] def stmtItems : List Stmt → List Json
  | [] => []
  | s :: ss => stmt s :: stmtItems ss
termination_by structural ss => ss
end

end Encode

def Expr.toJson (e : Expr) : Json := Encode.expr e

def Stmt.toJson (s : Stmt) : Json := Encode.stmt s

def Block.toJson (b : Block) : Json := .array (Encode.stmtItems b)

def Span.ofJson? (value : Json) : Option Span := do
  let start ← (← value.member? "start").number?
  let stop ← (← value.member? "end").number?
  return ⟨start, stop⟩

namespace Decode

def strings? (value : Json) : Option (List String) := do (← value.array?).mapM Json.string?

def binder? (value : Json) : Option Binder := do
  let span ← Span.ofJson? (← value.member? "span")
  match ← value.member? "kind" with
  | .string "Capture" => return ⟨span, none⟩
  | .object [("Name", .string name)] => return ⟨span, some name⟩
  | _ => none

def binders? (value : Json) : Option (List Binder) := do (← value.array?).mapM binder?

def params? (value : Json) : Option Params := do
  let names ← binders? (← value.member? "names")
  let hasVarargs ← (← value.member? "has_varargs").bool?
  return ⟨names, hasVarargs⟩

/-- An absent or null member is none; any other must be readable. -/
def optional? {α : Type} (read : Json → Option α) (value : Json) (name : String) :
    Option (Option α) :=
  match value.present? name with
  | none => some none
  | some found => (read found).map some

mutual
/-- Reads an expression whose JSON nests no deeper than the fuel. -/
def expr? : Nat → Json → Option Expr
  | 0, _ => none
  | fuel + 1, value => do
      let span ← Span.ofJson? (← value.member? "span")
      let part (content : Json) (name : String) : Option Expr := do
        expr? fuel (← content.member? name)
      let binary (op : BinaryOp) (content : Json) : Option Expr := do
        return .binary span op (← part content "left") (← part content "right")
      match ← value.member? "kind" with
      | .string name => return .constant span (← ofLabel? Constant.all Constant.label (.string name))
      | .object [("String", content)] => return .string span (← content.string?)
      | .object [("Number", content)] => return .number span (← content.string?)
      | .object [("Ident", content)] => return .ident span (← content.string?)
      | .object [("Unary", content)] =>
          let op ← ofLabel? UnaryOp.all UnaryOp.label (← content.member? "op")
          return .unary span op (← part content "operand")
      | .object [("Arithmetic", content)] =>
          binary (.arith (← ofLabel? ArithOp.all ArithOp.label (← content.member? "op"))) content
      | .object [("Relational", content)] =>
          binary (.rel (← ofLabel? RelOp.all RelOp.label (← content.member? "op"))) content
      | .object [("Logical", content)] =>
          binary (.logic (← ofLabel? LogicOp.all LogicOp.label (← content.member? "op"))) content
      | .object [("Concat", content)] => binary .concat content
      | .object [("Index", content)] =>
          return .index span (← part content "object") (← part content "key")
      | .object [("Table", content)] =>
          return .table span (← (← content.array?).mapM fun item => field? fuel item)
      | .object [("Call", content)] =>
          let given ← (← (← content.member? "args").array?).mapM fun item => expr? fuel item
          let adjusted ← (← content.member? "adjust_ret").bool?
          match ← content.member? "target" with
          | .object [("Function", callee)] =>
              return .call span (← expr? fuel callee) given adjusted
          | .object [("Method", method)] =>
              let name ← (← method.member? "method").string?
              return .methodCall span (← part method "receiver") name given adjusted
          | _ => none
      | .object [("Function", content)] =>
          let params ← params? (← content.member? "params")
          let body ← (← (← content.member? "body").array?).mapM fun item => stmt? fuel item
          return .function span params body
      | .object [("Capture", content)] =>
          return .wildcard span (← ofLabel? ExprWildcard.all ExprWildcard.label content)
      | _ => none
termination_by structural fuel => fuel

def field? : Nat → Json → Option Field
  | 0, _ => none
  | fuel + 1, value => do
      let content ← expr? fuel (← value.member? "value")
      match ← optional? (fun key => expr? fuel key) value "key" with
      | none => return .positional content
      | some key => return .keyed key content
termination_by structural fuel => fuel

def stmt? : Nat → Json → Option Stmt
  | 0, _ => none
  | fuel + 1, value => do
      let span ← Span.ofJson? (← value.member? "span")
      let part (content : Json) (name : String) : Option Expr := do
        expr? fuel (← content.member? name)
      let parts (value : Json) : Option (List Expr) := do
        (← value.array?).mapM fun item => expr? fuel item
      let block (value : Json) : Option Block := do
        (← value.array?).mapM fun item => stmt? fuel item
      let body (content : Json) (name : String) : Option Block := do
        block (← content.member? name)
      let function (content : Json) : Option (Params × Block) := do
        let func ← content.member? "func"
        return (← params? (← func.member? "params"), ← body func "body")
      match ← value.member? "kind" with
      | .string "Break" => return .breakStmt span
      | .string "Continue" => return .continueStmt span
      | .object [("Assign", content)] =>
          return .assign span (← parts (← content.member? "targets"))
            (← parts (← content.member? "values"))
      | .object [("Local", content)] =>
          return .localVars span (← binders? (← content.member? "names"))
            (← parts (← content.member? "values"))
      | .object [("Call", content)] => return .call span (← expr? fuel content)
      | .object [("Do", content)] => return .doBlock span (← block content)
      | .object [("While", content)] =>
          return .whileLoop span (← part content "condition") (← body content "body")
      | .object [("Repeat", content)] =>
          return .repeatLoop span (← body content "body") (← part content "condition")
      | .object [("LocalFunction", content)] =>
          let (params, body) ← function content
          return .localFunction span (← (← content.member? "name").string?) params body
      | .object [("Function", content)] =>
          let (params, body) ← function content
          return .function span (← part content "target")
            (← optional? Json.string? content "method") params body
      | .object [("Return", content)] => return .returnStmt span (← parts content)
      | .object [("If", content)] =>
          return .ifStmt span (← part content "condition") (← body content "then_body")
            (← body content "else_body")
      | .object [("NumericFor", content)] =>
          return .numericFor span (← (← content.member? "var").string?) (← part content "start")
            (← part content "limit") (← optional? (fun step => expr? fuel step) content "step")
            (← body content "body")
      | .object [("GenericFor", content)] =>
          return .genericFor span (← strings? (← content.member? "names"))
            (← parts (← content.member? "exprs")) (← body content "body")
      | .object [("Capture", content)] =>
          return .wildcard span (← ofLabel? StmtWildcard.all StmtWildcard.label content)
      | _ => none
termination_by structural fuel => fuel
end

end Decode

def Expr.ofJson? (value : Json) : Option Expr := Decode.expr? value.depth value

def Stmt.ofJson? (value : Json) : Option Stmt := Decode.stmt? value.depth value

def Block.ofJson? (value : Json) : Option Block := do (← value.array?).mapM Stmt.ofJson?

end LuaSearch
