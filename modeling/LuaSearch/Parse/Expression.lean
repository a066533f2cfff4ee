import LuaSearch.Parse.Cursor
import LuaSearch.Parse.Operator
import LuaSearch.Text.Literal

/-!
Expressions in source. What nests is read through a level, which holds the readers for one level
further in; no reader here calls itself.
-/
namespace LuaSearch.Grammar

open Parse

/-- Readers for what nests. -/
structure Level where
  operators : Nat → Parse Expr
  block : Parse Block
  elseif : Parse Stmt

variable (inner : Level)

def expr : Parse Expr := inner.operators 0

def exprs : Parse (List Expr) := commaSeparated (expr inner)

def ident : Parse Token := expect .ident

def binder : Parse Binder := do
  let name ← ident
  return ⟨name.span, some name.text⟩

/-- A parameter name, or nothing for the dots that stand for further arguments and close the
    list. -/
def param : Parse (Option Binder × Bool) := do
  if ← eatSymbol .ellipsis then return (none, false)
  let name ← binder
  return (some name, ← eatSymbol .comma)

def params : Parse Params := do
  if ← isAt (.symbol .rparen) then return ⟨[], false⟩
  let given ← series param
  return ⟨given.filterMap id, given.contains none⟩

def functionBody : Parse (Params × Block) := do
  symbol .lparen
  let params ← params
  symbol .rparen
  let body ← inner.block
  keyword .end_
  return (params, body)

def field : Parse Field := do
  match ← peek with
  | .symbol .lbracket =>
      let _ ← advance
      let key ← expr inner
      symbol .rbracket
      symbol .eq
      return .keyed key (← expr inner)
  | .ident =>
      if (← peekSecond) = .symbol .eq then
        let name ← ident
        symbol .eq
        return .keyed (.string name.span name.text) (← expr inner)
      else return .positional (← expr inner)
  | _ => return .positional (← expr inner)

def fieldSeparator : Parse Bool := do
  if ← eatSymbol .comma then return true
  eatSymbol .semicolon

def tableFields : Parse (List Field) := do
  if ← isAt (.symbol .rbrace) then return []
  series do
    let one ← field inner
    if ← fieldSeparator then return (one, !(← isAt (.symbol .rbrace)))
    else return (one, false)

def table : Parse (List Field) := do
  symbol .lbrace
  let fields ← tableFields inner
  symbol .rbrace
  return fields

def args : Parse (List Expr) := do
  match ← peek with
  | .symbol .lparen =>
      let _ ← advance
      let given ← if ← isAt (.symbol .rparen) then pure [] else exprs inner
      symbol .rparen
      return given
  | .symbol .lbrace => return [← spanned do return (Expr.table · (← table inner))]
  | .string | .longString =>
      let token ← advance
      return [.string token.span token.stringValue]
  | other => fail (.unexpected .arguments other) (← currentSpan)

def primary : Parse Expr := do
  match ← peek with
  | .ident =>
      let name ← ident
      return .ident name.span name.text
  | .symbol .lparen =>
      let start ← currentSpan
      let _ ← advance
      let inside ← expr inner
      symbol .rparen
      return inside.parenthesized (← finish start)
  | .eof => fail (.unexpected .expression .eof) (← currentSpan)
  | _ => fail .invalidExpression (← currentSpan)

def suffix (start : Span) (object : Expr) : Parse (Option Expr) := do
  match ← peek with
  | .symbol .dot =>
      let _ ← advance
      let name ← ident
      return some (object.ofField name.span name.text)
  | .symbol .lbracket =>
      let _ ← advance
      let key ← expr inner
      symbol .rbracket
      return some (.index (← finish start) object key)
  | .symbol .colon =>
      let _ ← advance
      let method ← ident
      let given ← args inner
      return some (.methodCall (← finish start) object method.text given false)
  | .symbol .lparen | .symbol .lbrace | .string | .longString =>
      let given ← args inner
      return some (.call (← finish start) object given false)
  | _ => return none

def suffixed : Parse Expr := do
  let start ← currentSpan
  let object ← primary inner
  chain (suffix inner start) object

def constant (value : Constant) : Parse Expr :=
  spanned do
    let _ ← advance
    return (.constant · value)

def simple : Parse Expr := do
  match ← peek with
  | .number => spanned do
      let token ← advance
      return (.number · token.text)
  | .string | .longString => spanned do
      let token ← advance
      return (.string · token.stringValue)
  | .keyword .nil_ => constant .nil
  | .keyword .true_ => constant .true
  | .keyword .false_ => constant .false
  | .symbol .ellipsis => constant .vararg
  | .symbol .lbrace => spanned do return (Expr.table · (← table inner))
  | .keyword .function_ => spanned do
      let _ ← advance
      let (params, body) ← functionBody inner
      return (.function · params body)
  | _ => suffixed inner

def operand : Parse Expr := do
  match UnaryOp.ofKind? (← peek) with
  | some op =>
      let sign ← advance
      let value ← inner.operators UnaryOp.priority
      return .unary (sign.span.merge value.span) op value
  | none => simple inner

def operation (limit : Nat) (left : Expr) : Parse (Option Expr) := do
  match BinaryOp.ofKind? (← peek) with
  | some op =>
      if op.leftPriority ≤ limit then return none
      let _ ← advance
      let right ← inner.operators op.rightPriority
      return some (.ofBinary op left right)
  | none => return none

def operators (limit : Nat) : Parse Expr := do
  let first ← operand inner
  chain (operation inner limit) first

end LuaSearch.Grammar
