import LuaSearch.Parse.Expression

/-!
Statements and blocks in source.
-/
namespace LuaSearch.Grammar

open Parse

variable (inner : Level)

def ending (word : Keyword) : Parse Block := do
  let body ← inner.block
  keyword word
  return body

def doBlock : Parse (Span → Stmt) := do
  keyword .do_
  let body ← ending inner .end_
  return (.doBlock · body)

def whileLoop : Parse (Span → Stmt) := do
  keyword .while_
  let condition ← expr inner
  keyword .do_
  let body ← ending inner .end_
  return (.whileLoop · condition body)

def repeatLoop : Parse (Span → Stmt) := do
  keyword .repeat_
  let body ← ending inner .until_
  let condition ← expr inner
  return (.repeatLoop · body condition)

def elseBody : Parse Block := do
  match ← peek with
  | .keyword .elseif_ => return [← inner.elseif]
  | .keyword .else_ =>
      let _ ← advance
      ending inner .end_
  | _ =>
      keyword .end_
      return []

def conditional : Parse (Span → Stmt) := do
  let _ ← advance
  let condition ← expr inner
  keyword .then_
  let thenBody ← inner.block
  let elseBody ← elseBody inner
  return (.ifStmt · condition thenBody elseBody)

def numericFor (var : String) : Parse (Span → Stmt) := do
  let start ← expr inner
  symbol .comma
  let limit ← expr inner
  let step? ← if ← eatSymbol .comma then some <$> expr inner else pure none
  keyword .do_
  let body ← ending inner .end_
  return (.numericFor · var start limit step? body)

def genericFor (first : String) : Parse (Span → Stmt) := do
  let more ← if ← eatSymbol .comma then commaSeparated ident else pure []
  keyword .in_
  let values ← exprs inner
  keyword .do_
  let body ← ending inner .end_
  return (.genericFor · (first :: more.map Token.text) values body)

def forLoop : Parse (Span → Stmt) := do
  keyword .for_
  let first ← ident
  if ← eatSymbol .eq then numericFor inner first.text else genericFor inner first.text

def functionPath : Parse Expr := do
  let name ← ident
  chain (fun path => do
    if ← eatSymbol .dot then
      let field ← ident
      return some (path.ofField field.span field.text)
    else return none) (.ident name.span name.text)

def function : Parse (Span → Stmt) := do
  keyword .function_
  let target ← functionPath
  if ← eatSymbol .colon then
    let method ← ident
    let (params, body) ← functionBody inner
    let names := ⟨method.span, some "self"⟩ :: params.names
    return (.function · target (some method.text) ⟨names, params.hasVarargs⟩ body)
  else
    let (params, body) ← functionBody inner
    return (.function · target none params body)

def localFunction : Parse (Span → Stmt) := do
  keyword .local_
  keyword .function_
  let name ← ident
  let (params, body) ← functionBody inner
  return (.localFunction · name.text params body)

def localVars : Parse (Span → Stmt) := do
  keyword .local_
  let names ← commaSeparated binder
  let values ← if ← eatSymbol .eq then exprs inner else pure []
  return (.localVars · names values)

def returnStmt : Parse Stmt :=
  spanned do
    keyword .return_
    let bare := (← peek).endsBlock || (← isAt (.symbol .semicolon))
    let values ← if bare then pure [] else exprs inner
    return (.returnStmt · values)

def checkAssignable (target : Expr) : Parse Unit :=
  if target.isAssignable then pure () else fail .invalidTarget target.span

/-- `target op= value` assigns the operator applied to both. -/
def compound (op : BinaryOp) (target : Expr) : Parse (Span → Stmt) := do
  let _ ← advance
  checkAssignable target
  let value ← expr inner
  return (.assign · [target] [.ofBinary op target value])

def assignment (first : Expr) : Parse (Span → Stmt) := do
  let more ← if ← eatSymbol .comma then commaSeparated (suffixed inner) else pure []
  let targets := first :: more
  targets.forM checkAssignable
  symbol .eq
  let values ← exprs inner
  return (.assign · targets values)

def exprStmt : Parse (Span → Stmt) := do
  let first ← suffixed inner
  let next ← peek
  match BinaryOp.ofCompound? next with
  | some op => compound inner op first
  | none =>
      if next = .symbol .eq ∨ next = .symbol .comma then assignment inner first
      else if first.isCall then return (.call · first)
      else fail .invalidStatement first.span

def statement : Parse Stmt :=
  spanned do
    match ← peek with
    | .keyword .do_ => doBlock inner
    | .keyword .while_ => whileLoop inner
    | .keyword .repeat_ => repeatLoop inner
    | .keyword .if_ => conditional inner
    | .keyword .for_ => forLoop inner
    | .keyword .function_ => function inner
    | .keyword .local_ =>
        if (← peekSecond) = .keyword .function_ then localFunction inner else localVars inner
    | .keyword .break_ =>
        let _ ← advance
        return .breakStmt
    | .keyword .continue_ =>
        let _ ← advance
        return .continueStmt
    | _ => exprStmt inner

def semicolons : Parse Unit :=
  iterate (fun _ => do
    if ← eatSymbol .semicolon then return .again () else return .done ()) ()

/-- The next statement of a block, if the block goes on with one that is not its last. -/
def nextStatement : Parse (Option Stmt) := do
  semicolons
  let next ← peek
  if next.endsBlock ∨ next = .keyword .return_ then return none
  else return some (← statement inner)

def block : Parse Block := do
  let body ← many (nextStatement inner)
  if ← isAt (.keyword .return_) then
    let last ← returnStmt inner
    let _ ← eatSymbol .semicolon
    return body ++ [last]
  else return body

end LuaSearch.Grammar
