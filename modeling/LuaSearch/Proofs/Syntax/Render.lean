import LuaSearch.Proofs.Token.Lexeme
import LuaSearch.Syntax.Basic

/-!
A printer for syntax trees. Every statement is closed by a semicolon. An operand that is itself an
operation stands in parentheses, and so does what is called, indexed or sent a message unless it is
a name, an access or a call. An adjusted call stands in one pair of parentheses. Accesses are
written with brackets and so are the keys of tables; a method leaves its receiver out of its
parameters.

Beside the printer stand the two things that decide whether its text is read back: which trees are
well formed, and how many levels of nesting their text has.
-/
namespace LuaSearch

open Lexeme

def Constant.lexeme : Constant → Lexeme
  | .nil => ofKeyword .nil_
  | .false => ofKeyword .false_
  | .true => ofKeyword .true_
  | .vararg => ofSymbol .ellipsis

def UnaryOp.lexeme : UnaryOp → Lexeme
  | .neg => ofSymbol .minus
  | .not => ofKeyword .not_
  | .len => ofSymbol .hash
  | .bitNot => ofSymbol .tilde

def BinaryOp.lexeme : BinaryOp → Lexeme
  | .arith .add => ofSymbol .plus
  | .arith .sub => ofSymbol .minus
  | .arith .mul => ofSymbol .star
  | .arith .div => ofSymbol .slash
  | .arith .floorDiv => ofSymbol .slashSlash
  | .arith .mod => ofSymbol .percent
  | .arith .pow => ofSymbol .caret
  | .arith .bitAnd => ofSymbol .amp
  | .arith .bitOr => ofSymbol .pipe
  | .arith .bitXor => ofSymbol .tilde
  | .arith .shl => ofSymbol .shl
  | .arith .shr => ofSymbol .shr
  | .rel .eq => ofSymbol .eqEq
  | .rel .ne => ofSymbol .tildeEq
  | .rel .lt => ofSymbol .lt
  | .rel .le => ofSymbol .le
  | .rel .gt => ofSymbol .gt
  | .rel .ge => ofSymbol .ge
  | .logic .and => ofKeyword .and_
  | .logic .or => ofKeyword .or_
  | .concat => ofSymbol .dotDot

def Expr.isOperation : Expr → Bool
  | unary .. | binary .. => true
  | _ => false

def Expr.isHead : Expr → Bool
  | ident .. | index .. | call .. | methodCall .. => true
  | _ => false

def Stmt.isReturn : Stmt → Bool
  | returnStmt .. => true
  | _ => false

namespace Render

def enclosed (left : Symbol) (inside : List Lexeme) (right : Symbol) : List Lexeme :=
  ofSymbol left :: (inside ++ [ofSymbol right])

def grouped (bare : Bool) (inside : List Lexeme) : List Lexeme :=
  if bare then inside else enclosed .lparen inside .rparen

def separated : List (List Lexeme) → List Lexeme
  | [] => []
  | [item] => item
  | item :: items => item ++ ofSymbol .comma :: separated items

def further (items : List (List Lexeme)) : List Lexeme :=
  if items.isEmpty then [] else ofSymbol .comma :: separated items

theorem separated_eq_further (item : List Lexeme) (items : List (List Lexeme)) :
    separated (item :: items) = item ++ further items := by
  cases items <;> simp [separated, further]

theorem separated_cons (item : List Lexeme) {items : List (List Lexeme)}
    (some : items ≠ []) :
    separated (item :: items) = item ++ ofSymbol .comma :: separated items := by
  cases items with
  | nil => exact absurd rfl some
  | cons _ _ => rfl

def binder (b : Binder) : Lexeme := ofName (b.name?.getD "")

def paramItems (ps : Params) : List (Option Binder) :=
  ps.names.map some ++ if ps.hasVarargs then [none] else []

def param : Option Binder → Lexeme
  | some b => binder b
  | none => ofSymbol .ellipsis

def params (ps : Params) : List Lexeme :=
  enclosed .lparen (separated ((paramItems ps).map ([param ·]))) .rparen

def functionBody (ps : Params) (body : List Lexeme) : List Lexeme :=
  params ps ++ (body ++ [ofKeyword .end_])

def path : Expr → List Lexeme
  | .ident _ name => [ofName name]
  | .index _ object (.string _ key) => path object ++ [ofSymbol .dot, ofName key]
  | _ => []

def declared (method? : Option String) (ps : Params) (body : List Lexeme) : List Lexeme :=
  match method? with
  | none => functionBody ps body
  | some method =>
      ofSymbol .colon :: ofName method :: functionBody ⟨ps.names.tail, ps.hasVarargs⟩ body

mutual
def expr : Expr → List Lexeme
  | .constant _ value => [value.lexeme]
  | .string _ value => [ofString value]
  | .number _ text => [ofNumber text]
  | .ident _ name => [ofName name]
  | .unary _ op operand => op.lexeme :: grouped (!operand.isOperation) (expr operand)
  | .binary _ op left right =>
      grouped (!left.isOperation) (expr left) ++
        op.lexeme :: grouped (!right.isOperation) (expr right)
  | .index _ object key =>
      grouped object.isHead (expr object) ++ enclosed .lbracket (expr key) .rbracket
  | .table _ fs => enclosed .lbrace (separated (fields fs)) .rbrace
  | .call _ callee args adjusted =>
      grouped (!adjusted)
        (grouped callee.isHead (expr callee) ++ enclosed .lparen (separated (exprs args)) .rparen)
  | .methodCall _ receiver method args adjusted =>
      grouped (!adjusted)
        (grouped receiver.isHead (expr receiver) ++
          ofSymbol .colon :: ofName method :: enclosed .lparen (separated (exprs args)) .rparen)
  | .function _ ps body => ofKeyword .function_ :: functionBody ps (block body)
  | .wildcard .. => []
termination_by structural e => e

def exprs : List Expr → List (List Lexeme)
  | [] => []
  | e :: es => expr e :: exprs es
termination_by structural es => es

def field : Field → List Lexeme
  | .positional value => expr value
  | .keyed key value => enclosed .lbracket (expr key) .rbracket ++ ofSymbol .eq :: expr value
termination_by structural f => f

def fields : List Field → List (List Lexeme)
  | [] => []
  | f :: fs => field f :: fields fs
termination_by structural fs => fs

def step : Option Expr → List Lexeme
  | none => []
  | some e => ofSymbol .comma :: expr e
termination_by structural e => e

def stmt : Stmt → List Lexeme
  | .assign _ targets values =>
      separated (exprs targets) ++ ofSymbol .eq :: separated (exprs values)
  | .localVars _ names values =>
      ofKeyword .local_ :: (separated (names.map ([binder ·])) ++
        if values.isEmpty then [] else ofSymbol .eq :: separated (exprs values))
  | .call _ call => expr call
  | .doBlock _ body => ofKeyword .do_ :: (block body ++ [ofKeyword .end_])
  | .whileLoop _ condition body =>
      ofKeyword .while_ :: (expr condition ++ ofKeyword .do_ :: (block body ++ [ofKeyword .end_]))
  | .repeatLoop _ body condition =>
      ofKeyword .repeat_ :: (block body ++ ofKeyword .until_ :: expr condition)
  | .localFunction _ name ps body =>
      ofKeyword .local_ :: ofKeyword .function_ :: ofName name :: functionBody ps (block body)
  | .function _ target method? ps body =>
      ofKeyword .function_ :: (path target ++ declared method? ps (block body))
  | .returnStmt _ values => ofKeyword .return_ :: separated (exprs values)
  | .ifStmt _ condition thenBody elseBody =>
      ofKeyword .if_ :: (expr condition ++ ofKeyword .then_ :: (block thenBody ++
        ((if elseBody.isEmpty then [] else ofKeyword .else_ :: block elseBody) ++
          [ofKeyword .end_])))
  | .breakStmt _ => [ofKeyword .break_]
  | .continueStmt _ => [ofKeyword .continue_]
  | .numericFor _ var start limit step? body =>
      ofKeyword .for_ :: ofName var :: ofSymbol .eq :: (expr start ++ ofSymbol .comma ::
        (expr limit ++ (step step? ++ ofKeyword .do_ :: (block body ++ [ofKeyword .end_]))))
  | .genericFor _ names es body =>
      ofKeyword .for_ :: (separated (names.map ([ofName ·])) ++ ofKeyword .in_ ::
        (separated (exprs es) ++ ofKeyword .do_ :: (block body ++ [ofKeyword .end_])))
  | .wildcard .. => []
termination_by structural s => s

def block : List Stmt → List Lexeme
  | [] => []
  | s :: ss => stmt s ++ ofSymbol .semicolon :: block ss
termination_by structural ss => ss
end

def operand (e : Expr) : List Lexeme := grouped (!e.isOperation) (expr e)

def head (e : Expr) : List Lexeme := grouped e.isHead (expr e)

end Render

/-- The source text of a chunk, with a space behind every lexeme. -/
def render (chunk : Block) : String := String.ofList (spaced ' ' (Render.block chunk))

namespace WellFormed

def binder (b : Binder) : Bool := b.name?.any isName

def params (ps : Params) : Bool := ps.names.all binder

theorem params_tail {ps : Params} (named : params ps) :
    params ⟨ps.names.tail, ps.hasVarargs⟩ := by
  simp only [params, List.all_eq_true] at named ⊢
  intro b member
  exact named b (List.mem_of_mem_tail member)

def path : Expr → Bool
  | .ident _ name => isName name
  | .index _ object (.string _ key) => path object && isName key
  | _ => false

def method (ps : Params) (name : String) : Bool :=
  isName name && ps.names.head?.any (·.name? = some "self")

mutual
def expr : Expr → Bool
  | .constant .. | .string .. => true
  | .number _ text => isNumber text
  | .ident _ name => isName name
  | .unary _ _ operand => expr operand
  | .binary _ _ left right => expr left && expr right
  | .index _ object key => expr object && expr key
  | .table _ fs => fields fs
  | .call _ callee args _ => expr callee && exprs args
  | .methodCall _ receiver method args _ => expr receiver && isName method && exprs args
  | .function _ ps body => params ps && block body
  | .wildcard .. => false
termination_by structural e => e

def exprs : List Expr → Bool
  | [] => true
  | e :: es => expr e && exprs es
termination_by structural es => es

def field : Field → Bool
  | .positional value => expr value
  | .keyed key value => expr key && expr value
termination_by structural f => f

def fields : List Field → Bool
  | [] => true
  | f :: fs => field f && fields fs
termination_by structural fs => fs

def step : Option Expr → Bool
  | none => true
  | some e => expr e
termination_by structural e => e

def stmt : Stmt → Bool
  | .assign _ targets values =>
      !targets.isEmpty && targets.all Expr.isAssignable && !values.isEmpty && exprs targets &&
        exprs values
  | .localVars _ names values => !names.isEmpty && names.all binder && exprs values
  | .call _ call => call.isCall && expr call
  | .doBlock _ body => block body
  | .whileLoop _ condition body => expr condition && block body
  | .repeatLoop _ body condition => block body && expr condition
  | .localFunction _ name ps body => isName name && params ps && block body
  | .function _ target method? ps body =>
      path target && method?.all (method ps) && params ps && block body
  | .returnStmt _ values => exprs values
  | .ifStmt _ condition thenBody elseBody => expr condition && block thenBody && block elseBody
  | .breakStmt _ | .continueStmt _ => true
  | .numericFor _ var start limit step? body =>
      isName var && expr start && expr limit && step step? && block body
  | .genericFor _ names es body =>
      !names.isEmpty && names.all isName && !es.isEmpty && exprs es && block body
  | .wildcard .. => false
termination_by structural s => s

def block : List Stmt → Bool
  | [] => true
  | s :: ss => stmt s && (!s.isReturn || ss.isEmpty) && block ss
termination_by structural ss => ss
end

end WellFormed

namespace Levels

def grouped (bare : Bool) (levels : Nat) : Nat := if bare then levels else levels + 1

mutual
/-- How many levels of nesting the text reaches below the one at which the tree is read.
    Parentheses, brackets, braces and bodies open a level, and so do the operand of a unary operator
    and the right operand of a binary one. -/
def expr : Expr → Nat
  | .constant .. | .string .. | .number .. | .ident .. | .wildcard .. => 0
  | .unary _ _ operand => grouped (!operand.isOperation) (expr operand) + 1
  | .binary _ _ left right =>
      max (grouped (!left.isOperation) (expr left)) (grouped (!right.isOperation) (expr right) + 1)
  | .index _ object key => max (grouped object.isHead (expr object)) (expr key + 1)
  | .table _ fs => fields fs
  | .call _ callee args adjusted =>
      grouped (!adjusted) (max (grouped callee.isHead (expr callee)) (exprs args))
  | .methodCall _ receiver _ args adjusted =>
      grouped (!adjusted) (max (grouped receiver.isHead (expr receiver)) (exprs args))
  | .function _ _ body => block body + 1
termination_by structural e => e

def exprs : List Expr → Nat
  | [] => 0
  | e :: es => max (expr e + 1) (exprs es)
termination_by structural es => es

def targets : List Expr → Nat
  | [] => 0
  | e :: es => max (expr e) (targets es)
termination_by structural es => es

def field : Field → Nat
  | .positional value => expr value + 1
  | .keyed key value => max (expr key + 1) (expr value + 1)
termination_by structural f => f

def fields : List Field → Nat
  | [] => 0
  | f :: fs => max (field f) (fields fs)
termination_by structural fs => fs

def step : Option Expr → Nat
  | none => 0
  | some e => expr e + 1
termination_by structural e => e

def stmt : Stmt → Nat
  | .assign _ ts values => max (targets ts) (exprs values)
  | .localVars _ _ values => exprs values
  | .call _ call => expr call
  | .doBlock _ body => block body + 1
  | .whileLoop _ condition body => max (expr condition + 1) (block body + 1)
  | .repeatLoop _ body condition => max (block body + 1) (expr condition + 1)
  | .localFunction _ _ _ body | .function _ _ _ _ body => block body + 1
  | .returnStmt _ values => exprs values
  | .ifStmt _ condition thenBody elseBody =>
      max (expr condition + 1) (max (block thenBody + 1)
        (if elseBody.isEmpty then 0 else block elseBody + 1))
  | .breakStmt _ | .continueStmt _ | .wildcard .. => 0
  | .numericFor _ _ start limit step? body =>
      max (expr start + 1) (max (expr limit + 1) (max (step step?) (block body + 1)))
  | .genericFor _ _ es body => max (exprs es) (block body + 1)
termination_by structural s => s

def block : List Stmt → Nat
  | [] => 0
  | s :: ss => max (stmt s) (block ss)
termination_by structural ss => ss
end

def operand (e : Expr) : Nat := grouped (!e.isOperation) (expr e)

def head (e : Expr) : Nat := grouped e.isHead (expr e)

end Levels

end LuaSearch
