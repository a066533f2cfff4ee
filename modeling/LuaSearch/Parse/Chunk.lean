import LuaSearch.Parse.Statement

/-!
Whole texts. The cursor counts the levels of nesting that are entered, and what nests is read only
below the limit. So no more levels are needed than the limit has, and one for the refusal.
-/
namespace LuaSearch

open Parse

namespace Grammar

namespace Level

def exhausted : Level where
  operators _ := do fail .tooDeep (← currentSpan)
  block := do fail .tooDeep (← currentSpan)
  elseif := do fail .tooDeep (← currentSpan)

/-- The readers for what nests, one within the other at most so many times. -/
def ofNat : Nat → Level
  | 0 => exhausted
  | levels + 1 => {
      operators := fun limit => nested (Grammar.operators (ofNat levels) limit)
      block := nested (Grammar.block (ofNat levels))
      elseif := spanned (nested (conditional (ofNat levels))) }

/-- The limit is met before these are exhausted. -/
def outermost : Level := ofNat (maxNesting + 1)

end Level

def chunk (inner : Level) : Parse Block := do
  let body ← inner.block
  let _ ← expect .eof
  return body

end Grammar

structure Parser where
  tokens : List Token
  cursor : Cursor

namespace Parser

def ofTokens (sourceLength : Nat) (tokens : List Token) : Parser :=
  ⟨tokens, Cursor.start sourceLength tokens⟩

def ofSource (source : String) : Parser := ofTokens source.utf8ByteSize (tokenize source)

def run {α : Type} (p : Parser) (reader : Parse α) : Except SyntaxError α × Parser :=
  let (result, cursor) := reader.runOn p.cursor
  (result, { p with cursor })

def depth (p : Parser) : Nat := p.cursor.depth

def expr (p : Parser) : Except SyntaxError Expr × Parser :=
  p.run (Grammar.expr .outermost)

/-- All that is left, as one block. Any error token, wherever it stands, comes first. -/
def chunk (p : Parser) : Except SyntaxError Block × Parser :=
  match p.tokens.find? (·.kind = .error) with
  | some bad => (.error ⟨.invalidToken, bad.span⟩, p)
  | none => p.run (Grammar.chunk .outermost)

end Parser

def parse (source : String) : Except SyntaxError Block := (Parser.ofSource source).chunk.1

def parseExpr (source : String) : Except SyntaxError Expr := (Parser.ofSource source).expr.1

end LuaSearch
