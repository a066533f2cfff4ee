import LuaSearch.Token

/-!
Cutting source into tokens. At each place the longest text that fits some kind is taken; blanks,
comments and lines that start with `#!` leave no token. Every recogniser returns a text that
stands at the front of its input, empty when nothing fits, so the pieces put together again give
the input back. What fits no kind becomes an error token and the cut goes on behind it.
-/
namespace LuaSearch.Lexer

def isBlank (c : Char) : Bool :=
  c = ' ' || c = '\t' || c = '\r' || c = '\n' || c = '\x0c'

def isDigit (c : Char) : Bool := '0' ≤ c && c ≤ '9'

def isHexDigit (c : Char) : Bool :=
  isDigit c || ('a' ≤ c && c ≤ 'f') || ('A' ≤ c && c ≤ 'F')

def startsWord (c : Char) : Bool :=
  ('a' ≤ c && c ≤ 'z') || ('A' ≤ c && c ≤ 'Z') || c = '_'

def continuesWord (c : Char) : Bool := startsWord c || isDigit c

def line (cs : List Char) : List Char := cs.takeWhile (· ≠ '\n')

def sign : List Char → List Char
  | '+' :: _ => ['+']
  | '-' :: _ => ['-']
  | _ => []

def fraction (digit : Char → Bool) : List Char → List Char
  | '.' :: cs => '.' :: cs.takeWhile digit
  | _ => []

def exponent (mark : Char → Bool) : List Char → List Char
  | [] => []
  | c :: cs =>
      if mark c then
        let s := sign cs
        match (cs.drop s.length).takeWhile isDigit with
        | [] => []
        | digits => c :: s ++ digits
      else []

def decimalExponent : List Char → List Char := exponent fun c => c = 'e' || c = 'E'

def binaryExponent : List Char → List Char := exponent fun c => c = 'p' || c = 'P'

def decimal (cs : List Char) : List Char :=
  match cs.takeWhile isDigit with
  | [] => []
  | whole =>
      let mantissa := whole ++ fraction isDigit (cs.drop whole.length)
      mantissa ++ decimalExponent (cs.drop mantissa.length)

def pointDecimal (cs : List Char) : List Char :=
  match fraction isDigit cs with
  | [] | [_] => []
  | mantissa => mantissa ++ decimalExponent (cs.drop mantissa.length)

def hexadecimal : List Char → List Char
  | '0' :: x :: cs =>
      if x = 'x' || x = 'X' then
        match cs.takeWhile isHexDigit with
        | [] => []
        | whole =>
            let mantissa := whole ++ fraction isHexDigit (cs.drop whole.length)
            '0' :: x :: mantissa ++ binaryExponent (cs.drop mantissa.length)
      else []
  | _ => []

/-- The longest number at the front. Where a hexadecimal number fits, a decimal one ends
    before its `x`. -/
def number (cs : List Char) : List Char :=
  match hexadecimal cs with
  | [] =>
      match decimal cs with
      | [] => pointDecimal cs
      | text => text
  | text => text

/-- What follows the opening quote: the text that can still belong to the string, and whether
    the closing quote was found. A backslash takes the character behind it along. -/
def quoted (quote : Char) : List Char → List Char × Bool
  | [] => ([], false)
  | '\\' :: [] => ([], false)
  | '\\' :: c :: cs =>
      let (text, closed) := quoted quote cs
      ('\\' :: c :: text, closed)
  | c :: cs =>
      if c = quote then ([c], true)
      else if c = '\n' then ([], false)
      else
        let (text, closed) := quoted quote cs
        (c :: text, closed)

def bracketLevel? : List Char → Option Nat
  | '[' :: cs =>
      let equals := cs.takeWhile (· = '=')
      match cs.drop equals.length with
      | '[' :: _ => some equals.length
      | _ => none
  | _ => none

def opener (level : Nat) : List Char := '[' :: List.replicate level '=' ++ ['[']

def closer (level : Nat) : List Char := ']' :: List.replicate level '=' ++ [']']

def through? (mark : List Char) : List Char → Option (List Char)
  | [] => if mark.isPrefixOf [] then some mark else none
  | c :: cs => if mark.isPrefixOf (c :: cs) then some mark else (through? mark cs).map (c :: ·)

/-- A piece of the source: a token, or with no kind a gap between tokens. -/
structure Piece where
  kind : Option Kind
  text : List Char
  deriving DecidableEq, Repr

def Piece.gap (text : List Char) : Piece := ⟨none, text⟩

def Piece.token (kind : Kind) (text : List Char) : Piece := ⟨some kind, text⟩

/-- The piece that starts with a long bracket behind the given lead. Without its closer the
    opener alone is an error. -/
def bracketed (kind : Option Kind) (lead : List Char) (level : Nat) (cs : List Char) : Piece :=
  let head := lead ++ opener level
  match through? (closer level) (cs.drop head.length) with
  | some text => ⟨kind, head ++ text⟩
  | none => .token .error head

def comment (cs : List Char) : Piece :=
  match bracketLevel? (cs.drop 2) with
  | some level => bracketed none ['-', '-'] level cs
  | none => .gap (line cs)

def word (cs : List Char) : Piece :=
  let text := cs.takeWhile continuesWord
  match Keyword.ofText? (String.ofList text) with
  | some keyword => .token (.keyword keyword) text
  | none => .token .ident text

def symbol (c : Char) (cs : List Char) : Piece :=
  match Symbol.all.find? fun s => s.text.toList.isPrefixOf (c :: cs) with
  | some s => .token (.symbol s) s.text.toList
  | none => .token .error [c]

def bracket (cs : List Char) : Piece :=
  match bracketLevel? cs with
  | some level => bracketed (some .longString) [] level cs
  | none =>
      match (cs.drop 1).takeWhile (· = '=') with
      | [] => .token (.symbol .lbracket) ['[']
      | equals => .token .error ('[' :: equals)

def piece (c : Char) (cs : List Char) : Piece :=
  if isBlank c then .gap (c :: cs.takeWhile isBlank)
  else if startsWord c then word (c :: cs)
  else if c = '"' || c = '\'' then
    let (text, closed) := quoted c cs
    .token (if closed then .string else .error) (c :: text)
  else if c = '[' then bracket (c :: cs)
  else if c = '#' && cs.head? = some '!' then .gap (line (c :: cs))
  else if c = '-' && cs.head? = some '-' then comment (c :: cs)
  else
    match number (c :: cs) with
    | [] => symbol c cs
    | text => .token .number text

/-- The tokens of the text that starts at the byte offset, as far as the fuel reaches. Each piece
    takes at least one character, so the length of the text is fuel enough. -/
def tokensFrom : Nat → Nat → List Char → List Token
  | _, offset, [] => [Token.endMarker offset]
  | 0, offset, _ => [Token.endMarker offset]
  | fuel + 1, offset, c :: cs =>
      let next := piece c cs
      let stop := offset + byteLength next.text
      let rest := tokensFrom fuel stop ((c :: cs).drop next.text.length)
      match next.kind with
      | some kind => ⟨kind, ⟨offset, stop⟩, String.ofList next.text⟩ :: rest
      | none => rest

def tokensAt (offset : Nat) (cs : List Char) : List Token := tokensFrom cs.length offset cs

end LuaSearch.Lexer

namespace LuaSearch

def tokenize (source : String) : List Token := Lexer.tokensAt 0 source.toList

end LuaSearch
