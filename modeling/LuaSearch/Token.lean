import LuaSearch.Span

/-!
The words and signs of Lua source. Keywords and symbols have one spelling each, given by a
table; the other kinds of token are classes of texts. A token keeps the text that it covers.
-/
namespace LuaSearch

inductive Keyword where
  | and_ | break_ | continue_ | do_ | else_ | elseif_ | end_ | false_ | for_ | function_ | if_
  | in_ | local_ | nil_ | not_ | or_ | repeat_ | return_ | then_ | true_ | until_ | while_
  deriving DecidableEq, Repr

namespace Keyword

def all : List Keyword :=
  [and_, break_, continue_, do_, else_, elseif_, end_, false_, for_, function_, if_, in_, local_,
    nil_, not_, or_, repeat_, return_, then_, true_, until_, while_]

def text : Keyword → String
  | and_ => "and" | break_ => "break" | continue_ => "continue" | do_ => "do"
  | else_ => "else" | elseif_ => "elseif" | end_ => "end" | false_ => "false"
  | for_ => "for" | function_ => "function" | if_ => "if" | in_ => "in"
  | local_ => "local" | nil_ => "nil" | not_ => "not" | or_ => "or"
  | repeat_ => "repeat" | return_ => "return" | then_ => "then" | true_ => "true"
  | until_ => "until" | while_ => "while"

def label : Keyword → String
  | and_ => "And" | break_ => "Break" | continue_ => "Continue" | do_ => "Do"
  | else_ => "Else" | elseif_ => "ElseIf" | end_ => "End" | false_ => "False"
  | for_ => "For" | function_ => "Function" | if_ => "If" | in_ => "In"
  | local_ => "Local" | nil_ => "Nil" | not_ => "Not" | or_ => "Or"
  | repeat_ => "Repeat" | return_ => "Return" | then_ => "Then" | true_ => "True"
  | until_ => "Until" | while_ => "While"

def ofText? (word : String) : Option Keyword := all.find? (·.text = word)

end Keyword

inductive Symbol where
  | plus | minus | star | slash | slashSlash | percent | caret | hash
  | amp | pipe | tilde | shl | shr
  | eqEq | tildeEq | lt | le | gt | ge | eq
  | plusEq | minusEq | starEq | slashEq | percentEq | caretEq | dotDotEq
  | lparen | rparen | lbrace | rbrace | lbracket | rbracket
  | semicolon | colon | colonColon | comma | dot | dotDot | ellipsis
  deriving DecidableEq, Repr

namespace Symbol

/-- All symbols, longer ones first, so that the first that fits is the longest that fits. -/
def all : List Symbol :=
  [ellipsis, dotDotEq,
    slashSlash, shl, shr, eqEq, tildeEq, le, ge, plusEq, minusEq, starEq, slashEq, percentEq,
    caretEq, colonColon, dotDot,
    plus, minus, star, slash, percent, caret, hash, amp, pipe, tilde, lt, gt, eq, lparen, rparen,
    lbrace, rbrace, lbracket, rbracket, semicolon, colon, comma, dot]

def text : Symbol → String
  | plus => "+" | minus => "-" | star => "*" | slash => "/" | slashSlash => "//"
  | percent => "%" | caret => "^" | hash => "#" | amp => "&" | pipe => "|" | tilde => "~"
  | shl => "<<" | shr => ">>" | eqEq => "==" | tildeEq => "~=" | lt => "<" | le => "<="
  | gt => ">" | ge => ">=" | eq => "=" | plusEq => "+=" | minusEq => "-=" | starEq => "*="
  | slashEq => "/=" | percentEq => "%=" | caretEq => "^=" | dotDotEq => "..="
  | lparen => "(" | rparen => ")" | lbrace => "\x7b" | rbrace => "\x7d" | lbracket => "["
  | rbracket => "]" | semicolon => ";" | colon => ":" | colonColon => "::" | comma => ","
  | dot => "." | dotDot => ".." | ellipsis => "..."

def label : Symbol → String
  | plus => "Plus" | minus => "Minus" | star => "Star" | slash => "Slash"
  | slashSlash => "SlashSlash" | percent => "Percent" | caret => "Caret" | hash => "Hash"
  | amp => "Amp" | pipe => "Pipe" | tilde => "Tilde" | shl => "Shl" | shr => "Shr"
  | eqEq => "EqEq" | tildeEq => "TildeEq" | lt => "Lt" | le => "Le" | gt => "Gt" | ge => "Ge"
  | eq => "Eq" | plusEq => "PlusEq" | minusEq => "MinusEq" | starEq => "StarEq"
  | slashEq => "SlashEq" | percentEq => "PercentEq" | caretEq => "CaretEq"
  | dotDotEq => "DotDotEq" | lparen => "LParen" | rparen => "RParen" | lbrace => "LBrace"
  | rbrace => "RBrace" | lbracket => "LBracket" | rbracket => "RBracket"
  | semicolon => "Semicolon" | colon => "Colon" | colonColon => "ColonColon"
  | comma => "Comma" | dot => "Dot" | dotDot => "DotDot" | ellipsis => "Ellipsis"

end Symbol

inductive Kind where
  | keyword (word : Keyword)
  | symbol (sign : Symbol)
  | number
  | string
  | longString
  | ident
  | error
  | eof
  deriving DecidableEq, Repr

namespace Kind

def label : Kind → String
  | keyword word => word.label
  | symbol sign => sign.label
  | number => "Number"
  | string => "String"
  | longString => "LongString"
  | ident => "Ident"
  | error => "Error"
  | eof => "Eof"

def describe : Kind → String
  | keyword word => "'" ++ word.text ++ "'"
  | symbol sign => "'" ++ sign.text ++ "'"
  | number => "number"
  | string => "string"
  | longString => "long string"
  | ident => "identifier"
  | error => "error"
  | eof => "end of file"

def isKeyword : Kind → Bool
  | keyword _ => true
  | _ => false

/-- No statement of a block starts here: the block is over. -/
def endsBlock : Kind → Bool
  | keyword .end_ | keyword .else_ | keyword .elseif_ | keyword .until_ | eof => true
  | _ => false

end Kind

structure Token where
  kind : Kind
  span : Span
  text : String
  deriving DecidableEq, Repr

def Token.endMarker (length : Nat) : Token := ⟨.eof, ⟨length, length⟩, ""⟩

end LuaSearch
