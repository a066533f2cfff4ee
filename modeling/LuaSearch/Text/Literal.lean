import LuaSearch.Text.WhiteSpace
import LuaSearch.Token.Lexer

/-!
The value of a string literal. A quoted literal is read escape by escape; an escape that names no
character stands for nothing. A long literal is taken as it stands, but for one line break right
behind its opener.
-/
namespace LuaSearch.Literal

open Lexer (isDigit isHexDigit)

def digitValue (c : Char) : Nat :=
  if isDigit c then c.toNat - '0'.toNat
  else if 'a' ≤ c then c.toNat - 'a'.toNat + 10
  else c.toNat - 'A'.toNat + 10

def valueOf (base : Nat) (digits : List Char) : Nat :=
  digits.foldl (fun value c => base * value + digitValue c) 0

def character (base : Nat) (digits : List Char) : List Char :=
  let code := valueOf base digits
  if digits ≠ [] ∧ code.isValidChar then [Char.ofNat code] else []

def escape : List Char → List Char × List Char
  | [] => ([], [])
  | 'n' :: cs => (['\n'], cs)
  | 't' :: cs => (['\t'], cs)
  | 'r' :: cs => (['\r'], cs)
  | 'a' :: cs => (['\x07'], cs)
  | 'b' :: cs => (['\x08'], cs)
  | 'f' :: cs => (['\x0c'], cs)
  | 'v' :: cs => (['\x0b'], cs)
  | 'z' :: cs => ([], cs.dropWhile Text.isWhiteSpace)
  | 'x' :: cs =>
      let digits := (cs.take 2).takeWhile isHexDigit
      (character 16 digits, cs.drop digits.length)
  | 'u' :: '\x7b' :: cs =>
      let digits := cs.takeWhile isHexDigit
      let rest := cs.drop digits.length
      (character 16 digits, if rest.head? = some '\x7d' then rest.tail else rest)
  | 'u' :: cs => ([], cs)
  | c :: cs =>
      if isDigit c then
        let digits := ((c :: cs).take 3).takeWhile isDigit
        (character 10 digits, (c :: cs).drop digits.length)
      else ([c], cs)

/-- The characters between the quotes with their escapes resolved. Every step takes at least one
    character, so the length of the text is fuel enough. -/
def unescapeWith : Nat → List Char → List Char
  | _, [] => []
  | 0, _ => []
  | fuel + 1, c :: cs =>
      if c = '\\' then
        let (value, rest) := escape cs
        value ++ unescapeWith fuel rest
      else c :: unescapeWith fuel cs

def unescape (cs : List Char) : List Char := unescapeWith cs.length cs

theorem escape_length_le (cs : List Char) : (escape cs).2.length ≤ cs.length := by
  have dropped := (List.dropWhile_sublist (l := cs.tail) Text.isWhiteSpace).length_le
  unfold escape
  split <;> simp_all <;> try omega
  all_goals split <;> simp <;> omega

/-- Fuel beyond the length of the text changes nothing. -/
theorem unescapeWith_eq_of_le {fuel more : Nat} {cs : List Char} (enough : cs.length ≤ fuel)
    (order : fuel ≤ more) : unescapeWith more cs = unescapeWith fuel cs := by
  induction fuel generalizing more cs with
  | zero =>
    obtain rfl := List.length_eq_zero_iff.mp (Nat.le_zero.mp enough)
    cases more <;> rfl
  | succ fuel ih =>
    cases cs with
    | nil => cases more <;> rfl
    | cons c cs =>
      obtain ⟨more, rfl⟩ : ∃ n, more = n + 1 := ⟨more - 1, by omega⟩
      have shorter := escape_length_le cs
      simp only [List.length_cons] at enough
      simp only [unescapeWith]
      have behind : unescapeWith more (escape cs).2 = unescapeWith fuel (escape cs).2 :=
        ih (by omega) (by omega)
      have next : unescapeWith more cs = unescapeWith fuel cs := ih (by omega) (by omega)
      rw [behind, next]

@[simp] theorem unescape_nil : unescape [] = [] := rfl

theorem unescape_cons_of_ne {c : Char} (plain : c ≠ '\\') (cs : List Char) :
    unescape (c :: cs) = c :: unescape cs := by
  simp [unescape, unescapeWith, plain]

theorem unescape_backslash (cs : List Char) :
    unescape ('\\' :: cs) = (escape cs).1 ++ unescape (escape cs).2 := by
  simp only [unescape, List.length_cons, unescapeWith, if_true]
  rw [unescapeWith_eq_of_le (Nat.le_refl _) (escape_length_le cs)]

def quotedValue (text : List Char) : List Char := unescape text.tail.dropLast

def dropLineBreak : List Char → List Char
  | '\r' :: '\n' :: cs => cs
  | '\n' :: cs => cs
  | cs => cs

def longValue (text : List Char) : List Char :=
  let width := (text.tail.takeWhile (· = '=')).length + 2
  dropLineBreak ((text.drop width).take (text.length - 2 * width))

end LuaSearch.Literal

namespace LuaSearch

def Token.stringValue (token : Token) : String :=
  String.ofList <|
    if token.kind = .longString then Literal.longValue token.text.toList
    else Literal.quotedValue token.text.toList

end LuaSearch
