import LuaSearch.Proofs.Parse.Agree
import LuaSearch.Proofs.Token.Stop

/-!
Writing lexemes as source. A lexeme is what a token is without its place: a kind and a text. One
that stands by itself, written with a blank behind it, is cut off as that lexeme, and a list of
lexemes written in this way is cut into the same list.
-/
namespace LuaSearch

abbrev Lexeme := Kind × String

namespace Lexeme

open Lexer

def ofKeyword (word : Keyword) : Lexeme := (.keyword word, word.text)

def ofSymbol (sign : Symbol) : Lexeme := (.symbol sign, sign.text)

def ofName (name : String) : Lexeme := (.ident, name)

def ofNumber (text : String) : Lexeme := (.number, text)

def ofString (value : String) : Lexeme :=
  (.string, String.ofList (Literal.quote '"' value.toList))

def endMarker : Lexeme := (.eof, "")

def isName (text : String) : Bool :=
  text.toList.head?.any startsWord && text.toList.all continuesWord &&
    (Keyword.ofText? text).isNone

def isNumber (text : String) : Bool := text ≠ "" && number text.toList = text.toList

/-- The text of the lexeme alone is cut into one token of its kind. -/
def Stands (l : Lexeme) : Prop :=
  l.1 ≠ .error ∧ ∃ c cs, l.2.toList = c :: cs ∧ piece c cs = .token l.1 (c :: cs)

@[simp] theorem stands_keyword (word : Keyword) : (ofKeyword word).Stands := by
  refine ⟨nofun, ?_⟩
  cases word <;> exact ⟨_, _, rfl, rfl⟩

@[simp] theorem stands_symbol (sign : Symbol) : (ofSymbol sign).Stands := by
  refine ⟨nofun, ?_⟩
  cases sign <;> exact ⟨_, _, rfl, rfl⟩

theorem not_isBlank_of_startsWord {c : Char} (starts : startsWord c) : isBlank c = false := by
  cases blank : isBlank c with
  | false => rfl
  | true => rcases blank_cases blank with rfl | rfl | rfl | rfl | rfl <;> cases starts

theorem stands_name {name : String} (named : isName name) : (ofName name).Stands := by
  refine ⟨nofun, ?_⟩
  simp only [isName, Bool.and_eq_true, Option.isNone_iff_eq_none] at named
  obtain ⟨⟨starts, continues⟩, free⟩ := named
  cases text : name.toList with
  | nil => simp [text] at starts
  | cons c cs =>
    have first : startsWord c = true := by simpa [text] using starts
    have all : (c :: cs).takeWhile continuesWord = c :: cs := by
      have inside := List.all_eq_true.mp (text ▸ continues)
      simpa using @List.takeWhile_append_of_pos _ _ _ [] inside
    have same : String.ofList (c :: cs) = name := by rw [← text, String.ofList_toList]
    refine ⟨c, cs, text, ?_⟩
    simp only [piece, not_isBlank_of_startsWord first, first, word, all, same, free]
    rfl

theorem number_start {c : Char} {cs : List Char} (some : number (c :: cs) ≠ []) :
    isDigit c ∨ c = '.' := by
  by_cases digit : isDigit c
  · exact .inl digit
  by_cases point : c = '.'
  · exact .inr point
  have notZero : c ≠ '0' := by
    rintro rfl
    exact digit rfl
  have noHexadecimal : hexadecimal (c :: cs) = [] := by simp [hexadecimal, notZero]
  have noDecimal : decimal (c :: cs) = [] := by simp [decimal, digit]
  have noPoint : pointDecimal (c :: cs) = [] := by simp [pointDecimal, fraction, point]
  simp [number, noHexadecimal, noDecimal, noPoint] at some

theorem not_startsWord_of_isDigit {c : Char} (digit : isDigit c) : startsWord c = false := by
  have below : c ≤ '9' := by
    simp only [isDigit, Bool.and_eq_true, decide_eq_true_eq] at digit
    exact digit.2
  have above (d : Char) (large : ¬ d ≤ '9') : ¬ d ≤ c := fun le => large (Char.le_trans le below)
  have notUnderscore : c ≠ '_' := by
    rintro rfl
    exact absurd below (by decide)
  simp [startsWord, above 'a' (by decide), above 'A' (by decide), notUnderscore]

theorem stands_number {text : String} (isNumber : isNumber text) : (ofNumber text).Stands := by
  refine ⟨nofun, ?_⟩
  simp only [Lexeme.isNumber, Bool.and_eq_true, decide_eq_true_eq] at isNumber
  obtain ⟨some, whole⟩ := isNumber
  cases given : text.toList with
  | nil => exact absurd (by simpa using given) some
  | cons c cs =>
    rw [given] at whole
    have first := number_start (whole.symm ▸ List.cons_ne_nil c cs)
    have other (d : Char) (never : (isDigit d || d = '.') = false) : c ≠ d := by
      rintro rfl
      rcases first with digit | rfl
      · rw [digit] at never
        cases never
      · cases never
    have notBlank : isBlank c = false := by
      simp [isBlank, other ' ' rfl, other '\t' rfl, other '\r' rfl, other '\n' rfl,
        other '\x0c' rfl]
    have notWord : startsWord c = false := by
      rcases first with digit | rfl
      · exact not_startsWord_of_isDigit digit
      · rfl
    refine ⟨c, cs, given, ?_⟩
    simp [piece, notBlank, notWord, other '"' rfl, other '\'' rfl, other '[' rfl, other '#' rfl,
      other '-' rfl, whole, ofNumber]

theorem stands_quoted {mark : Char} (isMark : Literal.IsMark mark) {cs text : List Char}
    (written : Literal.Written mark cs text) :
    Stands (.string, String.ofList (mark :: (text ++ [mark]))) := by
  refine ⟨nofun, mark, text ++ [mark], by simp, ?_⟩
  have read := quoted_written isMark written []
  have plain : isBlank mark = false ∧ startsWord mark = false := by
    rcases isMark with rfl | rfl <;> decide
  have quotes : (mark = '"' || mark = '\'') = true := by
    rcases isMark with rfl | rfl <;> rfl
  simp only [piece, plain, quotes, read]
  rfl

@[simp] theorem stands_string (value : String) : (ofString value).Stands :=
  stands_quoted (.inl rfl) (Literal.written_body '"' value.toList)

def spaced (blank : Char) (ls : List Lexeme) : List Char :=
  ls.flatMap fun l => l.2.toList ++ [blank]

theorem spaced_cons (blank : Char) (l : Lexeme) (ls : List Lexeme) :
    spaced blank (l :: ls) = l.2.toList ++ blank :: spaced blank ls := by
  simp [spaced]

theorem takeWhile_isBlank_stands {l : Lexeme} (stands : l.Stands) (rest : List Char) :
    (l.2.toList ++ rest).takeWhile isBlank = [] := by
  obtain ⟨_, c, cs, text, whole⟩ := stands
  have notBlank : isBlank c = false := by
    cases given : isBlank c with
    | false => rfl
    | true =>
      rw [piece, if_pos given] at whole
      cases whole
  simp [text, notBlank]

theorem takeWhile_isBlank_spaced {ls : List Lexeme} (stand : ∀ l ∈ ls, l.Stands) (blank : Char) :
    (spaced blank ls).takeWhile isBlank = [] := by
  cases ls with
  | nil => rfl
  | cons l ls =>
    rw [spaced_cons]
    exact takeWhile_isBlank_stands (stand l List.mem_cons_self) _

theorem tokensAt_stands_blank {l : Lexeme} (stands : l.Stands) {blank : Char}
    (isBlank : isBlank blank) {rest : List Char} (single : rest.takeWhile Lexer.isBlank = [])
    (offset : Nat) :
    tokensAt offset (l.2.toList ++ blank :: rest) =
      ⟨l.1, ⟨offset, offset + byteLength l.2.toList⟩, l.2⟩ ::
        tokensAt (offset + byteLength l.2.toList + byteLength [blank]) rest := by
  obtain ⟨noError, c, cs, text, whole⟩ := stands
  have named : String.ofList (c :: cs) = l.2 := by rw [← text, String.ofList_toList]
  have behind : (c :: (cs ++ blank :: rest)).drop (c :: cs).length = blank :: rest := by simp
  have skipped : piece blank rest = .gap [blank] := by simp [piece, isBlank, single]
  rw [text, List.cons_append, tokensAt_cons, piece_stop noError isBlank rest whole]
  simp only [Piece.token, behind, named]
  rw [tokensAt_cons, skipped]
  rfl

/-- Lexemes with a blank behind each are cut into the same lexemes. -/
theorem tokensAt_spaced {blank : Char} (isBlank : isBlank blank) {ls : List Lexeme}
    (stand : ∀ l ∈ ls, l.Stands) (offset : Nat) :
    (tokensAt offset (spaced blank ls)).map Token.lexeme = ls ++ [endMarker] := by
  induction ls generalizing offset with
  | nil => rfl
  | cons l ls ih =>
    obtain ⟨stands, others⟩ := List.forall_mem_cons.mp stand
    rw [spaced_cons, tokensAt_stands_blank stands isBlank (takeWhile_isBlank_spaced others blank),
      List.map_cons, ih others]
    rfl

end Lexeme

end LuaSearch
