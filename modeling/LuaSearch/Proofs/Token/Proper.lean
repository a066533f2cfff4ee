import LuaSearch.Proofs.Token.Munch

/-!
What the lexemes of a source look like. A keyword or a symbol is spelled in one way; a name, a
number or a string is a text that would be cut as that lexeme if it stood alone.
-/
namespace LuaSearch

open Lexer

namespace Lexeme

inductive Proper : Lexeme → Prop where
  | keyword (word : Keyword) : Proper (ofKeyword word)
  | symbol (sign : Symbol) : Proper (ofSymbol sign)
  | name {text : String} (named : isName text) : Proper (ofName text)
  | number {text : String} (numeric : isNumber text) : Proper (ofNumber text)
  | string {text : String} (stands : Stands (.string, text)) : Proper (.string, text)
  | longString {text : String} (stands : Stands (.longString, text)) : Proper (.longString, text)

theorem Proper.stands {l : Lexeme} (proper : Proper l) : l.Stands := by
  cases proper with
  | keyword word => exact stands_keyword word
  | symbol sign => exact stands_symbol sign
  | name named => exact stands_name named
  | number numeric => exact stands_number numeric
  | string stands => exact stands
  | longString stands => exact stands

theorem Stands.kind_eq {l l' : Lexeme} (stands : l.Stands) (stands' : l'.Stands)
    (text : l.2 = l'.2) : l.1 = l'.1 := by
  obtain ⟨_, c, cs, whole, cut⟩ := stands
  obtain ⟨_, c', cs', whole', cut'⟩ := stands'
  rw [← text, whole] at whole'
  obtain ⟨rfl, rfl⟩ := List.cons.inj whole'
  exact (token_inj.mp (cut.symm.trans cut')).1

theorem Proper.isKeyword_iff {l : Lexeme} (proper : l.Proper) :
    l.1.isKeyword = true ↔ ∃ word : Keyword, word.text = l.2 := by
  constructor
  · intro isKeyword
    cases proper with
    | keyword word => exact ⟨word, rfl⟩
    | _ => cases isKeyword
  · rintro ⟨word, text⟩
    have kind : (ofKeyword word).1 = l.1 := (stands_keyword word).kind_eq proper.stands text
    rw [← kind]
    rfl

theorem proper_number {rule : Rule} (numeric : rule.kind? = some .number) {text : List Char}
    (fits : text ∈ rule.pattern) : Proper (.number, String.ofList text) := by
  have whole : number text = text :=
    (number_isPrefix text).eq_of_length_le
      (number_longest numeric fits (List.prefix_refl text)).length_le
  have nonempty : text ≠ [] := by
    rintro rfl
    exact rule.nil_notMem fits
  refine .number ?_
  simp only [isNumber, Bool.and_eq_true, decide_eq_true_eq, String.toList_ofList, whole, and_true]
  intro empty
  exact nonempty (String.ofList_eq_empty_iff.mp empty)

theorem proper_quoted {mark : Char} (isMark : Literal.IsMark mark) {text : List Char}
    (fits : text ∈ Pattern.quoted mark) : Proper (.string, String.ofList text) := by
  cases text with
  | nil => exact absurd fits Pattern.nil_notMem_char_mul
  | cons c text =>
    obtain rfl := (Pattern.cons_mem_char_mul.mp fits).1
    have read := quoted_of_mem isMark fits []
    rw [List.append_nil] at read
    have plain : isBlank c = false ∧ startsWord c = false := by
      rcases isMark with rfl | rfl <;> decide
    have quotes : (c = '"' || c = '\'') = true := by
      rcases isMark with rfl | rfl <;> rfl
    refine .string ⟨nofun, c, text, String.toList_ofList, ?_⟩
    simp only [piece, plain, quotes, read]
    rfl

theorem proper_longString {level : Nat} {body : List Char}
    (closed : FirstBehind (closer level) body) :
    Proper (.longString, String.ofList (opener level ++ (body ++ closer level))) := by
  refine .longString ⟨nofun, '[', _, String.toList_ofList, ?_⟩
  exact Literal.bracket_long closed

theorem proper_word {text : List Char} (fits : text ∈ Pattern.word)
    (unknown : ∀ word : Keyword, String.ofList text ≠ word.text) :
    Proper (.ident, String.ofList text) := by
  cases text with
  | nil => exact absurd fits Pattern.nil_notMem_oneOf_mul
  | cons c text =>
    obtain ⟨starts, continues⟩ := Pattern.cons_mem_oneOf_mul.mp fits
    have free : Keyword.ofText? (String.ofList (c :: text)) = none := by
      refine List.find?_eq_none.mpr fun word _ => ?_
      simpa using (unknown word).symm
    refine .name ?_
    simp only [isName, String.toList_ofList, List.head?_cons, Option.any_some, starts,
      List.all_cons, List.all_eq_true.mpr (Pattern.mem_many.mp continues), continuesWord, free]
    rfl

end Lexeme

theorem proper_of_munched {kind : Kind} {text after : List Char}
    (munched : Munched (some kind) text after)
    (unknown : kind = .ident → ∀ word : Keyword, String.ofList text ≠ word.text) :
    Lexeme.Proper (kind, String.ofList text) := by
  obtain ⟨rule, front, isKind, fits, takes, _⟩ := munched
  cases takes with
  | longBracket closed =>
    cases isKind
    exact Lexeme.proper_longString closed
  | longComment | lineComment => cases isKind
  | front plain =>
    cases rule with
    | blanks | hashBang | comment => cases isKind
    | longBracket => cases plain
    | keyword word =>
      cases isKind
      obtain rfl : text = word.text.toList := fits
      simpa [Lexeme.ofKeyword] using Lexeme.Proper.keyword word
    | symbol sign =>
      cases isKind
      obtain rfl : text = sign.text.toList := fits
      simpa [Lexeme.ofSymbol] using Lexeme.Proper.symbol sign
    | decimal | pointDecimal | hexadecimal =>
      cases isKind
      exact Lexeme.proper_number rfl fits
    | doubleQuoted =>
      cases isKind
      exact Lexeme.proper_quoted (.inl rfl) fits
    | singleQuoted =>
      cases isKind
      exact Lexeme.proper_quoted (.inr rfl) fits
    | word =>
      cases isKind
      exact Lexeme.proper_word fits (unknown rfl)

/-- Every token but errors and the end is a proper lexeme. -/
theorem proper_of_token {source : String} {token : Token} (member : token ∈ tokenize source)
    (noError : token.kind ≠ .error) (notLast : token.kind ≠ .eof) :
    Lexeme.Proper token.lexeme := by
  obtain ⟨_, _, _, _, munched⟩ := munched_of_token member noError notLast
  obtain ⟨_, c, cs, _, _, read⟩ := piece_of_token member notLast
  have proper := proper_of_munched munched fun isName word => by
    rw [isName] at read
    exact not_keyword_of_ident read word
  simpa [Token.lexeme] using proper

/-- The tokens spelled like a keyword, errors left out, are the keywords. -/
theorem isKeyword_iff_reserved {source : String} {token : Token} (member : token ∈ tokenize source)
    (noError : token.kind ≠ .error) :
    token.kind.isKeyword = true ↔ ∃ word : Keyword, word.text = token.text := by
  by_cases last : token.kind = .eof
  · obtain ⟨front, split, inside⟩ := (tokenize_tiles source).ends
    rw [split, List.mem_append, List.mem_singleton] at member
    obtain rfl := member.resolve_left fun early => (inside token early).1 last
    have some (word : Keyword) : word.text ≠ "" := by cases word <;> decide
    exact ⟨nofun, fun ⟨word, text⟩ => absurd text (some word)⟩
  · exact (proper_of_token member noError last).isKeyword_iff

end LuaSearch
