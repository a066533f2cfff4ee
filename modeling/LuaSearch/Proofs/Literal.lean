import LuaSearch.Parse.Chunk
import LuaSearch.Proofs.Span
import LuaSearch.Proofs.Token.Lexeme

/-!
Every string has literals. Between quotes it is written with escapes; between long brackets it
stands as it is, at any level whose closer does not come up before the end. Either text is one
token of the source, and the parser reads the string from it.
-/
namespace LuaSearch

open Lexer

namespace Literal

def long (level : Nat) (cs : List Char) : List Char := opener level ++ (cs ++ closer level)

theorem bracketLevel?_opener (level : Nat) (rest : List Char) :
    bracketLevel? (opener level ++ rest) = some level := by
  simp [bracketLevel?, opener]

theorem bracket_long {level : Nat} {cs : List Char} (closed : FirstBehind (closer level) cs) :
    bracket (long level cs) = .token .longString (long level cs) := by
  have behind : (long level cs).drop (opener level).length = cs ++ closer level := by simp [long]
  have level? : bracketLevel? (long level cs) = some level := bracketLevel?_opener level _
  have found : through? (closer level) (cs ++ closer level) = some (cs ++ closer level) :=
    through?_of_firstBehind closed
  simp only [bracket, level?, bracketed, List.nil_append, behind, found]
  rfl

theorem longValue_long (level : Nat) (cs : List Char) :
    longValue (long level cs) = dropLineBreak cs := by
  have width : ((long level cs).tail.takeWhile (· = '=')).length = level := by
    simp [long, opener]
  have inside : (long level cs).drop (level + 2) = cs ++ closer level := by
    have size : (opener level).length = level + 2 := by simp [opener]
    rw [long, ← size, List.drop_left]
  have total : (long level cs).length - 2 * (level + 2) = cs.length := by
    simp [long, opener, closer]
    omega
  simp only [longValue, width, inside, total, List.take_left]

theorem firstBehind_lineBreak {level : Nat} {cs : List Char}
    (closed : FirstBehind (closer level) cs) : FirstBehind (closer level) ('\n' :: cs) := by
  rintro (_ | i) bound front
  · simp [closer] at front
  · exact closed i (by simpa using bound) front

theorem firstBehind_of_length_le {level : Nat} {cs : List Char} (short : cs.length ≤ level) :
    FirstBehind (closer level) cs := by
  rintro i bound ⟨rest, whole⟩
  -- The bracket that ends the closer would stand among the equals signs of the one behind.
  have last : (closer level)[level + 1]? = some ']' := by simp [closer]
  have sign : (closer level)[i + (level + 1) - cs.length]? = some '=' := by
    obtain ⟨k, inside⟩ : ∃ k, i + (level + 1) - cs.length = k + 1 :=
      ⟨i + level - cs.length, by omega⟩
    have within : k < level := by omega
    simp [inside, closer, List.getElem?_append, within]
  have same := congrArg (·[level + 1]?) whole
  have size : level + 1 < (closer level).length := by simp [closer]
  simp only [List.getElem?_append_left size, List.getElem?_drop, last,
    List.getElem?_append_right (show cs.length ≤ i + (level + 1) by omega), sign] at same
  cases same

end Literal

theorem tokensAt_stands {l : Lexeme} (stands : l.Stands) (offset : Nat) :
    tokensAt offset l.2.toList =
      [⟨l.1, ⟨offset, offset + l.2.utf8ByteSize⟩, l.2⟩,
        Token.endMarker (offset + l.2.utf8ByteSize)] := by
  obtain ⟨_, c, cs, text, whole⟩ := stands
  have size : byteLength (c :: cs) = l.2.utf8ByteSize := by rw [← text, byteLength_toList]
  have named : String.ofList (c :: cs) = l.2 := by rw [← text, String.ofList_toList]
  rw [text, tokensAt_cons, whole]
  simp [Piece.token, size, named]

theorem tokenize_return {l : Lexeme} (stands : l.Stands) :
    tokenize ("return " ++ l.2) =
      [⟨.keyword .return_, ⟨0, 6⟩, "return"⟩, ⟨l.1, ⟨7, 7 + l.2.utf8ByteSize⟩, l.2⟩,
        Token.endMarker (7 + l.2.utf8ByteSize)] := by
  have text : ("return " ++ l.2).toList =
      (Lexeme.ofKeyword .return_).2.toList ++ ' ' :: l.2.toList := by
    simp [Lexeme.ofKeyword, Keyword.text]
  have single : l.2.toList.takeWhile isBlank = [] := by
    simpa using Lexeme.takeWhile_isBlank_stands stands []
  rw [tokenize, text, Lexeme.tokensAt_stands_blank (Lexeme.stands_keyword .return_) rfl single]
  congr 1
  exact tokensAt_stands stands 7

theorem parse_return {source : String} {token : Token} {start : Span} {length : Nat}
    (tokens : tokenize source =
      [⟨.keyword .return_, start, "return"⟩, token, Token.endMarker length])
    (literal : token.kind = .string ∨ token.kind = .longString) :
    parse source = .ok [.returnStmt (start.merge token.span)
      [.string (token.span.merge token.span) token.stringValue]] := by
  rcases token with ⟨kind, span, text⟩
  simp only [parse, Parser.ofSource, tokens]
  rcases literal with rfl | rfl
  · rfl
  · rfl

/-- The text is one token of the kind, and `return` with it behind returns the string. -/
structure Denotes (kind : Kind) (text value : String) : Prop where
  token : tokenize text =
    [⟨kind, ⟨0, text.utf8ByteSize⟩, text⟩, Token.endMarker text.utf8ByteSize]
  returned : parse ("return " ++ text) =
    .ok [.returnStmt ⟨0, 7 + text.utf8ByteSize⟩ [.string ⟨7, 7 + text.utf8ByteSize⟩ value]]

theorem denotes_of_stands {l : Lexeme} {value : String} (stands : l.Stands)
    (literal : l.1 = .string ∨ l.1 = .longString)
    (read : ∀ span, (⟨l.1, span, l.2⟩ : Token).stringValue = value) :
    Denotes l.1 l.2 value where
  token := by simpa [tokenize] using tokensAt_stands stands 0
  returned := by
    have outer : max 6 (7 + l.2.utf8ByteSize) = 7 + l.2.utf8ByteSize := by omega
    rw [parse_return (tokenize_return stands) literal, read]
    simp [Span.merge, outer]

theorem denotes_quoted {mark : Char} (isMark : Literal.IsMark mark) {value : String}
    {text : List Char} (written : Literal.Written mark value.toList text) :
    Denotes .string (String.ofList (mark :: (text ++ [mark]))) value := by
  apply denotes_of_stands (Lexeme.stands_quoted isMark written) (.inl rfl)
  intro span
  simp [Token.stringValue, Literal.quotedValue, Literal.unescape_written isMark written]

theorem denotes_long {level : Nat} {cs : List Char} (closed : FirstBehind (closer level) cs) :
    Denotes .longString (String.ofList (Literal.long level cs))
      (String.ofList (Literal.dropLineBreak cs)) := by
  have stands : Lexeme.Stands (.longString, String.ofList (Literal.long level cs)) :=
    ⟨nofun, '[', (Literal.long level cs).tail, by simp [Literal.long, opener],
      Literal.bracket_long closed⟩
  apply denotes_of_stands stands (.inr rfl)
  intro span
  simp [Token.stringValue, Literal.longValue_long]

/-- Every string survives being written. Between either kind of quotes, however its line breaks are
    escaped, it is one token that denotes it. Between long brackets, behind a line break, it is so
    at every level whose closer first occurs at its end, and there is such a level; without the line
    break in front, one that the string itself starts with is lost. -/
theorem literal_denotes (value : String) :
    (∀ mark, Literal.IsMark mark →
      Literal.Written mark value.toList (Literal.body mark value.toList) ∧
      ∀ text, Literal.Written mark value.toList text →
        Denotes .string (String.ofList (mark :: (text ++ [mark]))) value) ∧
    (∀ level, FirstBehind (closer level) value.toList →
      Denotes .longString (String.ofList (Literal.long level ('\n' :: value.toList))) value ∧
      Denotes .longString (String.ofList (Literal.long level value.toList))
        (String.ofList (Literal.dropLineBreak value.toList))) ∧
    ∃ level, FirstBehind (closer level) value.toList := by
  refine ⟨?_, ?_, value.toList.length, Literal.firstBehind_of_length_le (Nat.le_refl _)⟩
  · intro mark isMark
    exact ⟨Literal.written_body mark _, fun text written => denotes_quoted isMark written⟩
  · intro level closed
    refine ⟨?_, denotes_long closed⟩
    simpa [Literal.dropLineBreak] using denotes_long (Literal.firstBehind_lineBreak closed)

/-- A string that starts with a line break and holds a quote, a backslash and a character of two
    bytes. It also holds the closer of level zero, and with the closer of level one behind it that
    one too, before its end. -/
theorem literal_denotes_brackets :
    Denotes .string "\"\\n\\\"é\\\\]]=\"" "\n\"é\\]]=" ∧
    Denotes .string "'\\\n\"é\\\\]]='" "\n\"é\\]]=" ∧
    ¬ FirstBehind (closer 0) "\n\"é\\]]=".toList ∧ ¬ FirstBehind (closer 1) "\n\"é\\]]=".toList ∧
    FirstBehind (closer 2) "\n\"é\\]]=".toList ∧
    Denotes .longString "[==[\n\n\"é\\]]=]==]" "\n\"é\\]]=" ∧
    Denotes .longString "[==[\n\"é\\]]=]==]" "\"é\\]]=" := by
  have closed : FirstBehind (closer 2) "\n\"é\\]]=".toList := by decide
  have escapes : Literal.Written '\'' "\n\"é\\]]=".toList "\\\n\"é\\\\]]=".toList :=
    .escaped (.inr (.inl rfl)) (.plain (by decide) (by decide) (by decide)
      (.plain (by decide) (by decide) (by decide) (.escaped (.inl rfl)
        (.plain (by decide) (by decide) (by decide) (.plain (by decide) (by decide) (by decide)
          (.plain (by decide) (by decide) (by decide) .nil))))))
  obtain ⟨quoted, long, _⟩ := literal_denotes "\n\"é\\]]="
  obtain ⟨byLetter, double⟩ := quoted '"' (.inl rfl)
  exact ⟨double _ byLetter, (quoted '\'' (.inr rfl)).2 _ escapes, by decide, by decide, closed,
    long 2 closed⟩

end LuaSearch
