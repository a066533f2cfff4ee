import LuaSearch.Proofs.Span
import LuaSearch.Proofs.Token.Stop

/-!
The tokens of a source and the gaps between them tile it. A gap is made of runs of blanks, lines
that start with `#!`, line comments and closed long comments, and of nothing else; so a byte that
is in no token is in a gap, and no byte is in two of them.
-/
namespace LuaSearch

namespace Lexer

def EndsLine (rest : List Char) : Prop := ∀ c ∈ rest.head?, c = '\n'

/-- A text that leaves no token, in front of the rest of the source. -/
inductive Skipped (rest : List Char) : List Char → Prop where
  | blanks {text : List Char} (some : text ≠ []) (blank : ∀ c ∈ text, isBlank c)
      (ended : ∀ c ∈ rest.head?, isBlank c = false) : Skipped rest text
  | hashBang {text : List Char} (noBreak : '\n' ∉ text) (ended : EndsLine rest) :
      Skipped rest ('#' :: '!' :: text)
  | lineComment {text : List Char} (noBreak : '\n' ∉ text) (ended : EndsLine rest)
      (short : bracketLevel? text = none) : Skipped rest ('-' :: '-' :: text)
  | longComment {level : Nat} {body : List Char} (closed : FirstBehind (closer level) body) :
      Skipped rest ('-' :: '-' :: (opener level ++ (body ++ closer level)))

inductive Gap (rest : List Char) : List Char → Prop where
  | nil : Gap rest []
  | cons {text more : List Char} (first : Skipped (more ++ rest) text) (later : Gap rest more) :
      Gap rest (text ++ more)

theorem line_noBreak (cs : List Char) : '\n' ∉ line cs := by
  intro member
  have kept := List.all_eq_true.mp (List.all_takeWhile (l := cs) (p := (· ≠ '\n'))) _ member
  simp at kept

theorem head?_drop_takeWhile (keep : Char → Bool) (cs : List Char) :
    ∀ c ∈ (cs.drop (cs.takeWhile keep).length).head?, keep c = false := by
  induction cs with
  | nil => simp
  | cons d cs ih =>
    by_cases kept : keep d = true
    · simpa [List.takeWhile_cons, kept] using ih
    · simp [kept]

theorem line_endsLine (cs : List Char) : EndsLine (cs.drop (line cs).length) := by
  intro c member
  have stopped := head?_drop_takeWhile (· ≠ '\n') cs c member
  simpa using stopped

theorem bracketLevel?_line {cs : List Char} (short : bracketLevel? cs = none) :
    bracketLevel? (line cs) = none := by
  cases opens : bracketLevel? (line cs) with
  | none => rfl
  | some level =>
    obtain ⟨rest, whole⟩ := takeWhile_isPrefix (· ≠ '\n') cs
    have longer := bracketLevel?_append opens rest
    rw [line, whole, short] at longer
    cases longer

inductive Cut (c : Char) (cs : List Char) : Piece → Prop where
  | blanks (blank : isBlank c = true) : Cut c cs (.gap (c :: cs.takeWhile isBlank))
  | hashBang {rest : List Char} (whole : c :: cs = '#' :: '!' :: rest) :
      Cut c cs (.gap ('#' :: '!' :: line rest))
  | lineComment {rest : List Char} (whole : c :: cs = '-' :: '-' :: rest)
      (short : bracketLevel? rest = none) : Cut c cs (.gap ('-' :: '-' :: line rest))
  | longComment {level : Nat} {body : List Char} (closed : FirstBehind (closer level) body) :
      Cut c cs (.gap ('-' :: '-' :: (opener level ++ (body ++ closer level))))
  | keyword {word : Keyword}
      (known : Keyword.ofText? (String.ofList ((c :: cs).takeWhile continuesWord)) = some word) :
      Cut c cs (.token (.keyword word) ((c :: cs).takeWhile continuesWord))
  | ident
      (unknown : Keyword.ofText? (String.ofList ((c :: cs).takeWhile continuesWord)) = none) :
      Cut c cs (.token .ident ((c :: cs).takeWhile continuesWord))
  | string {text : List Char} (mark : Literal.IsMark c) (closed : quoted c cs = (text, true)) :
      Cut c cs (.token .string (c :: text))
  | longString {level : Nat} {body : List Char} (closed : FirstBehind (closer level) body) :
      Cut c cs (.token .longString (opener level ++ (body ++ closer level)))
  | number : Cut c cs (.token .number (Lexer.number (c :: cs)))
  | symbol (sign : Symbol) : Cut c cs (.token (.symbol sign) sign.text.toList)
  | error (text : List Char) : Cut c cs (.token .error text)

theorem bracket_cut (c : Char) (cs : List Char) : Cut c cs (bracket (c :: cs)) := by
  unfold bracket
  split
  · unfold bracketed
    simp only
    split
    · rename_i found
      obtain ⟨body, rfl, closed⟩ := firstBehind_of_through? found
      exact .longString closed
    · exact .error _
  · split
    · exact .symbol .lbracket
    · exact .error _

theorem comment_cut (rest : List Char) : Cut '-' ('-' :: rest) (comment ('-' :: '-' :: rest)) := by
  unfold comment
  split
  · unfold bracketed
    simp only
    split
    · rename_i found
      obtain ⟨body, rfl, closed⟩ := firstBehind_of_through? found
      exact .longComment closed
    · exact .error _
  · rename_i short
    exact .lineComment rfl short

theorem piece_cut (c : Char) (cs : List Char) : Cut c cs (piece c cs) := by
  unfold piece
  split
  · rename_i blank
    exact .blanks blank
  split
  · unfold word
    simp only
    split
    · rename_i known
      exact .keyword known
    · rename_i unknown
      exact .ident unknown
  split
  · rename_i mark
    simp only [Bool.or_eq_true, decide_eq_true_eq] at mark
    rcases closed : quoted c cs with ⟨text, _ | _⟩
    · exact .error _
    · exact .string mark closed
  split
  · exact bracket_cut c cs
  split
  · rename_i mark
    simp only [Bool.and_eq_true, decide_eq_true_eq] at mark
    obtain ⟨rfl, second⟩ := mark
    obtain ⟨rest, rfl⟩ : ∃ rest, cs = '!' :: rest := List.head?_eq_some_iff.mp second
    exact .hashBang rfl
  split
  · rename_i dashes
    simp only [Bool.and_eq_true, decide_eq_true_eq] at dashes
    obtain ⟨rfl, second⟩ := dashes
    obtain ⟨rest, rfl⟩ : ∃ rest, cs = '-' :: rest := List.head?_eq_some_iff.mp second
    exact comment_cut rest
  split
  · unfold symbol
    split
    · exact .symbol _
    · exact .error _
  · exact .number

theorem piece_skipped {c : Char} {cs text : List Char} (gap : piece c cs = .gap text) :
    Skipped ((c :: cs).drop text.length) text := by
  have cut := piece_cut c cs
  rw [gap] at cut
  cases cut with
  | blanks blank =>
    refine .blanks (List.cons_ne_nil _ _) ?_ (head?_drop_takeWhile isBlank cs)
    intro d member
    rcases List.mem_cons.mp member with rfl | later
    · exact blank
    · exact List.all_eq_true.mp List.all_takeWhile d later
  | hashBang whole =>
    rw [whole]
    exact .hashBang (line_noBreak _) (line_endsLine _)
  | lineComment whole short =>
    rw [whole]
    exact .lineComment (line_noBreak _) (line_endsLine _) (bracketLevel?_line short)
  | longComment closed => exact .longComment closed

theorem piece_kind_ne_eof (c : Char) (cs : List Char) : (piece c cs).kind ≠ some .eof := by
  have cut := piece_cut c cs
  generalize piece c cs = found at cut ⊢
  cases cut <;> nofun

/-- The tokens are those of the text from the offset on, with a gap in front of each. -/
inductive Tiles : Nat → List Char → List Token → Prop where
  | last {offset : Nat} {gap : List Char} (skipped : Gap [] gap) :
      Tiles offset gap [Token.endMarker (offset + byteLength gap)]
  | token {offset : Nat} {gap text rest : List Char} {kind : Kind} {tokens : List Token}
      (skipped : Gap (text ++ rest) gap) (some : text ≠ []) (notLast : kind ≠ .eof)
      (later : Tiles (offset + byteLength gap + byteLength text) rest tokens) :
      Tiles offset (gap ++ (text ++ rest))
        (⟨kind, ⟨offset + byteLength gap, offset + byteLength gap + byteLength text⟩,
          String.ofList text⟩ :: tokens)

theorem Tiles.skip {offset : Nat} {text rest : List Char} {tokens : List Token}
    (skipped : Skipped rest text) (tiles : Tiles (offset + byteLength text) rest tokens) :
    Tiles offset (text ++ rest) tokens := by
  cases tiles with
  | last gap =>
    have longer := @Tiles.last offset _ (Gap.cons (by simpa using skipped) gap)
    simpa [byteLength_append, Nat.add_assoc] using longer
  | token gap some notLast later =>
    have longer := @Tiles.token offset _ _ _ _ _ (Gap.cons skipped gap) some notLast
      (by simpa [byteLength_append, Nat.add_assoc] using later)
    simpa [byteLength_append, Nat.add_assoc] using longer

theorem tokensAt_tiles (offset : Nat) (cs : List Char) :
    Tiles offset cs (tokensAt offset cs) := by
  induction size : cs.length using Nat.strongRecOn generalizing offset cs with
  | ind size ih =>
    cases cs with
    | nil => exact .last .nil
    | cons c cs =>
      have shorter := drop_piece_length_lt c cs
      have rest := ih _ (size ▸ shorter) (offset + byteLength (piece c cs).text) _ rfl
      have whole : (piece c cs).text ++ (c :: cs).drop (piece c cs).text.length = c :: cs :=
        List.prefix_iff_eq_append.mp (piece_isPrefix c cs)
      rw [tokensAt_cons]
      rcases given : piece c cs with ⟨_ | kind, text⟩
      · rw [given] at rest whole
        have skipped := piece_skipped given
        rw [← whole]
        simpa [whole] using Tiles.skip skipped rest
      · have notLast : kind ≠ .eof := by
          rintro rfl
          exact piece_kind_ne_eof c cs (by rw [given])
        have some : text ≠ [] := by
          have nonempty := piece_ne_nil c cs
          rwa [given] at nonempty
        rw [given] at rest whole
        have tiles := @Tiles.token offset _ _ _ _ _ Gap.nil some notLast
          (by simpa [byteLength] using rest)
        simpa [byteLength, whole] using tiles

theorem piece_of_token {offset : Nat} {cs : List Char} {token : Token}
    (member : token ∈ tokensAt offset cs) (notLast : token.kind ≠ .eof) :
    ∃ before c rest, cs = before ++ c :: rest ∧ token.span.start = offset + byteLength before ∧
      piece c rest = ⟨some token.kind, token.text.toList⟩ := by
  induction size : cs.length using Nat.strongRecOn generalizing offset cs with
  | ind size ih =>
    cases cs with
    | nil =>
      rw [tokensAt_nil] at member
      obtain rfl := List.mem_singleton.mp member
      exact absurd rfl notLast
    | cons c cs =>
      have shorter := drop_piece_length_lt c cs
      have whole : (piece c cs).text ++ (c :: cs).drop (piece c cs).text.length = c :: cs :=
        List.prefix_iff_eq_append.mp (piece_isPrefix c cs)
      have behind (later : token ∈ tokensAt (offset + byteLength (piece c cs).text)
          ((c :: cs).drop (piece c cs).text.length)) :
          ∃ before d rest, c :: cs = before ++ d :: rest ∧
            token.span.start = offset + byteLength before ∧
            piece d rest = ⟨some token.kind, token.text.toList⟩ := by
        obtain ⟨before, d, rest, split, start, read⟩ := ih _ (size ▸ shorter) later rfl
        refine ⟨(piece c cs).text ++ before, d, rest, ?_, ?_, read⟩
        · rw [List.append_assoc, ← split, whole]
        · rw [start, byteLength_append, Nat.add_assoc]
      rw [tokensAt_cons] at member
      rcases given : piece c cs with ⟨_ | kind, text⟩
      · exact behind (by simpa only [given] using member)
      · simp only [given] at member
        rcases List.mem_cons.mp member with rfl | later
        · exact ⟨[], c, cs, rfl, rfl, by simp [given]⟩
        · exact behind (by simpa only [given] using later)

end Lexer

open Lexer

def Span.holds (s : Span) (byte : Nat) : Bool := s.start ≤ byte && byte < s.stop

def gapsFrom : Nat → List Token → List Span
  | _, [] => []
  | offset, token :: tokens => ⟨offset, token.span.start⟩ :: gapsFrom token.span.stop tokens

def gaps (source : String) : List Span := gapsFrom 0 (tokenize source)

def Span.IsGap (source : String) (s : Span) : Prop :=
  ∃ before text after, source.toList = before ++ (text ++ after) ∧ s.start = byteLength before ∧
    s.stop = byteLength before + byteLength text ∧ Gap after text

namespace Lexer.Tiles

variable {offset : Nat} {cs : List Char} {tokens : List Token}

theorem ends (tiles : Tiles offset cs tokens) :
    ∃ front, tokens = front ++ [Token.endMarker (offset + byteLength cs)] ∧
      ∀ token ∈ front, token.kind ≠ .eof ∧ token.span.start < token.span.stop := by
  induction tiles with
  | last skipped => exact ⟨[], rfl, by simp⟩
  | @token offset gap text rest kind tokens skipped some notLast later ih =>
    obtain ⟨front, rfl, each⟩ := ih
    have positive := byteLength_pos some
    have total : offset + byteLength (gap ++ (text ++ rest)) =
        offset + byteLength gap + byteLength text + byteLength rest := by
      simp only [byteLength_append]
      omega
    refine ⟨_ :: front, by rw [total]; rfl, List.forall_mem_cons.mpr ⟨⟨notLast, ?_⟩, each⟩⟩
    simp only
    omega

theorem shows (tiles : Tiles offset cs tokens) {source : String} {before : List Char}
    (whole : source.toList = before ++ cs) (start : byteLength before = offset) :
    ∀ token ∈ tokens, token.span.Shows source token.text.toList := by
  induction tiles generalizing before with
  | @last offset gap skipped =>
    rintro _ (_ | ⟨_, ⟨⟩⟩)
    refine ⟨before ++ gap, [], by simpa [Token.endMarker] using whole, ?_, ?_⟩ <;>
      simp [Token.endMarker, byteLength_append, start, byteLength]
  | @token offset gap text rest kind tokens skipped some notLast later ih =>
    refine List.forall_mem_cons.mpr ⟨?_, ?_⟩
    · refine ⟨before ++ gap, rest, by simpa using whole, ?_, ?_⟩ <;>
        simp [byteLength_append, start]
    · apply @ih (before ++ (gap ++ text))
      · simpa using whole
      · simp [byteLength_append, start, Nat.add_assoc]

theorem start_le (tiles : Tiles offset cs tokens) :
    ∀ token ∈ tokens, offset ≤ token.span.start := by
  induction tiles with
  | last skipped => simp [Token.endMarker]
  | token skipped some notLast later ih =>
    refine List.forall_mem_cons.mpr ⟨Nat.le_add_right _ _, ?_⟩
    intro token member
    have behind := ih token member
    omega

theorem ordered (tiles : Tiles offset cs tokens) :
    tokens.Pairwise fun a b => a.span.stop ≤ b.span.start := by
  induction tiles with
  | last skipped => exact List.pairwise_singleton _ _
  | token skipped some notLast later ih => exact List.pairwise_cons.mpr ⟨later.start_le, ih⟩

theorem isGap (tiles : Tiles offset cs tokens) {source : String} {before : List Char}
    (whole : source.toList = before ++ cs) (start : byteLength before = offset) :
    ∀ gap ∈ gapsFrom offset tokens, gap.IsGap source := by
  induction tiles generalizing before with
  | @last offset gap skipped =>
    rintro _ (_ | ⟨_, ⟨⟩⟩)
    exact ⟨before, gap, [], by simpa using whole, start.symm, by simp [start, Token.endMarker],
      skipped⟩
  | @token offset gap text rest kind tokens skipped some notLast later ih =>
    refine List.forall_mem_cons.mpr ⟨?_, ?_⟩
    · exact ⟨before, gap, text ++ rest, whole, start.symm, by simp [start], skipped⟩
    · apply @ih (before ++ (gap ++ text))
      · simpa using whole
      · simp [byteLength_append, start, Nat.add_assoc]

/-- A byte of the text is in one of the tokens and gaps, and a byte outside it is in none. -/
theorem count (tiles : Tiles offset cs tokens) (byte : Nat) :
    (tokens.map Token.span ++ gapsFrom offset tokens).countP (·.holds byte) =
      if offset ≤ byte ∧ byte < offset + byteLength cs then 1 else 0 := by
  induction tiles with
  | last skipped =>
    simp [gapsFrom, Token.endMarker, Span.holds]
  | @token offset gap text rest kind tokens skipped some notLast later ih =>
    simp only [List.map_cons, gapsFrom, List.cons_append, List.countP_cons, List.countP_append,
      byteLength_append, Span.holds, Bool.and_eq_true, decide_eq_true_eq] at ih ⊢
    split at ih <;> repeat' split
    all_goals omega

end Lexer.Tiles

theorem tokenize_tiles (source : String) : Tiles 0 source.toList (tokenize source) :=
  tokensAt_tiles 0 source.toList

theorem tokenize_shows {source : String} {token : Token} (member : token ∈ tokenize source) :
    token.span.Shows source token.text.toList :=
  (tokenize_tiles source).shows (List.nil_append _).symm rfl token member

/-- The tokens end with one end marker, at the end of the source. The others hold at least one
    character each, stand in the source where their spans say, and follow one another. What is left
    between them are gaps, and every byte of the source is in exactly one token or gap. -/
theorem tokens_tile_source (source : String) :
    (∃ front, tokenize source = front ++ [Token.endMarker source.utf8ByteSize] ∧
      ∀ token ∈ front, token.kind ≠ .eof ∧ token.span.start < token.span.stop) ∧
    (∀ token ∈ tokenize source,
      token.span.Fits source ∧ token.span.text? source = some token.text) ∧
    ((tokenize source).Pairwise fun a b => a.span.stop ≤ b.span.start) ∧
    (∀ gap ∈ gaps source, gap.IsGap source) ∧
    ∀ byte, ((tokenize source).map Token.span ++ gaps source).countP (·.holds byte) =
      if byte < source.utf8ByteSize then 1 else 0 := by
  have tiles := tokenize_tiles source
  refine ⟨?_, ?_, tiles.ordered, tiles.isGap (List.nil_append _).symm rfl, ?_⟩
  · simpa [byteLength_toList] using tiles.ends
  · intro token member
    have shown := tokenize_shows member
    exact ⟨shown.fits, by rw [shown.text?, String.ofList_toList]⟩
  · intro byte
    simpa [byteLength_toList, gaps] using tiles.count byte

/-- Two names, the first behind a line that is skipped and a blank, the second between a long
    comment with a character of two bytes and a line comment at the end of the source. -/
theorem tokens_tile_source_comments :
    (tokenize "#!x\n a--[=[é]]]=]b --c").map Token.span = [⟨5, 6⟩, ⟨18, 19⟩, ⟨23, 23⟩] ∧
    gaps "#!x\n a--[=[é]]]=]b --c" = [⟨0, 5⟩, ⟨6, 18⟩, ⟨19, 23⟩] ∧
    (⟨6, 18⟩ : Span).IsGap "#!x\n a--[=[é]]]=]b --c" := by
  have between : gaps "#!x\n a--[=[é]]]=]b --c" = [⟨0, 5⟩, ⟨6, 18⟩, ⟨19, 23⟩] := rfl
  obtain ⟨_, _, _, skipped, _⟩ := tokens_tile_source "#!x\n a--[=[é]]]=]b --c"
  exact ⟨rfl, between, skipped _ (by rw [between]; decide)⟩

end LuaSearch
