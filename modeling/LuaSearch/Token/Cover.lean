import LuaSearch.Token.Lexer

/-!
The pieces of a source cover it. Each recogniser returns a text that stands at the front of its
input, and the piece at any place holds at least one character; so pieces follow one another
without gap or overlap, and the number of characters bounds the number of pieces.
-/
namespace LuaSearch.Lexer

theorem append_isPrefix {a b cs : List Char} (first : a <+: cs)
    (second : b <+: cs.drop a.length) : a ++ b <+: cs := by
  obtain ⟨rest, rfl⟩ := first
  simpa using second

theorem takeWhile_isPrefix (keep : Char → Bool) (cs : List Char) : cs.takeWhile keep <+: cs :=
  List.takeWhile_prefix keep

theorem sign_isPrefix (cs : List Char) : sign cs <+: cs := by
  unfold sign
  split <;> simp

theorem fraction_isPrefix (digit : Char → Bool) (cs : List Char) :
    fraction digit cs <+: cs := by
  unfold fraction
  split
  · exact List.cons_prefix_cons.mpr ⟨rfl, takeWhile_isPrefix _ _⟩
  · simp

theorem exponent_isPrefix (mark : Char → Bool) (cs : List Char) :
    exponent mark cs <+: cs := by
  unfold exponent
  split
  · simp
  · rename_i c cs
    split
    · simp only
      split
      · simp
      · exact List.cons_prefix_cons.mpr
          ⟨rfl, append_isPrefix (sign_isPrefix cs) (takeWhile_isPrefix _ _)⟩
    · simp

theorem decimal_isPrefix (cs : List Char) : decimal cs <+: cs := by
  unfold decimal
  split
  · simp
  · exact append_isPrefix
      (append_isPrefix (takeWhile_isPrefix _ _) (fraction_isPrefix _ _))
      (exponent_isPrefix _ _)

theorem pointDecimal_isPrefix (cs : List Char) : pointDecimal cs <+: cs := by
  unfold pointDecimal
  split
  · simp
  · simp
  · exact append_isPrefix (fraction_isPrefix _ _) (exponent_isPrefix _ _)

theorem hexadecimal_isPrefix (cs : List Char) : hexadecimal cs <+: cs := by
  unfold hexadecimal
  split
  · rename_i x cs
    split
    · split
      · simp
      · have tail := append_isPrefix
          (append_isPrefix (takeWhile_isPrefix isHexDigit cs)
            (fraction_isPrefix isHexDigit _))
          (exponent_isPrefix (fun c => c = 'p' || c = 'P') _)
        simpa [binaryExponent, List.cons_prefix_cons] using tail
    · simp
  · simp

theorem number_isPrefix (cs : List Char) : number cs <+: cs := by
  unfold number
  split
  · split
    · exact pointDecimal_isPrefix cs
    · exact decimal_isPrefix cs
  · exact hexadecimal_isPrefix cs

theorem quoted_isPrefix (quote : Char) (cs : List Char) : (quoted quote cs).1 <+: cs := by
  fun_induction quoted quote cs with
  | case1 => simp
  | case2 => simp
  | case3 c cs text closed inner ih =>
    simpa [inner] using ih
  | case4 => simp
  | case5 => simp
  | case6 c cs _ _ _ _ text closed inner ih =>
    simpa [inner] using ih

theorem through?_isPrefix {mark cs text : List Char} (found : through? mark cs = some text) :
    text <+: cs := by
  induction cs generalizing text with
  | nil =>
    simp only [through?] at found
    split at found
    · rename_i front
      cases found
      exact List.isPrefixOf_iff_prefix.mp front
    · simp at found
  | cons c cs ih =>
    simp only [through?] at found
    split at found
    · rename_i front
      cases found
      exact List.isPrefixOf_iff_prefix.mp front
    · obtain ⟨rest, inner, rfl⟩ := Option.map_eq_some_iff.mp found
      exact List.cons_prefix_cons.mpr ⟨rfl, ih inner⟩

theorem takeWhile_equals (cs : List Char) :
    cs.takeWhile (· = '=') = List.replicate (cs.takeWhile (· = '=')).length '=' := by
  apply List.eq_replicate_of_mem
  intro c member
  simpa using List.all_eq_true.mp List.all_takeWhile c member

theorem opener_isPrefix {cs : List Char} {level : Nat} (opens : bracketLevel? cs = some level) :
    opener level <+: cs := by
  unfold bracketLevel? at opens
  split at opens
  · rename_i cs
    simp only at opens
    split at opens
    · rename_i rest eq
      cases opens
      refine List.cons_prefix_cons.mpr ⟨rfl, ?_⟩
      rw [← takeWhile_equals]
      apply append_isPrefix (takeWhile_isPrefix _ _)
      rw [eq]
      simp
    · simp at opens
  · simp at opens

theorem bracketed_isPrefix (kind : Option Kind) {lead cs : List Char} {level : Nat}
    (front : lead ++ opener level <+: cs) : (bracketed kind lead level cs).text <+: cs := by
  unfold bracketed
  simp only
  split
  · rename_i text found
    exact append_isPrefix front (through?_isPrefix found)
  · exact front

theorem word_isPrefix (cs : List Char) : (word cs).text <+: cs := by
  unfold word
  simp only
  split <;> exact takeWhile_isPrefix _ _

theorem symbol_isPrefix (c : Char) (cs : List Char) : (symbol c cs).text <+: c :: cs := by
  unfold symbol
  split
  · rename_i s found
    have front := List.find?_some found
    exact List.isPrefixOf_iff_prefix.mp front
  · exact List.cons_prefix_cons.mpr ⟨rfl, List.nil_prefix⟩

theorem bracket_isPrefix (cs : List Char) : (bracket ('[' :: cs)).text <+: '[' :: cs := by
  unfold bracket
  split
  · rename_i level opens
    exact bracketed_isPrefix _ (opener_isPrefix opens)
  · split
    · exact List.cons_prefix_cons.mpr ⟨rfl, List.nil_prefix⟩
    · exact List.cons_prefix_cons.mpr ⟨rfl, takeWhile_isPrefix _ _⟩

theorem comment_isPrefix (cs : List Char) :
    (comment ('-' :: '-' :: cs)).text <+: '-' :: '-' :: cs := by
  unfold comment
  split
  · rename_i level opens
    apply bracketed_isPrefix
    exact append_isPrefix ⟨cs, rfl⟩ (opener_isPrefix opens)
  · exact takeWhile_isPrefix _ _

theorem piece_isPrefix (c : Char) (cs : List Char) : (piece c cs).text <+: c :: cs := by
  unfold piece
  split
  · exact List.cons_prefix_cons.mpr ⟨rfl, takeWhile_isPrefix _ _⟩
  split
  · exact word_isPrefix _
  split
  · exact List.cons_prefix_cons.mpr ⟨rfl, quoted_isPrefix c cs⟩
  split
  · rename_i bracket
    subst bracket
    exact bracket_isPrefix cs
  split
  · exact takeWhile_isPrefix _ _
  split
  · rename_i dashes
    simp only [Bool.and_eq_true, decide_eq_true_eq] at dashes
    obtain ⟨rfl, second⟩ := dashes
    obtain ⟨rest, rfl⟩ : ∃ rest, cs = '-' :: rest := by
      cases cs with
      | nil => simp at second
      | cons d rest => exact ⟨rest, by simpa using second⟩
    exact comment_isPrefix rest
  · split
    · exact symbol_isPrefix c cs
    · exact number_isPrefix _

theorem bracketed_ne_nil (kind : Option Kind) (lead cs : List Char) (level : Nat) :
    (bracketed kind lead level cs).text ≠ [] := by
  unfold bracketed
  simp only
  split <;> simp [opener, Piece.token]

theorem symbol_text_ne_nil (s : Symbol) : s.text.toList ≠ [] := by
  cases s <;> decide

theorem piece_ne_nil (c : Char) (cs : List Char) : (piece c cs).text ≠ [] := by
  unfold piece
  split
  · simp [Piece.gap]
  split
  · rename_i starts
    have keeps : continuesWord c = true := by simp [continuesWord, starts]
    unfold word
    simp only
    split <;> simp [Piece.token, keeps]
  split
  · simp [Piece.token]
  split
  · unfold bracket
    split
    · apply bracketed_ne_nil
    · split <;> simp [Piece.token]
  split
  · rename_i mark
    simp only [Bool.and_eq_true, decide_eq_true_eq] at mark
    simp [Piece.gap, line, mark.1]
  split
  · rename_i dashes
    simp only [Bool.and_eq_true, decide_eq_true_eq] at dashes
    unfold comment
    split
    · apply bracketed_ne_nil
    · simp [Piece.gap, line, dashes.1]
  · split
    · unfold symbol
      split
      · exact symbol_text_ne_nil _
      · simp [Piece.token]
    · rename_i text notNil
      simpa [Piece.token] using notNil

theorem drop_piece_length_lt (c : Char) (cs : List Char) :
    ((c :: cs).drop (piece c cs).text.length).length < (c :: cs).length := by
  have some := List.length_pos_iff.mpr (piece_ne_nil c cs)
  simp only [List.length_drop, List.length_cons]
  omega

theorem tokensFrom_eq_of_le {fuel more offset : Nat} {cs : List Char}
    (enough : cs.length ≤ fuel) (order : fuel ≤ more) :
    tokensFrom more offset cs = tokensFrom fuel offset cs := by
  induction fuel generalizing more offset cs with
  | zero =>
    obtain rfl := List.length_eq_zero_iff.mp (Nat.le_zero.mp enough)
    cases more <;> rfl
  | succ fuel ih =>
    cases cs with
    | nil => cases more <;> rfl
    | cons c cs =>
      obtain ⟨more, rfl⟩ : ∃ n, more = n + 1 := ⟨more - 1, by omega⟩
      have shorter := drop_piece_length_lt c cs
      simp only [tokensFrom]
      rw [ih (by omega) (by omega)]

@[simp] theorem tokensAt_nil (offset : Nat) : tokensAt offset [] = [Token.endMarker offset] := rfl

/-- The tokens of a text are that of its first piece, if it has one, and those of the rest. -/
theorem tokensAt_cons (offset : Nat) (c : Char) (cs : List Char) :
    tokensAt offset (c :: cs) =
      let next := piece c cs
      let stop := offset + byteLength next.text
      let rest := tokensAt stop ((c :: cs).drop next.text.length)
      match next.kind with
      | some kind => ⟨kind, ⟨offset, stop⟩, String.ofList next.text⟩ :: rest
      | none => rest := by
  have shorter := drop_piece_length_lt c cs
  have enough : ((c :: cs).drop (piece c cs).text.length).length ≤ cs.length :=
    Nat.le_of_lt_succ shorter
  have same (stop : Nat) := @tokensFrom_eq_of_le _ _ stop _ (Nat.le_refl _) enough
  rcases given : (piece c cs).kind with _ | kind <;>
    simp only [tokensAt, List.length_cons, tokensFrom, given, same]

end LuaSearch.Lexer
