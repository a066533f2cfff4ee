import LuaSearch.Proofs.Text.Quote
import LuaSearch.Token.Cover

/-!
A blank ends whatever stands before it. Each recogniser takes from a text with a blank behind it
what it takes from the text alone, and what is closed, a string or a long bracket, does not look
past its end; so a text that is one token stays that token with a blank behind it.
-/
namespace LuaSearch.Lexer

theorem takeWhile_stop {keep : Char → Bool} {blank : Char} (stop : keep blank = false)
    (a rest : List Char) :
    (a ++ blank :: rest).takeWhile keep = a.takeWhile keep := by
  induction a with
  | nil => simp [stop]
  | cons c a ih => simp only [List.cons_append, List.takeWhile_cons, ih]

theorem drop_front {front a : List Char} (isFront : front <+: a) (rest : List Char) :
    (a ++ rest).drop front.length = a.drop front.length ++ rest :=
  List.drop_append_of_le_length isFront.length_le

theorem isPrefixOf_stop {mark : List Char} {blank : Char} (absent : blank ∉ mark)
    (a rest : List Char) : mark.isPrefixOf (a ++ blank :: rest) = mark.isPrefixOf a := by
  induction mark generalizing a with
  | nil => simp
  | cons m mark ih =>
    obtain ⟨other, absent⟩ := not_or.mp (absent ∘ List.mem_cons.mpr)
    cases a with
    | nil => simp [List.isPrefixOf, Ne.symm other]
    | cons c a => simp [List.isPrefixOf, ih absent]

section Blank

variable {blank : Char} (isBlank : isBlank blank)

include isBlank

theorem blank_cases :
    blank = ' ' ∨ blank = '\t' ∨ blank = '\r' ∨ blank = '\n' ∨ blank = '\x0c' := by
  simpa [Lexer.isBlank, or_assoc] using isBlank

theorem blank_ne {d : Char} (plain : Lexer.isBlank d = false) : blank ≠ d := by
  rintro rfl
  rw [isBlank] at plain
  contradiction

theorem not_isHexDigit_blank : isHexDigit blank = false := by
  rcases blank_cases isBlank with rfl | rfl | rfl | rfl | rfl <;> rfl

theorem not_isDigit_blank : isDigit blank = false := by
  rcases blank_cases isBlank with rfl | rfl | rfl | rfl | rfl <;> rfl

theorem not_continuesWord_blank : continuesWord blank = false := by
  rcases blank_cases isBlank with rfl | rfl | rfl | rfl | rfl <;> rfl

variable (a rest : List Char)

theorem head?_stop {d : Char} (plain : Lexer.isBlank d = false) :
    ((a ++ blank :: rest).head? = some d) = (a.head? = some d) := by
  cases a <;> simp [blank_ne isBlank plain]

theorem sign_stop : sign (a ++ blank :: rest) = sign a := by
  cases a with
  | nil => simp [sign, blank_ne isBlank (d := '+') rfl, blank_ne isBlank (d := '-') rfl]
  | cons c a =>
    by_cases plus : c = '+'
    · simp [sign, plus]
    · by_cases minus : c = '-' <;> simp [sign, plus, minus]

theorem fraction_stop {digit : Char → Bool} (stop : digit blank = false) :
    fraction digit (a ++ blank :: rest) = fraction digit a := by
  cases a with
  | nil => simp [fraction, blank_ne isBlank (d := '.') rfl]
  | cons c a => by_cases point : c = '.' <;> simp [fraction, point, takeWhile_stop stop]

theorem exponent_stop {mark : Char → Bool} (stop : mark blank = false) :
    exponent mark (a ++ blank :: rest) = exponent mark a := by
  cases a with
  | nil => simp [exponent, stop]
  | cons c a =>
    simp only [List.cons_append, exponent, sign_stop isBlank, drop_front (sign_isPrefix a),
      takeWhile_stop (not_isDigit_blank isBlank)]

theorem decimalExponent_stop :
    decimalExponent (a ++ blank :: rest) = decimalExponent a := by
  apply exponent_stop isBlank
  rcases blank_cases isBlank with rfl | rfl | rfl | rfl | rfl <;> rfl

theorem binaryExponent_stop : binaryExponent (a ++ blank :: rest) = binaryExponent a := by
  apply exponent_stop isBlank
  rcases blank_cases isBlank with rfl | rfl | rfl | rfl | rfl <;> rfl

theorem decimal_stop : decimal (a ++ blank :: rest) = decimal a := by
  have digit := not_isDigit_blank isBlank
  have whole := takeWhile_isPrefix isDigit a
  simp only [decimal, takeWhile_stop digit]
  generalize a.takeWhile isDigit = digits at whole ⊢
  cases digits with
  | nil => rfl
  | cons d digits =>
    have mantissa := append_isPrefix whole (fraction_isPrefix isDigit _)
    simp only [drop_front whole, fraction_stop isBlank _ _ digit, drop_front mantissa,
      decimalExponent_stop isBlank]

theorem pointDecimal_stop : pointDecimal (a ++ blank :: rest) = pointDecimal a := by
  have mantissa := fraction_isPrefix isDigit a
  simp only [pointDecimal, fraction_stop isBlank _ _ (not_isDigit_blank isBlank)]
  generalize fraction isDigit a = front at mantissa ⊢
  match front with
  | [] | [_] => rfl
  | point :: d :: digits => simp only [drop_front mantissa, decimalExponent_stop isBlank]

theorem hexadecimal_stop : hexadecimal (a ++ blank :: rest) = hexadecimal a := by
  have digit := not_isHexDigit_blank isBlank
  match a with
  | [] => simp [hexadecimal, blank_ne isBlank (d := '0') rfl]
  | [c] =>
    have small := blank_ne isBlank (d := 'x') rfl
    have large := blank_ne isBlank (d := 'X') rfl
    by_cases zero : c = '0' <;> simp [hexadecimal, zero, small, large]
  | c :: x :: a =>
    by_cases zero : c = '0'
    · have whole := takeWhile_isPrefix isHexDigit a
      simp only [zero, List.cons_append, hexadecimal, takeWhile_stop digit]
      generalize a.takeWhile isHexDigit = digits at whole ⊢
      cases digits with
      | nil => rfl
      | cons d digits =>
        have mantissa := append_isPrefix whole (fraction_isPrefix isHexDigit _)
        simp only [drop_front whole, fraction_stop isBlank _ _ digit, drop_front mantissa,
          binaryExponent_stop isBlank]
    · simp [hexadecimal, zero]

theorem number_stop : number (a ++ blank :: rest) = number a := by
  simp only [number, hexadecimal_stop isBlank, decimal_stop isBlank, pointDecimal_stop isBlank]

theorem word_stop : word (a ++ blank :: rest) = word a := by
  simp only [word, takeWhile_stop (not_continuesWord_blank isBlank)]

theorem blank_not_mem_symbol (s : Symbol) : blank ∉ s.text.toList := by
  intro member
  have plain : s.text.toList.all (fun c => !Lexer.isBlank c) = true := by cases s <;> rfl
  simpa [isBlank] using List.all_eq_true.mp plain blank member

theorem symbol_stop (c : Char) :
    symbol c (a ++ blank :: rest) = symbol c a := by
  have front (s : Symbol) := isPrefixOf_stop (blank_not_mem_symbol isBlank s) (c :: a) rest
  simp only [List.cons_append] at front
  simp only [symbol, front]

theorem bracketLevel?_stop : bracketLevel? ('[' :: blank :: rest) = none := by
  simp [bracketLevel?, blank_ne isBlank (d := '=') rfl, blank_ne isBlank (d := '[') rfl]

end Blank

theorem quoted_append {mark : Char} {cs : List Char} (closed : (quoted mark cs).2 = true)
    (rest : List Char) : quoted mark (cs ++ rest) = quoted mark cs := by
  have plain {c : Char} {cs : List Char} (last : c = '\\' → cs = [] → False)
      (pair : ∀ d ds, c = '\\' → cs = d :: ds → False) : c ≠ '\\' := by
    intro backslash
    cases cs with
    | nil => exact last backslash rfl
    | cons d ds => exact pair d ds backslash rfl
  fun_induction quoted mark cs with
  | case1 => simp at closed
  | case2 => simp at closed
  | case3 c cs text _ inner ih =>
    simp only [List.cons_append, quoted_backslash, ih (by rw [inner]; exact closed), inner]
  | case4 cs last pair =>
    have backslash := plain last pair
    rw [List.cons_append, quoted]
    · simp
    · intro given
      exact absurd given backslash
    · intro d ds given
      exact absurd given backslash
  | case5 => simp at closed
  | case6 c cs last pair other newline text _ inner ih =>
    rw [List.cons_append, quoted_plain (plain last pair) newline other,
      ih (by rw [inner]; exact closed), inner]

theorem length_le_of_through? {mark cs text : List Char} (found : through? mark cs = some text) :
    mark.length ≤ text.length := by
  fun_induction through? mark cs generalizing text with
  | case1 | case3 =>
    cases found
    exact Nat.le_refl _
  | case2 => cases found
  | case4 c cs _ ih =>
    obtain ⟨rest, inner, rfl⟩ := Option.map_eq_some_iff.mp found
    exact Nat.le_succ_of_le (ih inner)

theorem through?_append {mark cs text : List Char} (found : through? mark cs = some text)
    (rest : List Char) : through? mark (cs ++ rest) = some text := by
  induction cs generalizing text with
  | nil =>
    obtain rfl : text = [] := List.prefix_nil.mp (through?_isPrefix found)
    obtain rfl : mark = [] := by simpa using length_le_of_through? found
    cases rest <;> rfl
  | cons c cs ih =>
    simp only [through?] at found
    split at found
    · rename_i front
      have longer : mark.isPrefixOf (c :: (cs ++ rest)) = true := by
        rw [List.isPrefixOf_iff_prefix] at front ⊢
        exact front.trans (List.prefix_append (c :: cs) rest)
      simp [through?, longer, found]
    · rename_i absent
      obtain ⟨text, inner, rfl⟩ := Option.map_eq_some_iff.mp found
      have short : mark.length ≤ (c :: cs).length := by
        have inside := (through?_isPrefix inner).length_le
        have whole := length_le_of_through? inner
        simp only [List.length_cons]
        omega
      have still : ¬ mark.isPrefixOf (c :: (cs ++ rest)) = true := by
        rw [List.isPrefixOf_iff_prefix] at absent ⊢
        intro front
        have inside := List.prefix_append (c :: cs) rest
        exact absent (List.prefix_of_prefix_length_le front inside short)
      simp [through?, still, ih inner]

/-- The mark stands behind the text and nowhere before, not even with its own front in the text. -/
def FirstBehind (mark body : List Char) : Prop :=
  ∀ i < body.length, ¬ mark <+: (body ++ mark).drop i

instance (mark body : List Char) : Decidable (FirstBehind mark body) :=
  inferInstanceAs (Decidable (∀ i < body.length, ¬ mark <+: (body ++ mark).drop i))

theorem through?_of_firstBehind {mark body : List Char} (first : FirstBehind mark body) :
    through? mark (body ++ mark) = some (body ++ mark) := by
  induction body with
  | nil => cases mark <;> simp [through?]
  | cons c body ih =>
    have here : ¬ mark <+: c :: (body ++ mark) := first 0 (by simp)
    have behind : FirstBehind mark body := by
      intro i bound
      exact first (i + 1) (by simpa using bound)
    simp only [List.cons_append, through?, List.isPrefixOf_iff_prefix, if_neg here, ih behind,
      Option.map_some]

theorem firstBehind_of_through? {mark cs text : List Char} (found : through? mark cs = some text) :
    ∃ body, text = body ++ mark ∧ FirstBehind mark body := by
  induction cs generalizing text with
  | nil =>
    simp only [through?] at found
    split at found
    · cases found
      exact ⟨[], rfl, by simp [FirstBehind]⟩
    · cases found
  | cons c cs ih =>
    simp only [through?] at found
    split at found
    · cases found
      exact ⟨[], rfl, by simp [FirstBehind]⟩
    · rename_i absent
      obtain ⟨rest, inner, rfl⟩ := Option.map_eq_some_iff.mp found
      have front := through?_isPrefix inner
      obtain ⟨body, rfl, first⟩ := ih inner
      refine ⟨c :: body, rfl, ?_⟩
      intro i bound
      cases i with
      | zero =>
        intro here
        apply absent
        rw [List.isPrefixOf_iff_prefix]
        exact here.trans (List.cons_prefix_cons.mpr ⟨rfl, front⟩)
      | succ i => exact first i (by simpa using bound)

theorem bracketLevel?_append {cs : List Char} {level : Nat}
    (opens : bracketLevel? cs = some level) (rest : List Char) :
    bracketLevel? (cs ++ rest) = some level := by
  obtain ⟨behind, rfl⟩ := opener_isPrefix opens
  simp [bracketLevel?, opener]

theorem token_inj {kind kind' : Kind} {text text' : List Char} :
    Piece.token kind text = Piece.token kind' text' ↔ kind = kind' ∧ text = text' := by
  simp [Piece.token]

section Piece

variable {cs : List Char} {kind : Kind} (noError : kind ≠ .error) {blank : Char}
  (isBlank : isBlank blank) (rest : List Char)

include noError

theorem quoted_stop {mark : Char}
    (whole : Piece.token (if (quoted mark cs).2 then .string else .error)
      (mark :: (quoted mark cs).1) = .token kind (mark :: cs)) :
    quoted mark (cs ++ rest) = (cs, true) ∧ kind = .string := by
  obtain ⟨isKind, text⟩ := token_inj.mp whole
  have closed : (quoted mark cs).2 = true := by
    cases given : (quoted mark cs).2 with
    | true => rfl
    | false => exact absurd (by simpa [given] using isKind.symm) noError
  rw [quoted_append closed]
  refine ⟨Prod.ext (List.cons.inj text).2 closed, ?_⟩
  rw [← isKind, closed, if_pos rfl]

include isBlank

theorem bracket_stop (whole : bracket ('[' :: cs) = .token kind ('[' :: cs)) :
    bracket ('[' :: (cs ++ blank :: rest)) = .token kind ('[' :: cs) := by
  unfold bracket at whole
  split at whole
  · rename_i level opens
    have front : [] ++ opener level <+: '[' :: cs := opener_isPrefix opens
    unfold bracketed at whole
    simp only at whole
    split at whole
    · rename_i text found
      have same := bracketLevel?_append opens (blank :: rest)
      have still := through?_append found (blank :: rest)
      rw [← drop_front front] at still
      rw [List.cons_append] at same still
      simp only [bracket, same, bracketed, still]
      exact whole
    · exact absurd (token_inj.mp whole).1.symm noError
  · split at whole
    · obtain ⟨rfl, text⟩ := token_inj.mp whole
      obtain rfl : cs = [] := by simpa using text.symm
      simp only [bracket, List.nil_append, bracketLevel?_stop isBlank]
      rcases blank_cases isBlank with rfl | rfl | rfl | rfl | rfl <;> simp
    · exact absurd (token_inj.mp whole).1.symm noError

/-- A text that is one token of a kind stays that token with a blank behind it. -/
theorem piece_stop {c : Char} (whole : piece c cs = .token kind (c :: cs)) :
    piece c (cs ++ blank :: rest) = .token kind (c :: cs) := by
  unfold piece at whole ⊢
  split at whole
  · cases whole
  split at whole
  · rename_i notBlank starts
    simp only [notBlank, starts, if_true, Bool.false_eq_true, if_false]
    rw [← List.cons_append, word_stop isBlank]
    exact whole
  split at whole
  · rename_i notBlank starts mark
    simp only [notBlank, starts, mark, if_true, Bool.false_eq_true, if_false]
    obtain ⟨read, rfl⟩ := quoted_stop noError (blank :: rest) whole
    rw [read]
    rfl
  split at whole
  · rename_i bracket
    subst bracket
    exact bracket_stop noError isBlank rest whole
  split at whole
  · cases whole
  split at whole
  · rename_i dashes
    unfold comment at whole
    split at whole
    · unfold bracketed at whole
      simp only at whole
      split at whole
      · cases whole
      · exact absurd (token_inj.mp whole).1.symm noError
    · cases whole
  · rename_i notBlank starts mark bracket hash dashes
    simp only [notBlank, starts, mark, bracket, head?_stop isBlank cs rest (d := '!') rfl, hash,
      head?_stop isBlank cs rest (d := '-') rfl, dashes, Bool.false_eq_true, if_false]
    rw [← List.cons_append, number_stop isBlank, symbol_stop isBlank]
    exact whole

end Piece

end LuaSearch.Lexer
