import Mathlib.Data.List.TakeWhile
import LuaSearch.Proofs.Token.Pattern

/-!
Numbers are as long as they can be. What a recogniser of numbers returns is a text of its pattern,
and every text of the pattern at the front of the input is a front of it: a run of digits with
something behind it that is no digit is the whole run, so the parts of a number end where the parts
that the recogniser takes end. Of the three patterns, the one that is tried first fits the most.
-/
namespace LuaSearch.Lexer

open Computability

theorem takeWhile_mem_many (keep : Char → Bool) (cs : List Char) :
    cs.takeWhile keep ∈ (Pattern.oneOf keep)∗ :=
  Pattern.mem_many.mpr fun _ member => List.mem_takeWhile_imp member

theorem takeWhile_mem_plus {keep : Char → Bool} {cs : List Char} (some : cs.takeWhile keep ≠ []) :
    cs.takeWhile keep ∈ Pattern.plus (Pattern.oneOf keep) :=
  Pattern.mem_plus.mpr ⟨some, fun _ member => List.mem_takeWhile_imp member⟩

theorem isPrefix_takeWhile {keep : Char → Bool} {run cs : List Char}
    (all : ∀ c ∈ run, keep c = true) (front : run <+: cs) : run <+: cs.takeWhile keep := by
  obtain ⟨rest, rfl⟩ := front
  rw [List.takeWhile_append_of_pos all]
  exact List.prefix_append _ _

theorem run_append_isPrefix {keep : Char → Bool} {run behind cs : List Char}
    {next : List Char → List Char} (all : ∀ c ∈ run, keep c = true)
    (stops : ∀ c ∈ behind.head?, keep c = false) (front : run ++ behind <+: cs)
    (longest : ∀ rest, behind <+: rest → behind <+: next rest) :
    run ++ behind <+: cs.takeWhile keep ++ next (cs.drop (cs.takeWhile keep).length) := by
  cases behind with
  | nil =>
    rw [List.append_nil] at front ⊢
    exact (isPrefix_takeWhile all front).trans (List.prefix_append _ _)
  | cons d behind =>
    obtain ⟨rest, rfl⟩ := front
    have stop : keep d = false := stops d rfl
    have whole : (run ++ d :: behind ++ rest).takeWhile keep = run := by
      rw [List.append_assoc, List.takeWhile_append_of_pos all]
      simp [stop]
    rw [whole, List.append_assoc, List.drop_left]
    exact (List.prefix_append_right_inj run).mpr (longest _ (List.prefix_append _ _))

theorem exponent_mem (mark : Char → Bool) (cs : List Char) :
    exponent mark cs ∈ Pattern.optional (Pattern.exponent mark) := by
  unfold exponent
  split
  · exact .inl rfl
  · rename_i c cs
    split
    · rename_i marked
      simp only
      split
      · exact .inl rfl
      · rename_i digits some
        have signed : sign cs ∈ Pattern.optional (Pattern.oneOf fun c => c = '+' || c = '-') := by
          unfold sign
          split <;> simp
        exact .inr (Pattern.cons_mem_oneOf_mul.mpr ⟨marked, Language.mem_mul.mpr
          ⟨_, signed, _, takeWhile_mem_plus some, rfl⟩⟩)
    · exact .inl rfl

theorem sign_append {signs digits : List Char}
    (signed : signs ∈ Pattern.optional (Pattern.oneOf fun c => c = '+' || c = '-'))
    (number : digits ∈ Pattern.plus (Pattern.oneOf isDigit)) (rest : List Char) :
    sign (signs ++ (digits ++ rest)) = signs := by
  obtain ⟨some, all⟩ := Pattern.mem_plus.mp number
  obtain ⟨d, digits, rfl⟩ := List.exists_cons_of_ne_nil some
  have digit : isDigit d = true := all d List.mem_cons_self
  rcases signed with rfl | ⟨c, isSign, rfl⟩
  · have plus : d ≠ '+' := by rintro rfl; cases digit
    have minus : d ≠ '-' := by rintro rfl; cases digit
    simp [sign, plus, minus]
  · simp only [Bool.or_eq_true, decide_eq_true_eq] at isSign
    rcases isSign with rfl | rfl <;> rfl

theorem exponent_longest {mark : Char → Bool} {fit cs : List Char}
    (fits : fit ∈ Pattern.optional (Pattern.exponent mark)) (front : fit <+: cs) :
    fit <+: exponent mark cs := by
  rcases fits with rfl | fits
  · exact List.nil_prefix
  obtain ⟨rest, rfl⟩ := front
  cases fit with
  | nil => exact List.nil_prefix
  | cons c fit =>
    obtain ⟨marked, inside⟩ := Pattern.cons_mem_oneOf_mul.mp fits
    obtain ⟨signs, signed, digits, number, rfl⟩ := Language.mem_mul.mp inside
    obtain ⟨some, all⟩ := Pattern.mem_plus.mp number
    have run : digits <+: (digits ++ rest).takeWhile isDigit :=
      isPrefix_takeWhile all (List.prefix_append _ _)
    simp only [List.cons_append, List.append_assoc, exponent, marked, if_true,
      sign_append signed number, List.drop_left]
    generalize (digits ++ rest).takeWhile isDigit = taken at run
    cases taken with
    | nil => exact absurd (List.prefix_nil.mp run) some
    | cons d taken =>
      exact List.cons_prefix_cons.mpr ⟨rfl, (List.prefix_append_right_inj signs).mpr run⟩

def tail (digit mark : Char → Bool) (cs : List Char) : List Char :=
  fraction digit cs ++ exponent mark (cs.drop (fraction digit cs).length)

theorem tail_mem (digit mark : Char → Bool) (cs : List Char) :
    tail digit mark cs ∈ Pattern.tail digit mark := by
  refine Language.mem_mul.mpr ⟨_, ?_, _, exponent_mem mark _, rfl⟩
  unfold fraction
  split
  · exact .inr (Pattern.cons_mem_char_mul.mpr ⟨rfl, takeWhile_mem_many _ _⟩)
  · exact .inl rfl

/-- Neither the point nor the mark of the exponent is a digit, and they differ. -/
structure Apart (digit mark : Char → Bool) : Prop where
  point : digit '.' = false
  marks : ∀ c, mark c = true → digit c = false
  markPoint : mark '.' = false

theorem apart_decimal : Apart isDigit fun c => c = 'e' || c = 'E' where
  point := rfl
  marks := by
    simp only [Bool.or_eq_true, decide_eq_true_eq]
    rintro c (rfl | rfl) <;> rfl
  markPoint := rfl

theorem apart_hexadecimal : Apart isHexDigit fun c => c = 'p' || c = 'P' where
  point := rfl
  marks := by
    simp only [Bool.or_eq_true, decide_eq_true_eq]
    rintro c (rfl | rfl) <;> rfl
  markPoint := rfl

section Tail

variable {digit mark : Char → Bool} (apart : Apart digit mark) {fit cs : List Char}

include apart

theorem exponent_stops (fits : fit ∈ Pattern.optional (Pattern.exponent mark)) :
    ∀ c ∈ fit.head?, digit c = false := by
  rcases fits with rfl | fits
  · nofun
  · rintro c first
    obtain ⟨rest, rfl⟩ := List.head?_eq_some_iff.mp first
    exact apart.marks c (Pattern.cons_mem_oneOf_mul.mp fits).1

theorem tail_stops (fits : fit ∈ Pattern.tail digit mark) : ∀ c ∈ fit.head?, digit c = false := by
  obtain ⟨front, fractional, behind, scaled, rfl⟩ := Language.mem_mul.mp fits
  rcases fractional with rfl | fractional
  · exact exponent_stops apart scaled
  · cases front with
    | nil => exact absurd fractional Pattern.nil_notMem_char_mul
    | cons c front =>
      obtain ⟨rfl, _⟩ := Pattern.cons_mem_char_mul.mp fractional
      rintro _ ⟨⟩
      exact apart.point

theorem tail_longest (fits : fit ∈ Pattern.tail digit mark) (front : fit <+: cs) :
    fit <+: tail digit mark cs := by
  obtain ⟨point, fractional, scale, scaled, rfl⟩ := Language.mem_mul.mp fits
  rcases fractional with rfl | fractional
  · -- Without a point there is no fraction in the input, unless nothing fits at all.
    rcases scaled with rfl | scaled
    · exact List.nil_prefix
    obtain ⟨rest, rfl⟩ := front
    cases scale with
    | nil => exact List.nil_prefix
    | cons c scale =>
      have other : c ≠ '.' := by
        rintro rfl
        exact absurd (Pattern.cons_mem_oneOf_mul.mp scaled).1 (by simp [apart.markPoint])
      have none : fraction digit ([] ++ c :: scale ++ rest) = [] := by simp [fraction, other]
      rw [tail, none]
      exact exponent_longest (.inr scaled) (List.prefix_append _ _)
  · cases point with
    | nil => exact absurd fractional Pattern.nil_notMem_char_mul
    | cons c digits =>
      obtain ⟨rfl, all⟩ := Pattern.cons_mem_char_mul.mp fractional
      obtain ⟨rest, rfl⟩ := front
      refine List.cons_prefix_cons.mpr ⟨rfl, ?_⟩
      exact run_append_isPrefix (Pattern.mem_many.mp all) (exponent_stops apart scaled)
        (List.prefix_append _ _) fun _ => exponent_longest scaled

theorem whole_longest
    (fits : fit ∈ Pattern.plus (Pattern.oneOf digit) * Pattern.tail digit mark)
    (front : fit <+: cs) :
    cs.takeWhile digit ≠ [] ∧
      fit <+: cs.takeWhile digit ++ tail digit mark (cs.drop (cs.takeWhile digit).length) := by
  obtain ⟨whole, digits, behind, follows, rfl⟩ := Language.mem_mul.mp fits
  obtain ⟨some, all⟩ := Pattern.mem_plus.mp digits
  constructor
  · intro none
    have run := isPrefix_takeWhile all ((List.prefix_append _ _).trans front)
    rw [none] at run
    exact some (List.prefix_nil.mp run)
  · exact run_append_isPrefix all (tail_stops apart follows) front
      fun _ => tail_longest apart follows

end Tail

theorem decimal_eq {cs : List Char} (some : cs.takeWhile isDigit ≠ []) :
    decimal cs = cs.takeWhile isDigit ++
      tail isDigit (fun c => c = 'e' || c = 'E') (cs.drop (cs.takeWhile isDigit).length) := by
  unfold decimal
  split
  · rename_i none
    exact absurd none some
  · simp [tail, decimalExponent, List.append_assoc]

theorem hexadecimal_eq {x : Char} {cs : List Char} (isMark : (x = 'x' || x = 'X') = true)
    (some : cs.takeWhile isHexDigit ≠ []) :
    hexadecimal ('0' :: x :: cs) = '0' :: x :: (cs.takeWhile isHexDigit ++
      tail isHexDigit (fun c => c = 'p' || c = 'P')
        (cs.drop (cs.takeWhile isHexDigit).length)) := by
  simp [hexadecimal, isMark, tail, binaryExponent, List.append_assoc]

theorem pointDecimal_eq {cs : List Char} (some : cs.takeWhile isDigit ≠ []) :
    pointDecimal ('.' :: cs) = '.' :: (cs.takeWhile isDigit ++
      decimalExponent (cs.drop (cs.takeWhile isDigit).length)) := by
  obtain ⟨d, digits, run⟩ := List.exists_cons_of_ne_nil some
  simp [pointDecimal, fraction, run]

theorem decimal_longest {fit cs : List Char} (fits : fit ∈ Pattern.decimal) (front : fit <+: cs) :
    fit <+: decimal cs := by
  obtain ⟨some, longest⟩ := whole_longest apart_decimal fits front
  rwa [decimal_eq some]

theorem hexadecimal_longest {fit cs : List Char} (fits : fit ∈ Pattern.hexadecimal)
    (front : fit <+: cs) : fit <+: hexadecimal cs := by
  obtain ⟨rest, rfl⟩ := front
  match fit with
  | [] => exact List.nil_prefix
  | [_] => simp [Pattern.hexadecimal] at fits
  | zero :: x :: fit =>
    obtain ⟨rfl, inside⟩ := Pattern.cons_mem_char_mul.mp fits
    obtain ⟨isMark, inside⟩ := Pattern.cons_mem_oneOf_mul.mp inside
    obtain ⟨some, longest⟩ := whole_longest apart_hexadecimal inside (List.prefix_append fit rest)
    rw [List.cons_append, List.cons_append, hexadecimal_eq isMark some]
    simpa [List.cons_prefix_cons] using longest

theorem pointDecimal_longest {fit cs : List Char} (fits : fit ∈ Pattern.pointDecimal)
    (front : fit <+: cs) : fit <+: pointDecimal cs := by
  obtain ⟨rest, rfl⟩ := front
  cases fit with
  | nil => exact List.nil_prefix
  | cons c fit =>
    obtain ⟨rfl, inside⟩ := Pattern.cons_mem_char_mul.mp fits
    obtain ⟨digits, number, scale, scaled, rfl⟩ := Language.mem_mul.mp inside
    obtain ⟨some, all⟩ := Pattern.mem_plus.mp number
    have front : digits ++ scale <+: digits ++ scale ++ rest := List.prefix_append _ _
    have run := isPrefix_takeWhile all ((List.prefix_append _ _).trans front)
    have taken : (digits ++ scale ++ rest).takeWhile isDigit ≠ [] := by
      intro none
      rw [none] at run
      exact some (List.prefix_nil.mp run)
    rw [List.cons_append, pointDecimal_eq taken]
    refine List.cons_prefix_cons.mpr ⟨rfl, ?_⟩
    exact run_append_isPrefix all (exponent_stops apart_decimal scaled) front
      fun _ => exponent_longest scaled

/-- Where a hexadecimal number fits, a decimal one is its first digit alone. -/
theorem decimal_isPrefix_hexadecimal {cs : List Char} (some : hexadecimal cs ≠ []) :
    decimal cs <+: hexadecimal cs := by
  unfold hexadecimal at some ⊢
  split at some
  · rename_i x cs
    split at some
    · rename_i isMark
      have digits : isDigit x = false ∧ x ≠ '.' ∧ x ≠ 'e' ∧ x ≠ 'E' := by
        simp only [Bool.or_eq_true, decide_eq_true_eq] at isMark
        rcases isMark with rfl | rfl <;> decide
      have zero : decimal ('0' :: x :: cs) = ['0'] := by
        have run : ('0' :: x :: cs).takeWhile isDigit = ['0'] := by
          simp [digits, show isDigit '0' = true from rfl]
        simp [decimal, run, fraction, decimalExponent, exponent, digits]
      rw [zero]
      simp only [isMark, if_true]
      split
      · simp_all
      · exact List.cons_prefix_cons.mpr ⟨rfl, List.nil_prefix⟩
    · exact absurd rfl some
  · exact absurd rfl some

/-- The three number patterns. -/
theorem number_longest {rule : Rule} (numeric : rule.kind? = some .number) {fit cs : List Char}
    (fits : fit ∈ rule.pattern) (front : fit <+: cs) : fit <+: number cs := by
  cases rule with
  | hexadecimal =>
    have longest := hexadecimal_longest fits front
    unfold number
    split
    · rename_i none
      rw [none] at longest
      exact absurd (List.prefix_nil.mp longest ▸ fits) (Rule.nil_notMem .hexadecimal)
    · exact longest
  | decimal =>
    have longest := decimal_longest fits front
    unfold number
    split
    · split
      · rename_i none
        rw [none] at longest
        exact absurd (List.prefix_nil.mp longest ▸ fits) (Rule.nil_notMem .decimal)
      · exact longest
    · rename_i some
      exact longest.trans (decimal_isPrefix_hexadecimal some)
  | pointDecimal =>
    have longest := pointDecimal_longest fits front
    obtain ⟨rest, rfl⟩ := front
    cases fit with
    | nil => exact List.nil_prefix
    | cons c fit =>
      obtain ⟨rfl, _⟩ := Pattern.cons_mem_char_mul.mp fits
      have noHexadecimal : hexadecimal ('.' :: (fit ++ rest)) = [] := by simp [hexadecimal]
      have noDecimal : decimal ('.' :: (fit ++ rest)) = [] := by
        rw [decimal, List.takeWhile_cons_of_neg (by simp [apart_decimal.point])]
      rw [List.cons_append] at longest ⊢
      simpa [number, noHexadecimal, noDecimal] using longest
  | _ => cases numeric

theorem decimal_mem {cs : List Char} (some : decimal cs ≠ []) : decimal cs ∈ Pattern.decimal := by
  have run : cs.takeWhile isDigit ≠ [] := by
    intro none
    exact some (by simp [decimal, none])
  rw [decimal_eq run]
  exact Language.mem_mul.mpr ⟨_, takeWhile_mem_plus run, _, tail_mem _ _ _, rfl⟩

theorem hexadecimal_mem {cs : List Char} (some : hexadecimal cs ≠ []) :
    hexadecimal cs ∈ Pattern.hexadecimal := by
  unfold hexadecimal at some
  split at some
  · rename_i x cs
    split at some
    · rename_i isMark
      have run : cs.takeWhile isHexDigit ≠ [] := by
        intro none
        exact some (by simp [none])
      rw [hexadecimal_eq isMark run]
      refine Pattern.cons_mem_char_mul.mpr ⟨rfl, Pattern.cons_mem_oneOf_mul.mpr ⟨isMark, ?_⟩⟩
      exact Language.mem_mul.mpr ⟨_, takeWhile_mem_plus run, _, tail_mem _ _ _, rfl⟩
    · exact absurd rfl some
  · exact absurd rfl some

theorem pointDecimal_mem {cs : List Char} (some : pointDecimal cs ≠ []) :
    pointDecimal cs ∈ Pattern.pointDecimal := by
  obtain ⟨rest, rfl⟩ : ∃ rest, cs = '.' :: rest := by
    by_contra other
    have none : fraction isDigit cs = [] := by
      unfold fraction
      split
      · exact absurd ⟨_, rfl⟩ other
      · rfl
    exact some (by simp [pointDecimal, none])
  have run : rest.takeWhile isDigit ≠ [] := by
    intro none
    exact some (by simp [pointDecimal, fraction, none])
  rw [pointDecimal_eq run]
  refine Pattern.cons_mem_char_mul.mpr ⟨rfl, Language.mem_mul.mpr ?_⟩
  exact ⟨_, takeWhile_mem_plus run, _, exponent_mem _ _, rfl⟩

theorem number_mem {cs : List Char} (given : number cs ≠ []) :
    ∃ rule, Rule.kind? rule = some .number ∧ number cs ∈ rule.pattern := by
  unfold number at given ⊢
  split at given
  · split at given
    · exact ⟨.pointDecimal, rfl, pointDecimal_mem given⟩
    · exact ⟨.decimal, rfl, decimal_mem given⟩
  · exact ⟨.hexadecimal, rfl, hexadecimal_mem given⟩

end LuaSearch.Lexer
