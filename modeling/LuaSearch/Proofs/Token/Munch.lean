import LuaSearch.Proofs.Literal
import LuaSearch.Proofs.Token.Numeral

/-!
The tokens of a source are maximal munches. The first character tells which rules can fit at all;
where several can, as at a point or a dash, the order of the branches puts the longest first. So a
piece of the source is what some rule takes while no rule fits a longer front, and the tokens and
what is between them are such pieces.
-/
namespace LuaSearch.Lexer

open Computability

theorem mem_of_quoted {mark : Char} {cs text : List Char}
    (closed : quoted mark cs = (text, true)) : mark :: text ∈ Pattern.quoted mark := by
  refine Pattern.cons_mem_char_mul.mpr ⟨rfl, ?_⟩
  have more {item rest : Language Char} {a b : List Char} (first : a ∈ item)
      (later : b ∈ item∗ * rest) : a ++ b ∈ item∗ * rest := by
    obtain ⟨items, all, last, inside, rfl⟩ := Language.mem_mul.mp later
    obtain ⟨parts, rfl, each⟩ := Language.mem_kstar.mp all
    refine Language.mem_mul.mpr ⟨a ++ parts.flatten, ?_, last, inside, List.append_assoc _ _ _⟩
    exact Language.mem_kstar.mpr ⟨a :: parts, rfl, List.forall_mem_cons.mpr ⟨first, each⟩⟩
  fun_induction quoted mark cs generalizing text with
  | case1 | case2 | case5 => cases closed
  | case3 c cs inner done read ih =>
    cases closed
    exact more (.inr (Pattern.cons_mem_char_mul.mpr ⟨rfl, c, rfl, rfl⟩)) (ih read)
  | case4 =>
    cases closed
    exact Language.mem_mul.mpr ⟨[], Language.nil_mem_kstar _, _, Pattern.mem_char.mpr rfl, rfl⟩
  | case6 c cs last pair other newline inner done read ih =>
    cases closed
    have backslash : c ≠ '\\' := by
      rintro rfl
      cases cs with
      | nil => exact last rfl rfl
      | cons d ds => exact pair d ds rfl rfl
    exact more (.inl ⟨c, by simp [other, newline, backslash], rfl⟩) (ih read)

theorem quoted_of_mem {mark : Char} (isMark : Literal.IsMark mark) {fit : List Char}
    (fits : mark :: fit ∈ Pattern.quoted mark) (rest : List Char) :
    quoted mark (fit ++ rest) = (fit, true) := by
  obtain ⟨_, inside⟩ := Pattern.cons_mem_char_mul.mp fits
  obtain ⟨body, items, last, ends, rfl⟩ := Language.mem_mul.mp inside
  obtain rfl := Pattern.mem_char.mp ends
  obtain ⟨parts, rfl, each⟩ := Language.mem_kstar.mp items
  clear fits inside items ends
  induction parts with
  | nil => rcases isMark with rfl | rfl <;> rfl
  | cons part parts ih =>
    obtain ⟨first, others⟩ := List.forall_mem_cons.mp each
    have read := ih others
    rw [List.append_assoc, List.singleton_append] at read
    rcases first with ⟨c, plain, rfl⟩ | escape
    · simp only [Bool.and_eq_true, decide_eq_true_eq] at plain
      obtain ⟨⟨other, backslash⟩, newline⟩ := plain
      simp [quoted_plain backslash newline other, read]
    · obtain ⟨_, backslash, _, ⟨c, _, rfl⟩, rfl⟩ := Language.mem_mul.mp escape
      obtain rfl := Pattern.mem_char.mp backslash
      simp [quoted_backslash, read]

theorem mem_longBracket {fit : List Char} :
    fit ∈ Pattern.longBracket ↔ ∃ level, fit = opener level := by
  constructor
  · intro fits
    cases fit with
    | nil => exact absurd fits Pattern.nil_notMem_char_mul
    | cons c fit =>
      obtain ⟨rfl, inside⟩ := Pattern.cons_mem_char_mul.mp fits
      obtain ⟨equals, all, last, ends, rfl⟩ := Language.mem_mul.mp inside
      obtain rfl := Pattern.mem_char.mp ends
      have same : equals = List.replicate equals.length '=' := by
        refine List.eq_replicate_of_mem fun c member => ?_
        simpa using Pattern.mem_many.mp all c member
      exact ⟨equals.length, by rw [opener, ← same]; rfl⟩
  · rintro ⟨level, rfl⟩
    refine Pattern.cons_mem_char_mul.mpr ⟨rfl, Language.mem_mul.mpr ?_⟩
    refine ⟨List.replicate level '=', Pattern.mem_many.mpr ?_, _, Pattern.mem_char.mpr rfl, rfl⟩
    intro c member
    simpa using List.eq_of_mem_replicate member

theorem keyword_continues (name : Keyword) : ∀ c ∈ name.text.toList, continuesWord c = true := by
  have all : name.text.toList.all continuesWord = true := by cases name <;> rfl
  exact List.all_eq_true.mp all

theorem word_longest {rule : Rule} (lead : rule.lead = .letter) {fit cs : List Char}
    (fits : fit ∈ rule.pattern) (front : fit <+: cs) : fit <+: cs.takeWhile continuesWord := by
  refine isPrefix_takeWhile ?_ front
  cases rule with
  | keyword name => exact Pattern.mem_exactly.mp fits ▸ keyword_continues name
  | word =>
    cases fit with
    | nil => exact absurd fits Pattern.nil_notMem_oneOf_mul
    | cons c fit =>
      obtain ⟨starts, inside⟩ := Pattern.cons_mem_oneOf_mul.mp fits
      refine List.forall_mem_cons.mpr ⟨?_, Pattern.mem_many.mp inside⟩
      rw [continuesWord, starts, Bool.true_or]
  | _ => cases lead

theorem symbol_all_descending :
    Symbol.all.Pairwise fun a b => b.text.toList.length ≤ a.text.toList.length := by
  decide

theorem symbol_mem_all (sign : Symbol) : sign ∈ Symbol.all := by
  cases sign <;> decide

theorem symbol_longest {sign : Symbol} {cs : List Char}
    (found : (Symbol.all.find? fun s => s.text.toList.isPrefixOf cs) = some sign)
    (other : Symbol) (front : other.text.toList <+: cs) :
    other.text.toList.length ≤ sign.text.toList.length := by
  obtain ⟨_, earlier, later, table, missed⟩ := List.find?_eq_some_iff_append.mp found
  have descending := symbol_all_descending
  rw [table, List.pairwise_append, List.pairwise_cons] at descending
  have among := symbol_mem_all other
  rw [table, List.mem_append, List.mem_cons] at among
  rcases among with before | rfl | behind
  · have fits := List.isPrefixOf_iff_prefix.mpr front
    have absent := missed other before
    simp [fits] at absent
  · exact Nat.le_refl _
  · exact descending.2.1.1 other behind

theorem symbol_behind {sign : Symbol} {c : Char} {cs : List Char}
    (text : sign.text.toList = c :: cs) :
    (c = '[' ∨ c = '#' → cs = []) ∧ (c = '-' → cs.length ≤ 1) ∧
      (c = '.' → cs = [] ∨ cs.head? = some '.') := by
  cases sign <;> cases text <;> decide

/-- Of the patterns that the first character allows, none fits more than the front. -/
def Longest (c : Char) (cs front : List Char) : Prop :=
  ∀ rule fit, Rule.lead rule = Lead.of c → c :: fit ∈ rule.pattern → fit <+: cs →
    fit.length < front.length

/-- The piece is an error, or the longest that a rule can take. -/
def Taken (c : Char) (cs : List Char) (p : Piece) : Prop :=
  p.kind ≠ some .error → ∃ rule front, Rule.kind? rule = p.kind ∧ front ∈ rule.pattern ∧
    rule.Takes ((c :: cs).drop p.text.length) front p.text ∧ Longest c cs front

theorem Taken.error {c : Char} {cs text : List Char} : Taken c cs (.token .error text) :=
  fun noError => absurd rfl noError

theorem blanks_taken {c : Char} (cs : List Char) (blank : isBlank c = true) :
    Taken c cs (.gap (c :: cs.takeWhile isBlank)) := by
  intro _
  refine ⟨.blanks, c :: cs.takeWhile isBlank, rfl, ?_, .front rfl, ?_⟩
  · refine Pattern.mem_plus.mpr ⟨List.cons_ne_nil _ _, List.forall_mem_cons.mpr ⟨blank, ?_⟩⟩
    exact fun _ member => List.mem_takeWhile_imp member
  · intro rule fit lead fits front
    rw [Lead.of_blank blank] at lead
    cases rule with
    | blanks =>
      have all := (List.forall_mem_cons.mp (Pattern.mem_plus.mp fits).2).2
      exact Nat.lt_succ_of_le (isPrefix_takeWhile all front).length_le
    | _ => cases lead

theorem word_taken {c : Char} (cs : List Char) (starts : startsWord c = true) :
    Taken c cs (word (c :: cs)) := by
  have longest : Longest c cs ((c :: cs).takeWhile continuesWord) := by
    intro rule fit lead fits front
    rw [Lead.of_letter starts] at lead
    exact (word_longest lead fits (List.cons_prefix_cons.mpr ⟨rfl, front⟩)).length_le
  intro _
  unfold word
  simp only
  split
  · rename_i name known
    refine ⟨.keyword name, _, rfl, ?_, .front rfl, longest⟩
    have text : name.text = String.ofList ((c :: cs).takeWhile continuesWord) := by
      simpa using List.find?_some known
    exact Pattern.mem_exactly.mpr (by rw [text, String.toList_ofList, Piece.token])
  · refine ⟨.word, _, rfl, ?_, .front rfl, longest⟩
    have first : continuesWord c = true := by rw [continuesWord, starts, Bool.true_or]
    rw [List.takeWhile_cons_of_pos first]
    exact Pattern.cons_mem_oneOf_mul.mpr ⟨starts, takeWhile_mem_many _ _⟩

theorem string_taken {c : Char} {cs text : List Char} (isMark : Literal.IsMark c)
    (closed : quoted c cs = (text, true)) : Taken c cs (.token .string (c :: text)) := by
  have same {mark : Char} {fit : List Char} (fits : c :: fit ∈ Pattern.quoted mark)
      (front : fit <+: cs) : fit.length < (c :: text).length := by
    obtain ⟨rfl, _⟩ := Pattern.cons_mem_char_mul.mp fits
    obtain ⟨rest, rfl⟩ := front
    rw [quoted_of_mem isMark fits] at closed
    cases closed
    exact Nat.lt_succ_self _
  have longest : Longest c cs (c :: text) := by
    intro rule fit lead fits front
    have mark : Lead.of c = .mark := by rcases isMark with rfl | rfl <;> rfl
    rw [mark] at lead
    cases rule with
    | doubleQuoted | singleQuoted => exact same fits front
    | _ => cases lead
  intro _
  have fits := mem_of_quoted closed
  rcases isMark with rfl | rfl
  · exact ⟨.doubleQuoted, _, rfl, fits, .front rfl, longest⟩
  · exact ⟨.singleQuoted, _, rfl, fits, .front rfl, longest⟩

theorem bracket_longest {cs front : List Char} (nonempty : front ≠ [])
    (opens : ∀ level, bracketLevel? ('[' :: cs) = some level → front = opener level) :
    Longest '[' cs front := by
  intro rule fit lead fits inside
  cases rule with
  | symbol sign =>
    obtain rfl := (symbol_behind (Pattern.mem_exactly.mp fits).symm).1 (.inl rfl)
    exact List.length_pos_iff.mpr nonempty
  | longBracket =>
    obtain ⟨level, whole⟩ := mem_longBracket.mp fits
    obtain ⟨rest, rfl⟩ := inside
    have level? : bracketLevel? ('[' :: (fit ++ rest)) = level := by
      rw [← List.cons_append, whole]
      exact Literal.bracketLevel?_opener level rest
    rw [opens level level?, ← whole]
    exact Nat.lt_succ_self _
  | hashBang | pointDecimal | comment => cases (Pattern.cons_mem_char_mul.mp fits).1
  | _ => cases lead

theorem bracket_taken (cs : List Char) : Taken '[' cs (bracket ('[' :: cs)) := by
  unfold bracket
  split
  · rename_i level opens
    unfold bracketed
    simp only
    split
    · rename_i found
      obtain ⟨body, rfl, closed⟩ := firstBehind_of_through? found
      intro _
      refine ⟨.longBracket, opener level, rfl, mem_longBracket.mpr ⟨level, rfl⟩,
        .longBracket closed, bracket_longest (by simp [opener]) ?_⟩
      intro other same
      rw [Option.some.inj (opens.symm.trans same)]
    · exact .error
  · rename_i short
    split
    · intro _
      refine ⟨.symbol .lbracket, ['['], rfl, rfl, .front rfl,
        bracket_longest (List.cons_ne_nil _ _) ?_⟩
      intro level opens
      cases short.symm.trans opens
    · exact .error

theorem hashBang_taken (rest : List Char) :
    Taken '#' ('!' :: rest) (.gap (line ('#' :: '!' :: rest))) := by
  intro _
  refine ⟨.hashBang, _, rfl, ?_, .front rfl, ?_⟩
  · refine Pattern.cons_mem_char_mul.mpr ⟨rfl, Pattern.cons_mem_char_mul.mpr ⟨rfl, ?_⟩⟩
    exact takeWhile_mem_many _ _
  · intro rule fit lead fits front
    cases rule with
    | symbol sign =>
      obtain rfl := (symbol_behind (Pattern.mem_exactly.mp fits).symm).1 (.inr rfl)
      exact Nat.succ_pos _
    | hashBang =>
      have inside := (Pattern.cons_mem_char_mul.mp fits).2
      cases fit with
      | nil => exact absurd inside Pattern.nil_notMem_char_mul
      | cons c fit =>
        have all := Pattern.mem_many.mp (Pattern.cons_mem_char_mul.mp inside).2
        have run := isPrefix_takeWhile all (List.cons_prefix_cons.mp front).2
        exact Nat.succ_lt_succ (Nat.lt_succ_of_le run.length_le)
    | pointDecimal | longBracket | comment => cases (Pattern.cons_mem_char_mul.mp fits).1
    | _ => cases lead

theorem comment_taken (rest : List Char) :
    Taken '-' ('-' :: rest) (comment ('-' :: '-' :: rest)) := by
  have fits : ['-', '-'] ∈ Rule.pattern .comment :=
    Pattern.cons_mem_char_mul.mpr ⟨rfl, Pattern.mem_char.mpr rfl⟩
  have longest : Longest '-' ('-' :: rest) ['-', '-'] := by
    intro rule fit lead fits front
    cases rule with
    | symbol sign =>
      have short := (symbol_behind (Pattern.mem_exactly.mp fits).symm).2.1 rfl
      exact Nat.lt_succ_of_le short
    | comment =>
      obtain rfl := Pattern.mem_char.mp (Pattern.cons_mem_char_mul.mp fits).2
      exact Nat.lt_succ_self _
    | hashBang | pointDecimal | longBracket => cases (Pattern.cons_mem_char_mul.mp fits).1
    | _ => cases lead
  unfold comment
  split
  · unfold bracketed
    simp only
    split
    · rename_i found
      obtain ⟨body, rfl, closed⟩ := firstBehind_of_through? found
      exact fun _ => ⟨.comment, _, rfl, fits, .longComment closed, longest⟩
    · exact .error
  · rename_i short
    refine fun _ => ⟨.comment, _, rfl, fits, ?_, longest⟩
    refine .lineComment (line_noBreak rest) (line_endsLine rest) ?_
    rintro level ⟨behind, whole⟩
    have opens := Literal.bracketLevel?_opener level behind
    rw [whole] at opens
    cases (bracketLevel?_line short).symm.trans opens

theorem number_taken {c : Char} {cs : List Char} (given : number (c :: cs) ≠ []) :
    Taken c cs (.token .number (number (c :: cs))) := by
  intro _
  obtain ⟨rule, numeric, fits⟩ := number_mem given
  have plain : rule.goesOn = false := by
    cases rule with
    | longBracket | comment => cases numeric
    | _ => rfl
  refine ⟨rule, _, numeric, fits, .front plain, ?_⟩
  have nonempty := List.length_pos_iff.mpr given
  intro other fit lead fits front
  have numbers (numeric : other.kind? = some .number) : fit.length < (number (c :: cs)).length :=
    (number_longest numeric fits (List.cons_prefix_cons.mpr ⟨rfl, front⟩)).length_le
  rcases Lexeme.number_start given with digit | rfl
  · rw [Lead.of_digit digit] at lead
    cases other with
    | decimal | hexadecimal => exact numbers rfl
    | _ => cases lead
  · cases other with
    | symbol sign =>
      rcases (symbol_behind (Pattern.mem_exactly.mp fits).symm).2.2 rfl with rfl | second
      · exact nonempty
      · -- Two points start no number.
        obtain ⟨fit, rfl⟩ := List.head?_eq_some_iff.mp second
        obtain ⟨rest, rfl⟩ := front
        have none : number ('.' :: '.' :: (fit ++ rest)) = [] := by
          simp [number, hexadecimal, decimal, pointDecimal, fraction, apart_decimal.point]
        exact absurd none given
    | pointDecimal => exact numbers rfl
    | hashBang | longBracket | comment => cases (Pattern.cons_mem_char_mul.mp fits).1
    | _ => cases lead

theorem symbol_taken {c : Char} {cs : List Char} (lead : Lead.of c = .digit ∨ Lead.of c = .sign)
    (noBracket : c ≠ '[') (noHash : ¬ (c = '#' ∧ cs.head? = some '!'))
    (noComment : ¬ (c = '-' ∧ cs.head? = some '-')) (noNumber : number (c :: cs) = []) :
    Taken c cs (symbol c cs) := by
  unfold symbol
  split
  · rename_i sign found
    intro _
    refine ⟨.symbol sign, _, rfl, rfl, .front rfl, ?_⟩
    intro rule fit given fits front
    have whole : c :: fit <+: c :: cs := List.cons_prefix_cons.mpr ⟨rfl, front⟩
    have numbers (numeric : rule.kind? = some .number) : False := by
      have longest := number_longest numeric fits whole
      rw [noNumber] at longest
      cases List.prefix_nil.mp longest
    rw [← given] at lead
    cases rule with
    | symbol other =>
      have text := Pattern.mem_exactly.mp fits
      have shorter := symbol_longest found other (text ▸ whole)
      rwa [← text] at shorter
    | decimal | pointDecimal | hexadecimal => exact (numbers rfl).elim
    | hashBang =>
      obtain ⟨rfl, inside⟩ := Pattern.cons_mem_char_mul.mp fits
      cases fit with
      | nil => exact absurd inside Pattern.nil_notMem_char_mul
      | cons d fit =>
        obtain ⟨rfl, _⟩ := Pattern.cons_mem_char_mul.mp inside
        obtain ⟨rest, rfl⟩ := front
        exact absurd ⟨rfl, rfl⟩ noHash
    | longBracket => exact absurd (Pattern.cons_mem_char_mul.mp fits).1 noBracket
    | comment =>
      obtain ⟨rfl, inside⟩ := Pattern.cons_mem_char_mul.mp fits
      obtain rfl := Pattern.mem_char.mp inside
      obtain ⟨rest, rfl⟩ := front
      exact absurd ⟨rfl, rfl⟩ noComment
    | _ => rcases lead with lead | lead <;> cases lead
  · exact .error

theorem piece_taken (c : Char) (cs : List Char) : Taken c cs (piece c cs) := by
  unfold piece
  split
  · rename_i blank
    exact blanks_taken cs blank
  split
  · rename_i starts
    exact word_taken cs starts
  split
  · rename_i isMark
    simp only [Bool.or_eq_true, decide_eq_true_eq] at isMark
    rcases closed : quoted c cs with ⟨text, _ | _⟩
    · exact .error
    · exact string_taken isMark closed
  split
  · rename_i isBracket
    exact isBracket ▸ bracket_taken cs
  split
  · rename_i hash
    simp only [Bool.and_eq_true, decide_eq_true_eq] at hash
    obtain ⟨rfl, second⟩ := hash
    obtain ⟨rest, rfl⟩ : ∃ rest, cs = '!' :: rest := List.head?_eq_some_iff.mp second
    exact hashBang_taken rest
  split
  · rename_i dashes
    simp only [Bool.and_eq_true, decide_eq_true_eq] at dashes
    obtain ⟨rfl, second⟩ := dashes
    obtain ⟨rest, rfl⟩ : ∃ rest, cs = '-' :: rest := List.head?_eq_some_iff.mp second
    exact comment_taken rest
  rename_i blank starts isMark isBracket hash dashes
  split
  · rename_i noNumber
    simp only [Bool.and_eq_true, decide_eq_true_eq] at hash dashes
    refine symbol_taken ?_ isBracket hash dashes noNumber
    unfold Lead.of
    rw [if_neg blank, if_neg starts, if_neg isMark]
    exact (em _).imp (if_pos ·) (if_neg ·)
  · rename_i some
    exact number_taken some

theorem piece_munched {c : Char} {cs : List Char} (noError : (piece c cs).kind ≠ some .error) :
    Munched (piece c cs).kind (piece c cs).text ((c :: cs).drop (piece c cs).text.length) := by
  obtain ⟨rule, front, kind, fits, takes, longest⟩ := piece_taken c cs noError
  refine ⟨rule, front, kind, fits, takes, ?_⟩
  rw [List.prefix_iff_eq_append.mp (piece_isPrefix c cs)]
  rintro other (_ | ⟨d, fit⟩) fits whole
  · exact Nat.zero_le _
  · obtain ⟨rfl, inside⟩ := List.cons_prefix_cons.mp whole
    exact longest other fit (Rule.lead_of_mem fits) fits inside

theorem takeWhile_append_ended {keep : Char → Bool} {run rest : List Char}
    (all : ∀ c ∈ run, keep c = true) (ended : ∀ c ∈ rest.head?, keep c = false) :
    (run ++ rest).takeWhile keep = run := by
  rw [List.takeWhile_append_of_pos all]
  cases rest with
  | nil => simp
  | cons c rest => simp [ended c rfl]

theorem line_append {text rest : List Char} (noBreak : '\n' ∉ text) (ended : EndsLine rest) :
    line (text ++ rest) = text := by
  refine takeWhile_append_ended ?_ ?_
  · rintro c member
    simpa using fun newline : c = '\n' => noBreak (newline ▸ member)
  · intro c first
    simp [ended c first]

/-- A long bracket does not open across the end of a line. -/
theorem bracketLevel?_ended {text rest : List Char} (short : bracketLevel? text = none)
    (noBreak : '\n' ∉ text) (ended : EndsLine rest) : bracketLevel? (text ++ rest) = none := by
  cases opens : bracketLevel? (text ++ rest) with
  | none => rfl
  | some level =>
    have plain : ∀ c ∈ opener level, (c ≠ '\n' : Bool) = true := by
      simp only [opener, List.cons_append, List.mem_cons, List.mem_append, List.mem_replicate,
        List.not_mem_nil, or_false]
      rintro c (rfl | ⟨_, rfl⟩ | rfl) <;> rfl
    have front : opener level <+: line (text ++ rest) :=
      isPrefix_takeWhile plain (opener_isPrefix opens)
    rw [line_append noBreak ended] at front
    obtain ⟨behind, rfl⟩ := front
    cases short.symm.trans (Literal.bracketLevel?_opener level behind)

theorem Skipped.piece {rest text : List Char} (skipped : Skipped rest text) :
    ∃ c cs, text ++ rest = c :: cs ∧ Lexer.piece c cs = .gap text := by
  cases skipped with
  | blanks some blank ended =>
    obtain ⟨c, text, rfl⟩ := List.exists_cons_of_ne_nil some
    obtain ⟨first, others⟩ := List.forall_mem_cons.mp blank
    refine ⟨c, text ++ rest, rfl, ?_⟩
    rw [Lexer.piece, if_pos first, takeWhile_append_ended others ended]
  | @hashBang text noBreak ended =>
    have whole : line ('#' :: '!' :: (text ++ rest)) = '#' :: '!' :: text :=
      @line_append ('#' :: '!' :: text) rest (by simpa using noBreak) ended
    exact ⟨'#', '!' :: (text ++ rest), rfl, congrArg Piece.gap whole⟩
  | @lineComment text noBreak ended short =>
    have whole : line ('-' :: '-' :: (text ++ rest)) = '-' :: '-' :: text :=
      @line_append ('-' :: '-' :: text) rest (by simpa using noBreak) ended
    refine ⟨'-', '-' :: (text ++ rest), rfl, ?_⟩
    have still : bracketLevel? (('-' :: '-' :: (text ++ rest)).drop 2) = none :=
      bracketLevel?_ended short noBreak ended
    change comment _ = _
    rw [comment, still, whole]
  | @longComment level body closed =>
    refine ⟨'-', '-' :: (opener level ++ (body ++ closer level) ++ rest), rfl, ?_⟩
    have opens := Literal.bracketLevel?_opener level (body ++ closer level ++ rest)
    have found := through?_append (through?_of_firstBehind closed) rest
    rw [List.append_assoc (opener level)]
    change comment _ = _
    simp only [comment, List.drop_succ_cons, List.drop_zero, opens, bracketed, List.cons_append,
      List.nil_append, List.length_cons, List.drop_left, found]
    rfl

theorem Skipped.munched {rest text : List Char} (skipped : Skipped rest text) :
    Munched none text rest := by
  obtain ⟨c, cs, whole, cut⟩ := skipped.piece
  have munched := @piece_munched c cs (by simp [cut, Piece.gap])
  rw [cut, ← whole] at munched
  simpa [Piece.gap] using munched

inductive Munches (rest : List Char) : List Char → Prop where
  | nil : Munches rest []
  | cons {text more : List Char} (first : Munched none text (more ++ rest))
      (later : Munches rest more) : Munches rest (text ++ more)

theorem Gap.munches {rest gap : List Char} (skipped : Gap rest gap) : Munches rest gap := by
  induction skipped with
  | nil => exact .nil
  | cons first _ ih => exact .cons first.munched ih

theorem Munched.number {text after : List Char} (munched : Munched (some .number) text after) :
    text ∈ Pattern.number ∧
      ∀ fit ∈ Pattern.number, fit <+: text ++ after → fit.length ≤ text.length := by
  obtain ⟨rule, front, numeric, fits, takes, longest⟩ := munched
  obtain rfl : text = front := by
    cases takes with
    | front => rfl
    | _ => cases numeric
  refine ⟨?_, ?_⟩
  · cases rule with
    | decimal => exact .inl (.inl fits)
    | pointDecimal => exact .inl (.inr fits)
    | hexadecimal => exact .inr fits
    | _ => cases numeric
  · rintro fit ((fits | fits) | fits) inside
    · exact longest .decimal fit fits inside
    · exact longest .pointDecimal fit fits inside
    · exact longest .hexadecimal fit fits inside

theorem not_keyword_of_ident {c : Char} {cs text : List Char}
    (read : piece c cs = ⟨some .ident, text⟩) (name : Keyword) :
    String.ofList text ≠ name.text := by
  have cut := piece_cut c cs
  rw [read] at cut
  cases cut with
  | ident unknown =>
    have known : name ∈ Keyword.all := by cases name <;> decide
    have differs := List.find?_eq_none.mp unknown name known
    intro same
    exact differs (decide_eq_true same.symm)

end LuaSearch.Lexer

namespace LuaSearch

open Lexer

theorem munched_of_token {source : String} {token : Token} (member : token ∈ tokenize source)
    (noError : token.kind ≠ .error) (notLast : token.kind ≠ .eof) :
    ∃ before after, source.toList = before ++ (token.text.toList ++ after) ∧
      token.span.start = byteLength before ∧
      Munched (some token.kind) token.text.toList after := by
  obtain ⟨before, c, cs, split, start, read⟩ := piece_of_token member notLast
  have munched := @piece_munched c cs (by rw [read]; simpa using noError)
  have front := List.prefix_iff_eq_append.mp (piece_isPrefix c cs)
  rw [read] at munched front
  refine ⟨before, _, ?_, by simpa using start, munched⟩
  rw [split, front]

/-- Every token but errors and the end is a munch where its span starts: its text is what a rule
    for its kind takes, and no rule fits a longer front of the source there. A number is the
    longest number; a name is no keyword; and what stands between the tokens are munches too. -/
theorem tokens_munch_maximally (source : String) :
    (∀ token ∈ tokenize source, token.kind ≠ .error → token.kind ≠ .eof →
      ∃ before after, source.toList = before ++ (token.text.toList ++ after) ∧
        token.span.start = byteLength before ∧
        Munched (some token.kind) token.text.toList after) ∧
    (∀ token ∈ tokenize source, token.kind = .number →
      ∃ before after, source.toList = before ++ (token.text.toList ++ after) ∧
        token.span.start = byteLength before ∧ token.text.toList ∈ Pattern.number ∧
        ∀ fit ∈ Pattern.number, fit <+: token.text.toList ++ after →
          fit.length ≤ token.text.toList.length) ∧
    (∀ token ∈ tokenize source, token.kind = .ident →
      ∀ name : Keyword, token.text ≠ name.text) ∧
    ∀ gap ∈ gaps source, ∃ before text after, source.toList = before ++ (text ++ after) ∧
      gap.start = byteLength before ∧ gap.stop = byteLength before + byteLength text ∧
      Munches after text := by
  refine ⟨?_, ?_, ?_, ?_⟩
  · intro token member noError notLast
    exact munched_of_token member noError notLast
  · intro token member numeric
    obtain ⟨before, after, split, start, munched⟩ :=
      munched_of_token member (by simp [numeric]) (by simp [numeric])
    rw [numeric] at munched
    exact ⟨before, after, split, start, munched.number⟩
  · intro token member named name
    obtain ⟨_, c, cs, _, _, read⟩ := piece_of_token member (by simp [named])
    rw [named] at read
    simpa using not_keyword_of_ident read name
  · intro gap member
    have isGap := (tokenize_tiles source).isGap (List.nil_append _).symm rfl gap member
    obtain ⟨before, text, after, split, start, stop, skipped⟩ := isGap
    exact ⟨before, text, after, split, start, stop, skipped.munches⟩

/-- No digit behind the mark of an exponent or the `x`, a second point, a word that only starts with
    a keyword, and a bracket of another level inside a long one. -/
theorem tokens_munch_maximally_dangling :
    let source := "0x 1e+ 1.2.3 ends--[[\n]][=[]]]=]"
    let number : Token := ⟨.number, ⟨7, 10⟩, "1.2"⟩
    let name : Token := ⟨.ident, ⟨13, 17⟩, "ends"⟩
    let long : Token := ⟨.longString, ⟨24, 32⟩, "[=[]]]=]"⟩
    let gap : Span := ⟨17, 24⟩
    (tokenize source).map (fun token => (token.kind, token.text)) =
      [(.number, "0"), (.ident, "x"), (.number, "1"), (.ident, "e"), (.symbol .plus, "+"),
        (.number, "1.2"), (.number, ".3"), (.ident, "ends"), (.longString, "[=[]]]=]"),
        (.eof, "")] ∧
    (number ∈ tokenize source ∧
      ∃ before after, source.toList = before ++ ("1.2".toList ++ after) ∧
        7 = byteLength before ∧ "1.2".toList ∈ Pattern.number ∧
        ∀ fit ∈ Pattern.number, fit <+: "1.2".toList ++ after →
          fit.length ≤ "1.2".toList.length) ∧
    (name ∈ tokenize source ∧ ∀ keyword : Keyword, "ends" ≠ keyword.text) ∧
    (long ∈ tokenize source ∧
      ∃ before after, source.toList = before ++ (long.text.toList ++ after) ∧
        24 = byteLength before ∧ Munched (some .longString) long.text.toList after) ∧
    gap ∈ gaps source ∧ ∃ before text after, source.toList = before ++ (text ++ after) ∧
      17 = byteLength before ∧ 24 = byteLength before + byteLength text ∧
      Munches after text := by
  intro source number name long gap
  have all : tokenize source =
      [⟨.number, ⟨0, 1⟩, "0"⟩, ⟨.ident, ⟨1, 2⟩, "x"⟩, ⟨.number, ⟨3, 4⟩, "1"⟩,
        ⟨.ident, ⟨4, 5⟩, "e"⟩, ⟨.symbol .plus, ⟨5, 6⟩, "+"⟩, number,
        ⟨.number, ⟨10, 12⟩, ".3"⟩, name, long, Token.endMarker 32] := by
    dsimp only [source, number, name, long]
    rfl
  have munches := tokens_munch_maximally source
  have isNumber : number ∈ tokenize source := by simp [all]
  have isName : name ∈ tokenize source := by simp [all]
  have isLong : long ∈ tokenize source := by simp [all]
  have isGap : gap ∈ gaps source := by simp [gaps, all, gapsFrom, gap, name, long]
  refine ⟨by rw [all]; rfl, ⟨isNumber, munches.2.1 number isNumber rfl⟩,
    ⟨isName, munches.2.2.1 name isName rfl⟩, ⟨isLong, munches.1 long isLong (by simp [long]) (by simp [long])⟩,
    isGap, munches.2.2.2 gap isGap⟩

end LuaSearch
