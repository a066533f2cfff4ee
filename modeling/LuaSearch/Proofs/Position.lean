import LuaSearch.Proofs.Span

/-!
Lines and columns as names of places. Reading a character moves the position on, line first and
then column, so a later place has a later position. In the other direction a position is a way to
go: past so many lines, each with the line feed that ends it, and then along the next line past so
many of its characters. The way that the position of a place describes leads back to that place.
-/
namespace LuaSearch

instance : LT Position := ⟨fun p q => p.line < q.line ∨ p.line = q.line ∧ p.column < q.column⟩

namespace Position

theorem lt_iff {p q : Position} :
    p < q ↔ p.line < q.line ∨ p.line = q.line ∧ p.column < q.column := Iff.rfl

theorem lt_trans {p q r : Position} (first : p < q) (second : q < r) : p < r := by
  rw [lt_iff] at first second ⊢
  omega

theorem lt_next (p : Position) (c : Char) : p < p.next c := by
  rw [lt_iff]
  unfold next
  split
  · exact .inl (Nat.lt_succ_self p.line)
  · exact .inr ⟨rfl, Nat.lt_succ_self p.column⟩

theorem lt_foldl {cs : List Char} (some : cs ≠ []) (p : Position) : p < cs.foldl next p := by
  induction cs generalizing p with
  | nil => exact absurd rfl some
  | cons c cs ih =>
    by_cases last : cs = []
    · subst last
      exact lt_next p c
    · exact lt_trans (lt_next p c) (ih last (p.next c))

def pastLine : List Char → Option (List Char)
  | [] => none
  | c :: cs => if c = '\n' then some cs else pastLine cs

def pastColumn : List Char → Option (List Char)
  | [] => none
  | c :: cs => if c = '\n' then none else some cs

def times (step : List Char → Option (List Char)) : Nat → List Char → Option (List Char)
  | 0, cs => some cs
  | n + 1, cs => (times step n cs).bind step

/-- What is left of the text behind the position. There may be too few lines, or too few
    characters in the line. -/
def rest? (p : Position) (text : List Char) : Option (List Char) :=
  (times pastLine (p.line - 1) text).bind (times pastColumn (p.column - 1))

def offset? (p : Position) (source : String) : Option Nat :=
  (p.rest? source.toList).map fun rest => source.utf8ByteSize - byteLength rest

/-- Lines and columns count from one, and the position leaves that rest of the text. -/
structure Leaves (text : List Char) (p : Position) (rest : List Char) : Prop where
  line_pos : 1 ≤ p.line
  column_pos : 1 ≤ p.column
  rest_eq : p.rest? text = some rest

variable {text rest : List Char} {p : Position}

/-- Going along a line does not change which line feed ends it. -/
theorem pastLine_of_columns {n : Nat} {line : List Char}
    (along : times pastColumn n line = some rest) : pastLine line = pastLine rest := by
  induction n generalizing rest with
  | zero => exact congrArg pastLine (Option.some.inj along)
  | succ n ih =>
    obtain ⟨middle, before, step⟩ := Option.bind_eq_some_iff.mp along
    rw [ih before]
    cases middle with
    | nil => cases step
    | cons c cs =>
      simp only [pastColumn] at step
      split at step
      · cases step
      · rename_i other
        rw [pastLine, if_neg other, Option.some.inj step]

theorem Leaves.nextLine (leaves : Leaves text p ('\n' :: rest)) :
    Leaves text ⟨p.line + 1, 1⟩ rest := by
  obtain ⟨line_pos, _, rest_eq⟩ := leaves
  obtain ⟨n, line⟩ := Nat.exists_eq_add_of_le' line_pos
  refine ⟨Nat.le_add_left 1 p.line, Nat.le_refl 1, ?_⟩
  rw [rest?, line, Nat.add_sub_cancel] at rest_eq
  obtain ⟨front, lines, along⟩ := Option.bind_eq_some_iff.mp rest_eq
  -- The characters passed are no line feeds, so the one that was read ends the line they are in.
  have past : pastLine front = some rest := by
    rw [pastLine_of_columns along, pastLine, if_pos rfl]
  rw [rest?, line, Nat.add_sub_cancel, times, lines, Option.bind_some, past]
  rfl

theorem Leaves.nextColumn {c : Char} (other : c ≠ '\n') (leaves : Leaves text p (c :: rest)) :
    Leaves text ⟨p.line, p.column + 1⟩ rest := by
  obtain ⟨line_pos, column_pos, rest_eq⟩ := leaves
  obtain ⟨n, column⟩ := Nat.exists_eq_add_of_le' column_pos
  refine ⟨line_pos, Nat.le_add_left 1 p.column, ?_⟩
  have step : (p.rest? text).bind pastColumn = some rest := by
    rw [rest_eq, Option.bind_some, pastColumn, if_neg other]
  rw [rest?, column, Nat.add_sub_cancel, Option.bind_assoc] at step
  rw [rest?, column, Nat.add_sub_cancel]
  exact step

theorem Leaves.next {c : Char} (leaves : Leaves text p (c :: rest)) :
    Leaves text (p.next c) rest := by
  unfold Position.next
  by_cases ends : c = '\n'
  · subst ends
    rw [if_pos rfl]
    exact leaves.nextLine
  · rw [if_neg ends]
    exact leaves.nextColumn ends

theorem Leaves.foldl {cs : List Char} (leaves : Leaves text p (cs ++ rest)) :
    Leaves text (cs.foldl Position.next p) rest := by
  induction cs generalizing p with
  | nil => exact leaves
  | cons c cs ih => exact ih leaves.next

theorem leaves_after (before rest : List Char) :
    Leaves (before ++ rest) (Position.after before) rest := by
  have start : Leaves (before ++ rest) ⟨1, 1⟩ (before ++ rest) :=
    ⟨Nat.le_refl 1, Nat.le_refl 1, rfl⟩
  exact start.foldl

theorem Leaves.offset? {source : String} {before : List Char}
    (leaves : Leaves source.toList p rest) (whole : source.toList = before ++ rest) :
    p.offset? source = some (byteLength before) := by
  rw [Position.offset?, leaves.rest_eq, Option.map_some, ← byteLength_toList, whole,
    byteLength_append, Nat.add_sub_cancel_right]

end Position

theorem upToByte_of_le {cs : List Char} {n : Nat} (short : byteLength cs ≤ n) :
    upToByte cs n = cs := by
  induction cs generalizing n with
  | nil => rfl
  | cons c cs ih =>
    rw [byteLength] at short
    rw [upToByte, if_pos (by omega), ih (by omega)]

theorem Span.position_past {source : String} {s : Span} (past : source.utf8ByteSize ≤ s.start) :
    s.position? source = some (Position.after source.toList) := by
  have short : byteLength source.toList ≤ s.start := byteLength_toList source ▸ past
  rw [Span.position?, if_pos past, Span.position, upToByte_of_le short]

/-- Positions name the places of a source. Of two edges the later one has the later position. The
    position of an edge is counted from one, and past the lines before it and then so many
    characters along its line it leads to exactly that edge. A start past the end has the position
    of the end. -/
theorem positions_name_places (source : String) :
    (∀ s t : Span, Edge source s.start → Edge source t.start → s.start < t.start →
      s.position source < t.position source) ∧
    (∀ s : Span, Edge source s.start →
      let p := s.position source
      s.position? source = some p ∧ 1 ≤ p.line ∧ 1 ≤ p.column ∧
        p.offset? source = some s.start) ∧
    ∀ s e : Span, source.utf8ByteSize ≤ s.start → e.start = source.utf8ByteSize →
      s.position? source = some (e.position source) := by
  refine ⟨?_, ?_, ?_⟩
  · intro s t edge edge' less
    obtain ⟨before, after, whole, start, position, _⟩ := Span.position_of_edge edge
    obtain ⟨before', after', whole', start', position', _⟩ := Span.position_of_edge edge'
    have front : before <+: before' :=
      isPrefix_of_byteLength_le (whole.symm.trans whole') (by omega)
    obtain ⟨between, rfl⟩ := front
    have some : between ≠ [] := by
      rintro rfl
      rw [List.append_nil] at start'
      omega
    rw [position, position', Position.after, Position.after, List.foldl_append]
    exact Position.lt_foldl some _
  · intro s edge
    obtain ⟨before, after, whole, start, position, given⟩ := Span.position_of_edge edge
    have leaves := Position.leaves_after before after
    rw [← whole, ← position] at leaves
    rw [← position] at given
    exact ⟨given, leaves.line_pos, leaves.column_pos, start ▸ leaves.offset? whole⟩
  · intro s e past atEnd
    have given := Span.position_past past
    have atEnd' := Span.position_past (s := e) (Nat.le_of_eq atEnd.symm)
    have edge : Edge source e.start :=
      ⟨source.toList, [], (List.append_nil _).symm, by rw [byteLength_toList, atEnd]⟩
    obtain ⟨before, after, _, _, position, given'⟩ := Span.position_of_edge edge
    rw [given, ← atEnd', given', position]

/-- A character of two bytes before a line feed, and an empty line: on the first line feed, right
    behind it, behind the second one, and past the end. -/
theorem positions_name_places_lines :
    let source := "aé\n\nbc"
    let place (start : Nat) : Span := ⟨start, start⟩
    Edge source 3 ∧ Edge source 4 ∧ Edge source 5 ∧ source.utf8ByteSize = 7 ∧
      (place 3).position source = ⟨1, 3⟩ ∧ (place 4).position source = ⟨2, 1⟩ ∧
      (place 5).position source = ⟨3, 1⟩ ∧
      (place 3).position source < (place 4).position source ∧
      (place 4).position source < (place 5).position source ∧
      Position.offset? ⟨1, 3⟩ source = some 3 ∧ Position.offset? ⟨3, 1⟩ source = some 5 ∧
      (place 9).position? source = some ⟨3, 3⟩ := by
  intro source place
  obtain ⟨ordered, leads, past⟩ := positions_name_places source
  have third : Edge source 3 := ⟨['a', 'é'], ['\n', '\n', 'b', 'c'], by simp [source], rfl⟩
  have fourth : Edge source 4 := ⟨['a', 'é', '\n'], ['\n', 'b', 'c'], by simp [source], rfl⟩
  have fifth : Edge source 5 := ⟨['a', 'é', '\n', '\n'], ['b', 'c'], by simp [source], rfl⟩
  have size : source.utf8ByteSize = 7 := rfl
  have at3 : (place 3).position source = ⟨1, 3⟩ := by decide +kernel
  have at4 : (place 4).position source = ⟨2, 1⟩ := by decide +kernel
  have at5 : (place 5).position source = ⟨3, 1⟩ := by decide +kernel
  have at7 : (place 7).position source = ⟨3, 3⟩ := by decide +kernel
  have lead3 := (leads (place 3) third).2.2.2
  have lead5 := (leads (place 5) fifth).2.2.2
  have beyond := past (place 9) (place 7) (by rw [size]; decide) size.symm
  rw [at3] at lead3
  rw [at5] at lead5
  rw [at7] at beyond
  exact ⟨third, fourth, fifth, size, at3, at4, at5,
    ordered (place 3) (place 4) third fourth (by decide),
    ordered (place 4) (place 5) fourth fifth (by decide), lead3, lead5, beyond⟩

end LuaSearch
