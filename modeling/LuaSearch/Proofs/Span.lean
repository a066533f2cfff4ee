import LuaSearch.Span

/-!
Spans that fit a source. An edge of a text is an offset between two of its characters, or at one of
its ends; a span between two edges has a text, and a position that a person can be shown.
-/
namespace LuaSearch

theorem byteLength_toList (source : String) :
    byteLength source.toList = source.utf8ByteSize := by
  have chars (cs : List Char) : byteLength cs = (String.ofList cs).utf8ByteSize := by
    induction cs with
    | nil => rfl
    | cons c cs ih =>
      rw [String.ofList_cons, String.utf8ByteSize_append, String.utf8ByteSize_singleton,
        byteLength, ih]
  rw [chars, String.ofList_toList]

theorem byteLength_pos {cs : List Char} (some : cs ≠ []) : 0 < byteLength cs := by
  cases cs with
  | nil => exact absurd rfl some
  | cons c cs =>
    have positive := c.utf8Size_pos
    simp only [byteLength]
    omega

theorem isPrefix_of_byteLength_le {a b c d : List Char} (same : a ++ b = c ++ d)
    (short : byteLength a ≤ byteLength c) : a <+: c := by
  rcases List.append_eq_append_iff.mp same with ⟨more, rfl, _⟩ | ⟨more, rfl, _⟩
  · exact List.prefix_append a more
  · by_cases empty : more = []
    · simp [empty]
    · have positive := byteLength_pos empty
      rw [byteLength_append] at short
      omega

/-- The offset lies between two characters of the source, or at one of its ends. -/
def Edge (source : String) (offset : Nat) : Prop :=
  ∃ before after, source.toList = before ++ after ∧ byteLength before = offset

theorem Edge.le {source : String} {offset : Nat} (edge : Edge source offset) :
    offset ≤ source.utf8ByteSize := by
  obtain ⟨before, after, text, rfl⟩ := edge
  rw [← byteLength_toList, text, byteLength_append]
  omega

theorem Edge.split {source : String} {offset : Nat} (edge : Edge source offset) :
    ∃ before after, source.toList = before ++ after ∧ byteLength before = offset ∧
      splitAtByte? source.toList offset = some (before, after) := by
  obtain ⟨before, after, text, rfl⟩ := edge
  exact ⟨before, after, text, rfl, by rw [text, splitAtByte?_append]⟩

theorem upToByte_append (a b : List Char) : upToByte (a ++ b) (byteLength a) = a := by
  induction a with
  | nil =>
    cases b with
    | nil => rfl
    | cons c b =>
      have positive : ¬ c.utf8Size ≤ 0 := Nat.not_le.mpr c.utf8Size_pos
      simp only [upToByte, List.nil_append, byteLength, if_neg positive]
  | cons c a ih =>
    have rest : c.utf8Size + byteLength a - c.utf8Size = byteLength a := by omega
    simp [upToByte, byteLength, rest, ih]

namespace Span

def Shows (source : String) (s : Span) (text : List Char) : Prop :=
  ∃ before after, source.toList = before ++ (text ++ after) ∧ s.start = byteLength before ∧
    s.stop = byteLength before + byteLength text

def Inside (s t : Span) : Prop := t.start ≤ s.start ∧ s.stop ≤ t.stop

/-- The span lies between two edges of the source. -/
structure Fits (source : String) (s : Span) : Prop where
  ordered : s.start ≤ s.stop
  start : Edge source s.start
  stop : Edge source s.stop

variable {source : String} {s t u : Span} {text : List Char}

theorem Inside.refl (s : Span) : s.Inside s := ⟨Nat.le_refl _, Nat.le_refl _⟩

theorem Inside.trans (first : s.Inside t) (second : t.Inside u) : s.Inside u :=
  ⟨Nat.le_trans second.1 first.1, Nat.le_trans first.2 second.2⟩

theorem Shows.fits (shows : s.Shows source text) : s.Fits source := by
  obtain ⟨before, after, whole, start, stop⟩ := shows
  refine ⟨by omega, ⟨before, text ++ after, whole, start.symm⟩, before ++ text, after, ?_, ?_⟩
  · rw [whole, List.append_assoc]
  · rw [byteLength_append, stop]

theorem Shows.text? (shows : s.Shows source text) : s.text? source = some (String.ofList text) := by
  obtain ⟨before, after, whole, start, stop⟩ := shows
  have ordered : s.start ≤ s.stop := by omega
  have width : s.stop - s.start = byteLength text := by omega
  have inside := splitAtByte?_append text after
  have behind := splitAtByte?_append before (text ++ after)
  rw [start] at width
  rw [Span.text?, if_pos ordered, whole, start]
  simp [behind, width, inside]

theorem Fits.shows (fits : s.Fits source) : ∃ text, s.Shows source text := by
  obtain ⟨ordered, ⟨before, after, whole, start⟩, front, back, whole', stop⟩ := fits
  have nested : before <+: front :=
    isPrefix_of_byteLength_le (whole.symm.trans whole') (by omega)
  obtain ⟨text, rfl⟩ := nested
  rw [byteLength_append] at stop
  exact ⟨text, before, back, by rw [whole', List.append_assoc], start.symm, by omega⟩

theorem shows_of_text? {shown : String} (given : s.text? source = some shown) :
    s.Shows source shown.toList := by
  unfold Span.text? at given
  split at given
  · rename_i ordered
    obtain ⟨⟨before, behind⟩, front, given⟩ := Option.bind_eq_some_iff.mp given
    obtain ⟨⟨inside, after⟩, back, given⟩ := Option.bind_eq_some_iff.mp given
    obtain rfl := Option.some.inj given
    obtain ⟨whole, start⟩ := eq_of_splitAtByte? front
    obtain ⟨rfl, width⟩ := eq_of_splitAtByte? back
    refine ⟨before, after, ?_, start.symm, ?_⟩
    · rw [String.toList_ofList, whole]
    · rw [String.toList_ofList]
      omega
  · cases given

theorem Shows.isInfix {small large : List Char} (inner : s.Shows source small)
    (outer : t.Shows source large) (inside : s.Inside t) : small <:+: large := by
  obtain ⟨before, after, whole, start, stop⟩ := inner
  obtain ⟨before', after', whole', start', stop'⟩ := outer
  obtain ⟨earlier, later⟩ := inside
  have same := whole'.symm.trans whole
  obtain ⟨left, rfl⟩ : before' <+: before := isPrefix_of_byteLength_le same (by omega)
  rw [List.append_assoc, List.append_cancel_left_eq, ← List.append_assoc] at same
  rw [byteLength_append] at start stop
  have front : left ++ small <+: large := by
    apply isPrefix_of_byteLength_le same.symm
    rw [byteLength_append]
    omega
  obtain ⟨right, whole⟩ := front
  exact ⟨left, right, whole⟩

theorem Fits.text? (fits : s.Fits source) : ∃ text, s.text? source = some text := by
  obtain ⟨text, shows⟩ := fits.shows
  exact ⟨_, shows.text?⟩

theorem position_of_edge (edge : Edge source s.start) :
    ∃ before after, source.toList = before ++ after ∧ byteLength before = s.start ∧
      s.position source = Position.after before ∧
      s.position? source = some (Position.after before) := by
  obtain ⟨before, after, whole, start, split⟩ := edge.split
  have position : s.position source = Position.after before := by
    rw [Span.position, whole, ← start, upToByte_append]
  refine ⟨before, after, whole, start, position, ?_⟩
  unfold Span.position?
  split
  · rw [position]
  · simp [split]

theorem Fits.position? (fits : s.Fits source) :
    s.position? source = some (s.position source) := by
  obtain ⟨_, _, _, _, position, given⟩ := position_of_edge fits.start
  rw [given, position]

theorem Fits.stop_le (fits : s.Fits source) : s.stop ≤ source.utf8ByteSize := fits.stop.le

end Span

end LuaSearch
