/-!
Places in a source text. A span is a half-open interval of byte offsets into the UTF-8 form of
the text; a position is the line and column that a person reads. Texts are lists of characters
here, so an offset that falls inside a character is a case to be told apart, not a lost one.
-/
namespace LuaSearch

def byteLength : List Char → Nat
  | [] => 0
  | c :: cs => c.utf8Size + byteLength cs

def splitAtByte? : List Char → Nat → Option (List Char × List Char)
  | cs, 0 => some ([], cs)
  | [], _ + 1 => none
  | c :: cs, n + 1 =>
      if c.utf8Size ≤ n + 1 then
        (splitAtByte? cs (n + 1 - c.utf8Size)).map fun (before, after) => (c :: before, after)
      else none

/-- The characters that end at or before the byte offset. -/
def upToByte : List Char → Nat → List Char
  | [], _ => []
  | c :: cs, n => if c.utf8Size ≤ n then c :: upToByte cs (n - c.utf8Size) else []

theorem byteLength_append (a b : List Char) :
    byteLength (a ++ b) = byteLength a + byteLength b := by
  induction a with
  | nil => simp [byteLength]
  | cons c cs ih => simp [byteLength, ih, Nat.add_assoc]

theorem splitAtByte?_append (a b : List Char) :
    splitAtByte? (a ++ b) (byteLength a) = some (a, b) := by
  induction a with
  | nil => simp [byteLength, splitAtByte?]
  | cons c cs ih =>
    have positive := c.utf8Size_pos
    obtain ⟨n, size⟩ : ∃ n, byteLength (c :: cs) = n + 1 :=
      ⟨byteLength (c :: cs) - 1, by simp [byteLength]; omega⟩
    have rest : n + 1 - c.utf8Size = byteLength cs := by simp [byteLength] at size; omega
    have fits : c.utf8Size ≤ n + 1 := by simp [byteLength] at size; omega
    simp [size, splitAtByte?, fits, rest, ih]

theorem eq_of_splitAtByte? {cs before after : List Char} {n : Nat}
    (split : splitAtByte? cs n = some (before, after)) :
    before ++ after = cs ∧ byteLength before = n := by
  fun_induction splitAtByte? cs n generalizing before after with
  | case1 cs =>
    simp only [Option.some.injEq, Prod.mk.injEq] at split
    simp [← split.1, ← split.2, byteLength]
  | case2 => simp at split
  | case3 c cs n fits ih =>
    obtain ⟨⟨first, last⟩, inner, eq⟩ := Option.map_eq_some_iff.mp split
    simp only [Prod.mk.injEq] at eq
    have tail := ih inner
    rw [← eq.1, ← eq.2]
    simp only [List.cons_append, tail.1, byteLength, tail.2, true_and]
    omega
  | case4 => simp at split

structure Span where
  start : Nat
  stop : Nat
  deriving DecidableEq, Repr

instance : Inhabited Span := ⟨⟨0, 0⟩⟩

def Span.merge (a b : Span) : Span := ⟨min a.start b.start, max a.stop b.stop⟩

/-- The text of the span. There is none when the span is reversed, reaches past the end, or
    cuts a character. -/
def Span.text? (s : Span) (source : String) : Option String :=
  if s.start ≤ s.stop then do
    let (_, after) ← splitAtByte? source.toList s.start
    let (inside, _) ← splitAtByte? after (s.stop - s.start)
    return String.ofList inside
  else none

/-- Line and column, both counted from one. Columns count characters. -/
structure Position where
  line : Nat
  column : Nat
  deriving DecidableEq, Repr

def Position.next (p : Position) (c : Char) : Position :=
  if c = '\n' then ⟨p.line + 1, 1⟩ else ⟨p.line, p.column + 1⟩

def Position.after (cs : List Char) : Position := cs.foldl Position.next ⟨1, 1⟩

theorem Position.after_reverse (cs : List Char) :
    after cs.reverse = ⟨cs.count '\n' + 1, (cs.takeWhile (· ≠ '\n')).length + 1⟩ := by
  induction cs with
  | nil => rfl
  | cons c cs ih =>
    have step : after (c :: cs).reverse = (after cs.reverse).next c := by simp [after]
    rw [step, ih]
    by_cases feed : c = '\n' <;> simp [next, feed]

/-- The line is told by the line feeds before, the column by the characters behind the last one. -/
theorem Position.after_eq (cs : List Char) :
    after cs = ⟨cs.count '\n' + 1, (cs.reverse.takeWhile (· ≠ '\n')).length + 1⟩ := by
  rw [← cs.reverse_reverse, after_reverse, List.reverse_reverse, List.count_reverse]

/-- Where the span starts. A start past the end of the text counts as the end, one inside a
    character as the start of that character. -/
def Span.position (s : Span) (source : String) : Position :=
  Position.after (upToByte source.toList s.start)

theorem Span.position_eq (s : Span) (source : String) :
    let upTo := upToByte source.toList s.start
    s.position source = ⟨upTo.count '\n' + 1, (upTo.reverse.takeWhile (· ≠ '\n')).length + 1⟩ :=
  Position.after_eq _

def Span.position? (s : Span) (source : String) : Option Position :=
  if source.utf8ByteSize ≤ s.start then some (s.position source)
  else (splitAtByte? source.toList s.start).map fun (before, _) => Position.after before

end LuaSearch
