import LuaSearch.Proofs.Parse.Steps.Statement

/-!
Readers in a source. The places in a source are counted by the tokens before them, and the last
token is the end marker. A reader that steps goes from a place to one that is not before it, and if
it moves at all, the end marker is still ahead. The counter of levels is in the end what it was.
-/
namespace LuaSearch

open Parse

theorem tokenize_ends (source : String) :
    ∃ front, tokenize source = front ++ [Token.endMarker source.utf8ByteSize] ∧
      ∀ token ∈ front, token.kind ≠ .eof := by
  obtain ⟨front, split, inside⟩ := (tokenize_tiles source).ends
  rw [Nat.zero_add, byteLength_toList] at split
  exact ⟨front, split, fun token member => (inside token member).1⟩

namespace Cursor

/-- The cursor behind the first tokens of a source. -/
def behind (source : String) (taken : Nat) : Cursor :=
  Nat.repeat Cursor.advance taken (Cursor.start source.utf8ByteSize (tokenize source))

variable (source : String) (taken : Nat)

theorem rest_behind : (behind source taken).rest = (tokenize source).drop taken := by
  induction taken with
  | zero => rfl
  | succ taken ih =>
    have step : (behind source (taken + 1)).rest = (behind source taken).rest.tail :=
      rest_advance _
    rw [step, ih, List.tail_drop]

theorem left_behind : (behind source taken).left = (tokenize source).length - taken := by
  rw [(behind source taken).counted, rest_behind, List.length_drop]

theorem final_behind : (behind source taken).final = Token.endMarker source.utf8ByteSize := by
  induction taken with
  | zero =>
    obtain ⟨front, split, _⟩ := tokenize_ends source
    simp [behind, Nat.repeat, Cursor.start, split]
  | succ taken ih =>
    have step : (behind source (taken + 1)).final = (behind source taken).final := final_advance _
    rw [step, ih]

theorem depth_behind : (behind source taken).depth = 0 := by
  induction taken with
  | zero => rfl
  | succ taken ih =>
    have step : (behind source (taken + 1)).depth = (behind source taken).depth := depth_advance _
    rw [step, ih]

theorem ended_behind : (behind source taken).final.kind = .eof := by
  rw [final_behind]
  rfl

theorem isEnd_behind :
    (behind source taken).current.kind = .eof ↔ (tokenize source).length ≤ taken + 1 := by
  obtain ⟨front, split, inside⟩ := tokenize_ends source
  have seen : (behind source taken).current =
      (front[taken]?).getD (Token.endMarker source.utf8ByteSize) := by
    rw [Cursor.current, rest_behind, final_behind, List.head?_drop, split, List.getElem?_append]
    split
    · rfl
    · rename_i past
      rw [List.getElem?_eq_none (Nat.not_lt.mp past)]
      cases taken - front.length <;> rfl
  have count : (tokenize source).length = front.length + 1 := by simp [split]
  rw [seen, count, Nat.add_le_add_iff_right]
  by_cases among : taken < front.length
  · have notEnd := inside _ (List.getElem_mem among)
    simp [notEnd, among]
  · simp [Token.endMarker, Nat.not_lt.mp among]

theorem advance_behind_of_end {source : String} {taken : Nat}
    (inside : taken ≤ (tokenize source).length) (ends : (tokenize source).length ≤ taken + 1) :
    (behind source taken).advance = behind source (tokenize source).length := by
  rcases Nat.eq_or_lt_of_le inside with rfl | before
  · have none : (behind source (tokenize source).length).rest = [] := by
      rw [rest_behind, List.drop_length]
    generalize behind source (tokenize source).length = c at none ⊢
    rcases c with ⟨previous?, rest, left, final, depth, counted⟩
    subst none
    rfl
  · have last : (tokenize source).length = taken + 1 := Nat.le_antisymm ends before
    rw [last]
    rfl

end Cursor

section

variable {source : String}

theorem Cursor.Moves.behind {c c' : Cursor} (moves : c.Moves c') {start depth : Nat}
    (here : c = (Cursor.behind source start).atDepth depth) :
    ∃ stop, c' = (Cursor.behind source stop).atDepth depth ∧ start ≤ stop ∧
      (start < stop → stop < (tokenize source).length) := by
  induction moves generalizing start with
  | refl c => exact ⟨start, here, Nat.le_refl _, fun moved => absurd moved (Nat.lt_irrefl _)⟩
  | @step c c' notEnd later ih =>
    subst here
    rw [current_atDepth, Ne, Cursor.isEnd_behind] at notEnd
    have next : ((Cursor.behind source start).atDepth depth).advance =
        (Cursor.behind source (start + 1)).atDepth depth := advance_atDepth _ _
    obtain ⟨stop, there, forward, before⟩ := ih next
    exact ⟨stop, there, by omega, by omega⟩

theorem Cursor.Takes.behind {c' : Cursor} {start depth : Nat}
    (takes : ((Cursor.behind source start).atDepth depth).Takes c') :
    ∃ stop, c' = (Cursor.behind source stop).atDepth depth ∧ start < stop ∧
      stop < (tokenize source).length := by
  obtain ⟨notEnd, moves, _⟩ := takes
  rw [current_atDepth, Ne, Cursor.isEnd_behind] at notEnd
  have next : ((Cursor.behind source start).atDepth depth).advance =
      (Cursor.behind source (start + 1)).atDepth depth := advance_atDepth _ _
  obtain ⟨stop, there, forward, before⟩ := moves.behind next
  exact ⟨stop, there, by omega, by omega⟩

end

namespace Parse

/-- Reading came to an end by itself, at a place in the source that is not before its start. -/
structure Went {α : Type} (source : String) (start stop : Nat) (result : Except SyntaxError α) :
    Prop where
  finished : Finished result
  forward : start ≤ stop
  inside : stop ≤ (tokenize source).length

theorem Went.map {α β : Type} {source : String} {start stop : Nat}
    {result : Except SyntaxError α} (went : Went source start stop result) (f : α → β) :
    Went source start stop (result.map f) where
  finished := by
    rcases result with e | a
    · exact .error (went.finished e rfl)
    · exact .ok (f a)
  forward := went.forward
  inside := went.inside

/-- From every place in the source, and on every level of nesting, the reader goes forward and
    leaves the counter of levels as it was, however it ends. A value that asks for it has taken a
    token, and the end marker, which is the last token, is never taken. -/
def Forward {α : Type} (source : String) (takes : α → Prop) (reader : Parse α) : Prop :=
  ∀ start ≤ (tokenize source).length, ∀ depth, ∃ result stop,
    reader.runOn ((Cursor.behind source start).atDepth depth) =
      (result, (Cursor.behind source stop).atDepth depth) ∧
    Went source start stop result ∧ (start < stop → stop < (tokenize source).length) ∧
    ∀ a, result = .ok a → takes a → start < stop

theorem Forward.of_steps {α : Type} {takes : α → Prop} {reader : Parse α} (source : String)
    (steps : ∀ {c : Cursor}, Steps c c takes reader) : Forward source takes reader := by
  intro start inside depth
  have ended : ((Cursor.behind source start).atDepth depth).final.kind = .eof :=
    Cursor.ended_behind source start
  have stepped := steps ended (.refl _)
  generalize reader.runOn ((Cursor.behind source start).atDepth depth) = ran at stepped
  cases stepped with
  | @taken result c' further finished =>
    obtain ⟨stop, rfl, moved, before⟩ := further.behind
    exact ⟨result, stop, rfl, ⟨finished, by omega, by omega⟩, fun _ => before, fun _ _ _ => moved⟩
  | @still result free finished =>
    refine ⟨result, start, rfl, ⟨finished, Nat.le_refl _, inside⟩, ?_, ?_⟩
    · intro moved
      exact absurd moved (Nat.lt_irrefl _)
    · intro a given asks
      exact absurd asks (free a given)

theorem Forward.fresh {α : Type} {source : String} {takes : α → Prop} {reader : Parse α}
    (forward : Forward source takes reader) (start : Nat)
    (inside : start ≤ (tokenize source).length) :
    ∃ result stop, reader.runOn (.behind source start) = (result, .behind source stop) ∧
      Went source start stop result ∧ (start < stop → stop < (tokenize source).length) ∧
      ∀ a, result = .ok a → takes a → start < stop := by
  obtain ⟨result, stop, ran, facts⟩ := forward start inside 0
  rw [Cursor.atDepth_of_depth (Cursor.depth_behind source start),
    Cursor.atDepth_of_depth (Cursor.depth_behind source stop)] at ran
  exact ⟨result, stop, ran, facts⟩

end Parse

namespace Grammar

/-- Expressions, statements and each round of repetition go forward in the source; blocks may stand
    still. -/
structure Level.GoesForward (source : String) (inner : Level) : Prop where
  expr : Forward source (fun _ => True) (expr inner)
  statement : Forward source (fun _ => True) (statement inner)
  returnStmt : Forward source (fun _ => True) (returnStmt inner)
  block : Forward source (fun _ => False) inner.block
  nextStatement : Forward source (fun s? => s?.isSome) (nextStatement inner)
  sign (sign : Symbol) : Forward source (· = true) (eatSymbol sign)
  suffix (start : Span) (object : Expr) :
    Forward source (fun e? => e?.isSome) (suffix inner start object)
  operation (limit : Nat) (left : Expr) :
    Forward source (fun e? => e?.isSome) (operation inner limit left)
  argument : Forward source (fun _ => True) (do
    let a ← Grammar.expr inner
    return (a, ← eatSymbol .comma))
  field : Forward source (fun _ => True) (do
    let one ← Grammar.field inner
    if ← fieldSeparator then return (one, !(← isAt (.symbol .rbrace)))
    else return (one, false))

theorem Level.goesForward_ofNat (source : String) (levels : Nat) :
    (Level.ofNat levels).GoesForward source := by
  have steps := Level.steps_ofNat levels
  exact {
    expr := .of_steps source (expr_steps steps)
    statement := .of_steps source (statement_steps steps)
    returnStmt := .of_steps source (returnStmt_steps steps)
    block := .of_steps source steps.block
    nextStatement := .of_steps source (nextStatement_steps steps)
    sign := fun sign => .of_steps source (eatSymbol_steps sign)
    suffix := fun start object => .of_steps source (suffix_steps steps start object)
    operation := fun limit left => .of_steps source (operation_steps steps limit left)
    argument := .of_steps source (commaItem_steps (expr_steps steps))
    field := .of_steps source (tableItem_steps steps) }

end Grammar

end LuaSearch
