import LuaSearch.Proofs.Parse.Gives
import LuaSearch.Proofs.Token.Tiling

/-!
Where readers go in a source. A cursor that has tiled what is before it takes one token after
another and never the end marker, so what it has taken lies behind what is still ahead. A reader
lands when it only moves so, ends its fault in the source, and gives a value that is right for the
place where it ends.
-/
namespace LuaSearch

namespace Cursor

def here (c : Cursor) : Nat := c.current.span.start

def done (c : Cursor) : Nat := (c.previous?.map Span.stop).getD 0

def between (c c' : Cursor) : Span := ⟨c.here, c'.done⟩

/-- The tokens before the cursor tile what the cursor has left of the source. -/
def Steady (source : String) (c : Cursor) : Prop :=
  ∃ taken left, source.toList = taken ++ left ∧ byteLength taken = c.done ∧
    Lexer.Tiles c.done left c.rest

/-- The second cursor is reached from the first by taking tokens other than the end marker. -/
inductive Moves : Cursor → Cursor → Prop where
  | refl (c : Cursor) : Moves c c
  | step {c c' : Cursor} (notEnd : c.current.kind ≠ .eof) (later : c.advance.Moves c') : Moves c c'

theorem Moves.trans {c d e : Cursor} (first : c.Moves d) (second : d.Moves e) : c.Moves e := by
  induction first with
  | refl c => exact second
  | step notEnd _ ih => exact .step notEnd (ih second)

namespace Steady

variable {source : String} {c c' : Cursor}

theorem start (source : String) :
    (Cursor.start source.utf8ByteSize (tokenize source)).Steady source :=
  ⟨[], source.toList, rfl, rfl, tokenize_tiles source⟩

theorem edge_done (steady : c.Steady source) : Edge source c.done := by
  obtain ⟨taken, left, whole, size, _⟩ := steady
  exact ⟨taken, left, whole, size⟩

theorem current_mem (steady : c.Steady source) : c.current ∈ c.rest := by
  obtain ⟨_, _, _, _, tiles⟩ := steady
  unfold Cursor.current
  cases ahead : c.rest with
  | nil =>
    rw [ahead] at tiles
    cases tiles
  | cons token rest => simp

theorem shows_current (steady : c.Steady source) :
    c.current.span.Shows source c.current.text.toList := by
  have member := steady.current_mem
  obtain ⟨_, _, whole, size, tiles⟩ := steady
  exact tiles.shows whole size _ member

theorem fits_current (steady : c.Steady source) : c.current.span.Fits source :=
  steady.shows_current.fits

theorem done_le_here (steady : c.Steady source) : c.done ≤ c.here := by
  have member := steady.current_mem
  obtain ⟨_, _, _, _, tiles⟩ := steady
  exact tiles.start_le _ member

theorem advance (steady : c.Steady source) (notEnd : c.current.kind ≠ .eof) :
    c.advance.previous? = some c.current.span ∧ c.here < c.current.span.stop ∧
      c.advance.Steady source := by
  obtain ⟨taken, left, whole, size, tiles⟩ := steady
  generalize c.done = offset at size tiles
  rcases c with ⟨previous?, rest, count, final, counted⟩
  cases tiles with
  | last skipped => exact absurd rfl notEnd
  | @token _ gap text rest kind tokens skipped some notLast later =>
    have positive := byteLength_pos some
    refine ⟨rfl, ?_, taken ++ (gap ++ text), rest, ?_, ?_, later⟩
    · simp only [Cursor.here, Cursor.current, List.head?_cons, Option.getD_some]
      omega
    · rw [whole]
      simp
    · simp only [byteLength_append, size]
      simp only [Cursor.done, Cursor.advance, Option.map_some, Option.getD_some]
      omega

theorem done_advance (steady : c.Steady source) (notEnd : c.current.kind ≠ .eof) :
    c.advance.done = c.current.span.stop := by
  obtain ⟨last, _, _⟩ := steady.advance notEnd
  simp [Cursor.done, last]

end Steady

structure Reaches (c c' : Cursor) : Prop where
  moves : c.Moves c'
  forward : c.done ≤ c'.done ∧ c.here ≤ c'.here ∧ c'.done ≤ c'.here

theorem Reaches.trans {c d e : Cursor} (first : c.Reaches d) (second : d.Reaches e) :
    c.Reaches e := by
  obtain ⟨moves, forward⟩ := first
  obtain ⟨moves', forward'⟩ := second
  exact ⟨moves.trans moves', by omega⟩

namespace Moves

variable {source : String} {c c' : Cursor}

theorem steady (moves : c.Moves c') (start : c.Steady source) : c'.Steady source := by
  induction moves with
  | refl c => exact start
  | step notEnd _ ih => exact ih (start.advance notEnd).2.2

theorem reaches (moves : c.Moves c') (start : c.Steady source) : c.Reaches c' := by
  refine ⟨moves, ?_⟩
  induction moves with
  | refl c =>
    have order := start.done_le_here
    omega
  | step notEnd _ ih =>
    obtain ⟨_, some, next⟩ := start.advance notEnd
    have further := ih next
    have order := start.done_le_here
    have between := next.done_le_here
    have stop := start.done_advance notEnd
    omega

theorem last (moves : c.Moves c') (start : c.Steady source) (moved : c.here < c'.done) :
    ∃ last, c'.previous? = some last ∧ last.stop = c'.done ∧ c.here ≤ last.start ∧
      c.current.span.stop ≤ last.stop := by
  induction moves with
  | refl c =>
    have order := start.done_le_here
    omega
  | @step c c' notEnd later ih =>
    obtain ⟨previous, some, next⟩ := start.advance notEnd
    have stop := start.done_advance notEnd
    have between := next.done_le_here
    -- Either more tokens were taken behind this one, or this one is the last.
    by_cases further : c.advance.here < c'.done
    · obtain ⟨last, previous', stop', order, _⟩ := ih next further
      exact ⟨last, previous', stop', by omega, by omega⟩
    · cases later with
      | refl => exact ⟨_, previous, stop.symm, Nat.le_refl _, Nat.le_refl _⟩
      | step notEnd' later' =>
        obtain ⟨_, some', next'⟩ := next.advance notEnd'
        have stop' := next.done_advance notEnd'
        have beyond := (later'.reaches next').forward
        omega

end Moves

end Cursor

namespace Parse

/-- How a reader ends that starts at the cursor. -/
inductive Landed {α : Type} (source : String) (c : Cursor) (good : α → Cursor → Prop) :
    Except SyntaxError α × Cursor → Prop where
  | value {a : α} {c' : Cursor} (moves : c.Moves c') (holds : good a c') :
      Landed source c good (.ok a, c')
  | fault {e : SyntaxError} {c' : Cursor} (moves : c.Moves c') (fits : e.span.Fits source) :
      Landed source c good (.error e, c')

/-- From the cursor the reader moves on, to a value that is good for the place that it reaches or
    to a fault in the source. -/
def Lands {α : Type} (source : String) (c : Cursor) (good : α → Cursor → Prop) (p : Parse α) :
    Prop :=
  c.Steady source → Landed source c good (p.runOn c)

variable {source : String} {c : Cursor}

namespace Lands

variable {α β : Type} {P : α → Cursor → Prop} {Q : β → Cursor → Prop}

theorem pure {a : α} (holds : P a c) : Lands source c P (Pure.pure a : Parse α) := by
  intro _
  exact .value (.refl c) holds

theorem fail (fault : Fault) {span : Span} (fits : c.Steady source → span.Fits source) :
    Lands source c P (Parse.fail fault span : Parse α) := by
  intro steady
  exact .fault (.refl c) (fits steady)

theorem bind {p : Parse α} {next : α → Parse β} (first : Lands source c P p)
    (later : ∀ a c', c.Reaches c' → P a c' → Lands source c' Q (next a)) :
    Lands source c Q (p >>= next) := by
  intro steady
  have landed := first steady
  generalize ran : p.runOn c = result at landed
  cases landed with
  | fault moves fits =>
    rw [Machine.runOn_bind_error next ran]
    exact .fault moves fits
  | @value a c' moves holds =>
    rw [Machine.runOn_bind_ok next ran]
    have after := later a c' (moves.reaches steady) holds (moves.steady steady)
    generalize (next a).runOn c' = result at after
    cases after with
    | value further holds' => exact .value (moves.trans further) holds'
    | fault further fits => exact .fault (moves.trans further) fits

theorem seen {p : Parse α} {next : α → Parse β} {a : α} (ran : p.runOn c = (.ok a, c))
    (later : Lands source c Q (next a)) : Lands source c Q (p >>= next) := by
  intro steady
  rw [Machine.runOn_bind_ok next ran]
  exact later steady

theorem mono {P' : α → Cursor → Prop} {p : Parse α} (lands : Lands source c P p)
    (weaker : ∀ a c', c.Reaches c' → P a c' → P' a c') : Lands source c P' p := by
  intro steady
  have landed := lands steady
  generalize p.runOn c = result at landed ⊢
  cases landed with
  | value moves holds => exact .value moves (weaker _ _ (moves.reaches steady) holds)
  | fault moves fits => exact .fault moves fits

theorem ite {condition : Prop} [Decidable condition] {p q : Parse α} (yes : Lands source c P p)
    (no : Lands source c P q) : Lands source c P (if condition then p else q) := by
  split
  · exact yes
  · exact no

theorem steadily {p : Parse α} (later : c.Steady source → Lands source c P p) :
    Lands source c P p := by
  intro steady
  exact later steady steady

theorem reached {p : Parse α} (later : c.Reaches c → Lands source c P p) : Lands source c P p :=
  steadily fun steady => later ((Cursor.Moves.refl c).reaches steady)

theorem optional {condition : Prop} [Decidable condition] {p : Parse α} {a : α}
    {next : α → Parse β} (part : Lands source c P p) (absent : P a c)
    (later : ∀ a c', c.Reaches c' → P a c' → Lands source c' Q (next a)) :
    Lands source c Q (if condition then p >>= next else next a) :=
  ite (part.bind later) (reached fun reach => later a c reach absent)

theorem ruledOut {condition : Prop} [Decidable condition] {p : Parse α} {a : α}
    {next : α → Parse β} (part : Lands source c P p) (absent : P a c)
    (later : ∀ a c', c.Reaches c' → P a c' → Lands source c' Q (next a)) :
    Lands source c Q (if condition then next a else p >>= next) :=
  ite (reached fun reach => later a c reach absent) (part.bind later)

theorem fail_here (fault : Fault) :
    Lands source c P (currentSpan >>= Parse.fail fault : Parse α) :=
  seen rfl (.fail fault fun steady => steady.fits_current)

end Lands

theorem runOn_expect (kind : Kind) (c : Cursor) :
    (expect kind).runOn c =
      if c.current.kind = kind then (.ok c.current, c.advance)
      else (.error ⟨.unexpected (.token kind) c.current.kind, c.current.span⟩, c) := by
  have tested : (isAt kind).runOn c = (.ok (decide (c.current.kind = kind)), c) := rfl
  rw [expect, Machine.runOn_bind_ok _ tested]
  by_cases same : c.current.kind = kind
  · rw [if_pos same, if_pos (decide_eq_true same)]
    rfl
  · rw [if_neg same, if_neg (by simpa using same)]
    rfl

structure Taken (source : String) (c : Cursor) (token : Token) (c' : Cursor) : Prop where
  span : token.span = c.between c'
  moved : c.here < c'.done
  text : token.span.text? source = some token.text
  fits : token.span.Fits source

theorem advance_lands (notEnd : c.current.kind ≠ .eof) :
    Lands source c (Taken source c) advance := by
  intro steady
  obtain ⟨_, some, _⟩ := steady.advance notEnd
  have stop := steady.done_advance notEnd
  have shown := steady.shows_current.text?
  rw [String.ofList_toList] at shown
  refine .value (.step notEnd (.refl _)) ⟨?_, by omega, shown, steady.fits_current⟩
  rw [Cursor.between, stop]
  rfl

theorem expect_lands (kind : Kind) (notEnd : kind ≠ .eof) :
    Lands source c (Taken source c) (expect kind) := by
  refine .seen rfl ?_
  split
  · rename_i same
    exact advance_lands (of_decide_eq_true same ▸ notEnd)
  · exact .seen rfl (.fail_here _)

theorem keyword_lands (word : Keyword) :
    Lands source c (fun _ c' => c.here < c'.done) (keyword word) := by
  apply (expect_lands (.keyword word) nofun).bind
  intro _ c' _ taken
  exact .pure taken.moved

theorem symbol_lands (sign : Symbol) :
    Lands source c (fun _ c' => c.here < c'.done) (symbol sign) := by
  apply (expect_lands (.symbol sign) nofun).bind
  intro _ c' _ taken
  exact .pure taken.moved

theorem eatSymbol_lands (sign : Symbol) :
    Lands source c (fun eaten c' => eaten = false → c' = c) (eatSymbol sign) := by
  refine .seen rfl ?_
  split
  · rename_i same
    apply (advance_lands (of_decide_eq_true same ▸ nofun)).bind
    intro _ _ _ _
    exact .pure nofun
  · exact .pure fun _ => rfl

theorem finish_lands {α : Type} {P : α → Cursor → Prop} {start : Cursor} {next : Span → Parse α}
    (steady : start.Steady source) (moves : start.Moves c) (moved : start.here < c.done)
    (later : (start.between c).Fits source → Lands source c P (next (start.between c))) :
    Lands source c P (finish start.current.span >>= next) := by
  obtain ⟨last, previous, stop, order, order'⟩ := moves.last steady moved
  have merged : start.current.span.merge last = start.between c := by
    simp only [Span.merge, Cursor.between, ← stop, Span.mk.injEq]
    exact ⟨Nat.min_eq_left order, Nat.max_eq_right order'⟩
  have ran : (finish start.current.span).runOn c = (.ok (start.between c), c) := by
    rw [← merged]
    rcases c with ⟨_, rest, left, final, counted⟩
    cases previous
    rfl
  have ends := (moves.steady steady).edge_done
  exact .seen ran (later ⟨Nat.le_of_lt moved, steady.fits_current.start, ends⟩)

theorem spanned_lands {α : Type} {P : α → Cursor → Prop} {node : Parse (Span → α)}
    (lands : Lands source c (fun build c' => c.here < c'.done ∧
      ((c.between c').Fits source → P (build (c.between c')) c')) node) :
    Lands source c P (spanned node) := by
  refine .steadily fun steady => .seen rfl (lands.bind ?_)
  rintro build c' reach ⟨moved, builds⟩
  exact finish_lands steady reach.moves moved fun fits => .pure (builds fits)

section Rounds

variable {σ β : Type} {I : σ → Cursor → Prop} {Q : β → Cursor → Prop}
  {round : σ → Parse (Round σ β)}

theorem rounds_lands
    (each : ∀ s c, I s c → Lands source c (fun r c' => RoundGives (I · c') (Q · c') r) (round s))
    (fuel : Nat) : ∀ s c, I s c → Lands source c Q (rounds round fuel s) := by
  induction fuel with
  | zero =>
    intro s c _
    exact .fail_here _
  | succ fuel ih =>
    intro s c invariant
    apply (each s c invariant).bind
    rintro _ c' _ (next | holds)
    · exact ih _ c' next
    · exact .pure holds

theorem iterate_lands
    (each : ∀ s c, I s c → Lands source c (fun r c' => RoundGives (I · c') (Q · c') r) (round s))
    {s : σ} (start : I s c) : Lands source c Q (iterate round s) :=
  .seen rfl (rounds_lands each (c.left + 1) s c start)

end Rounds

section Lists

variable {α : Type} {I : List α → Cursor → Prop}

theorem many_lands {item : Parse (Option α)}
    (each : ∀ items c, I items c → Lands source c (fun a? c' => I (items ++ a?.toList) c') item)
    (start : I [] c) : Lands source c I (many item) := by
  refine @iterate_lands source c _ _ (fun items c => I items.toList c) I _ ?_ #[] start
  intro items c collected
  apply (each items.toList c collected).bind
  rintro (_ | a) c' _ further
  · exact .pure (.done (by simpa using further))
  · exact .pure (.again (by simpa using further))

theorem series_lands {item : Parse (α × Bool)}
    (each : ∀ items c, I items c → Lands source c (fun a c' => I (items ++ [a.1]) c') item)
    (start : I [] c) : Lands source c I (series item) := by
  refine @iterate_lands source c _ _ (fun items c => I items.toList c) I _ ?_ #[] start
  intro items c collected
  apply (each items.toList c collected).bind
  rintro ⟨a, more⟩ c' _ further
  have longer : I (items.push a).toList c' := by simpa using further
  exact .ite (.pure (.again longer)) (.pure (.done longer))

theorem chain_lands {I : α → Cursor → Prop} {step : α → Parse (Option α)}
    (each : ∀ a c, I a c → Lands source c (fun next? c' => I (next?.getD a) c') (step a)) {a : α}
    (start : I a c) : Lands source c I (chain step a) := by
  refine @iterate_lands source c _ _ I I _ ?_ a start
  intro a c holds
  apply (each a c holds).bind
  rintro (_ | next) c' _ further
  · exact .pure (.done further)
  · exact .pure (.again further)

end Lists

end Parse

end LuaSearch
