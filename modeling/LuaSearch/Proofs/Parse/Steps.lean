import LuaSearch.Proofs.Parse.Lands

/-!
How readers step through tokens. A reader is run from two cursors at one place, which may have come
there in different ways: they recall different tokens as the last one taken. It steps when both runs
end alike, with no repetition cut off, and either it has taken tokens, none of them the end, and the
cursors are now one, or both stand where they stood. A value may ask for the former. So a reader
that steps goes forward, comes to an end of its own, and does not look behind its start.
-/
namespace LuaSearch

namespace Cursor

/-- The same tokens lie ahead, on the same level of nesting. -/
structure SamePlace (c d : Cursor) : Prop where
  rest : c.rest = d.rest
  final : c.final = d.final
  depth : c.depth = d.depth

theorem SamePlace.refl (c : Cursor) : c.SamePlace c := ⟨rfl, rfl, rfl⟩

section

variable {c d : Cursor} (same : c.SamePlace d)

include same

theorem SamePlace.current : c.current = d.current := by
  rw [Cursor.current, Cursor.current, same.rest, same.final]

theorem SamePlace.second : c.second = d.second := by
  rw [Cursor.second, Cursor.second, same.rest]

theorem SamePlace.left : c.left = d.left := by
  rw [c.counted, d.counted, same.rest]

theorem SamePlace.advance (some : c.rest ≠ []) : c.advance = d.advance := by
  rcases c with ⟨_, _ | ⟨token, rest⟩, left, final, depth, counted⟩
  · exact absurd rfl some
  · rcases d with ⟨_, rest', left', final', depth', counted'⟩
    obtain ⟨rfl, rfl, rfl⟩ := same
    obtain rfl : left = left' := counted.trans counted'.symm
    rfl

end

theorem rest_ne_nil {c : Cursor} (ended : c.final.kind = .eof) (notEnd : c.current.kind ≠ .eof) :
    c.rest ≠ [] := by
  intro none
  rw [Cursor.current, none] at notEnd
  exact notEnd ended

theorem left_advance_lt {c : Cursor} (some : c.rest ≠ []) : c.advance.left < c.left := by
  rw [c.counted, c.advance.counted, rest_advance, List.length_tail]
  exact Nat.pred_lt (by simpa using some)

theorem Moves.left_le {c c' : Cursor} (moves : c.Moves c') : c'.left ≤ c.left := by
  induction moves with
  | refl c => exact Nat.le_refl _
  | @step c c' _ _ ih =>
    have shorter : c.advance.left ≤ c.left := by
      rw [c.counted, c.advance.counted, rest_advance, List.length_tail]
      exact Nat.sub_le _ _
    exact Nat.le_trans ih shorter

theorem Moves.final_eq {c c' : Cursor} (moves : c.Moves c') : c'.final = c.final := by
  induction moves with
  | refl c => rfl
  | step _ _ ih => rw [ih, final_advance]

theorem Moves.depth_eq {c c' : Cursor} (moves : c.Moves c') : c'.depth = c.depth := by
  induction moves with
  | refl c => rfl
  | step _ _ ih => rw [ih, depth_advance]

theorem Moves.atDepth {c c' : Cursor} (moves : c.Moves c') (depth : Nat) :
    (c.atDepth depth).Moves (c'.atDepth depth) := by
  induction moves with
  | refl c => exact .refl _
  | @step c c' notEnd later ih =>
    rw [← advance_atDepth] at ih
    exact .step notEnd ih

structure Takes (c c' : Cursor) : Prop where
  notEnd : c.current.kind ≠ .eof
  moves : c.advance.Moves c'
  shorter : c'.left < c.left

namespace Takes

variable {c c' c'' : Cursor}

theorem trans (first : c.Takes c') (later : c'.Moves c'') : c.Takes c'' where
  notEnd := first.notEnd
  moves := first.moves.trans later
  shorter := Nat.lt_of_le_of_lt later.left_le first.shorter

theorem toMoves (takes : c.Takes c') : c.Moves c' := .step takes.notEnd takes.moves

theorem final_eq (takes : c.Takes c') : c'.final = c.final := takes.toMoves.final_eq

theorem leave (takes : c.enter.Takes c') : c.Takes c'.leave where
  notEnd := takes.notEnd
  moves := by
    have depth : c'.depth = c.depth + 1 := takes.toMoves.depth_eq
    have moves := takes.moves.atDepth c.depth
    rw [← advance_atDepth] at moves
    rw [Cursor.leave, depth]
    exact moves
  shorter := takes.shorter

end Takes

end Cursor

def Round.goesOn {σ β : Type} : Round σ β → Prop
  | .again _ => True
  | .done _ => False

namespace Parse

def Finished {α : Type} (result : Except SyntaxError α) : Prop :=
  ∀ e, result = .error e → e.fault ≠ .stalled

theorem Finished.ok {α : Type} (a : α) : Finished (.ok a) := by
  rintro _ ⟨⟩

theorem Finished.error {α : Type} {e : SyntaxError} (sound : e.fault ≠ .stalled) :
    Finished (.error e : Except SyntaxError α) := by
  rintro _ ⟨⟩
  exact sound

/-- How a reader ends from two cursors at one place. -/
inductive Stepped {α : Type} (takes : α → Prop) (c d : Cursor) :
    Except SyntaxError α × Cursor → Except SyntaxError α × Cursor → Prop where
  | taken {result : Except SyntaxError α} {c' : Cursor} (further : c.Takes c')
      (finished : Finished result) : Stepped takes c d (result, c') (result, c')
  | still {result : Except SyntaxError α} (free : ∀ a, result = .ok a → ¬ takes a)
      (finished : Finished result) : Stepped takes c d (result, c) (result, d)

/-- Wherever the end is seen past the last token, the reader steps, and with a value that asks for
    it it has taken tokens. -/
def Steps {α : Type} (c d : Cursor) (takes : α → Prop) (p : Parse α) : Prop :=
  c.final.kind = .eof → c.SamePlace d → Stepped takes c d (p.runOn c) (p.runOn d)

abbrev Consumes {α : Type} (c d : Cursor) (p : Parse α) : Prop := Steps c d (fun _ => True) p

abbrev Proceeds {α : Type} (c d : Cursor) (p : Parse α) : Prop := Steps c d (fun _ => False) p

variable {c d : Cursor}

namespace Steps

variable {α β : Type} {P : α → Prop} {Q : β → Prop}

theorem pure {a : α} (free : ¬ P a) : Steps c d P (Pure.pure a : Parse α) := by
  intro _ _
  refine .still ?_ (.ok a)
  rintro _ ⟨⟩
  exact free

theorem fail {fault : Fault} (sound : fault ≠ .stalled) (span : Span) :
    Steps c d P (Parse.fail fault span : Parse α) := by
  intro _ _
  exact .still nofun (.error sound)

theorem mono {P' : α → Prop} {p : Parse α} (steps : Steps c d P p) (weaker : ∀ a, P' a → P a) :
    Steps c d P' p := by
  intro ended same
  have stepped := steps ended same
  generalize p.runOn c = x at stepped ⊢
  generalize p.runOn d = y at stepped ⊢
  cases stepped with
  | taken further finished => exact .taken further finished
  | still free finished => exact .still (fun a given asks => free a given (weaker a asks)) finished

theorem proceeds {p : Parse α} (steps : Steps c d P p) : Proceeds c d p :=
  steps.mono fun _ => False.elim

/-- After a step that took tokens the rest starts from one cursor, and no more tokens are asked for;
    after one that stood still it starts from both. -/
theorem bind {p : Parse α} {next : α → Parse β} (first : Steps c d P p)
    (later : ∀ a c', c'.left < c.left → Proceeds c' c' (next a))
    (still : ∀ a, ¬ P a → Steps c d Q (next a)) : Steps c d Q (p >>= next) := by
  intro ended same
  have stepped := first ended same
  generalize left : p.runOn c = x at stepped
  generalize right : p.runOn d = y at stepped
  cases stepped with
  | @taken result c' further finished =>
    cases result with
    | error e =>
      rw [Machine.runOn_bind_error next left, Machine.runOn_bind_error next right]
      exact .taken further (.error (finished e rfl))
    | ok a =>
      rw [Machine.runOn_bind_ok next left, Machine.runOn_bind_ok next right]
      have after := later a c' further.shorter (further.final_eq ▸ ended) (.refl c')
      generalize (next a).runOn c' = result at after
      cases after with
      | taken more finished => exact .taken (further.trans more.toMoves) finished
      | still _ finished => exact .taken further finished
  | @still result free finished =>
    cases result with
    | error e =>
      rw [Machine.runOn_bind_error next left, Machine.runOn_bind_error next right]
      exact .still nofun (.error (finished e rfl))
    | ok a =>
      rw [Machine.runOn_bind_ok next left, Machine.runOn_bind_ok next right]
      exact still a (free a rfl) ended same

theorem after {p : Parse α} {next : α → Parse β} (first : Consumes c d p)
    (later : ∀ a c', Proceeds c' c' (next a)) : Steps c d Q (p >>= next) :=
  first.bind (fun a c' _ => later a c') fun _ free => absurd trivial free

theorem next {p : Parse α} {next : α → Parse β} (first : Steps c c P p)
    (later : ∀ a c', Proceeds c' c' (next a)) : Proceeds c c (p >>= next) :=
  first.bind (fun a c' _ => later a c') fun a _ => later a c

theorem anywhere {p : Parse α} {next : α → Parse β} (first : Steps c d P p)
    (later : ∀ a c d, Steps c d Q (next a)) : Steps c d Q (p >>= next) :=
  first.bind (fun a c' _ => (later a c' c').proceeds) fun a _ => later a c d

theorem seen {look : Parse α} {next : α → Parse β} {value : Cursor → α}
    (ran : ∀ c, look.runOn c = (.ok (value c), c)) (agree : c.SamePlace d → value c = value d)
    (later : Steps c d Q (next (value c))) : Steps c d Q (look >>= next) := by
  intro ended same
  rw [Machine.runOn_bind_ok next (ran c), Machine.runOn_bind_ok next (ran d), ← agree same]
  exact later ended same

theorem ite {condition : Prop} [Decidable condition] {p q : Parse α} (yes : Steps c d P p)
    (no : Steps c d P q) : Steps c d P (if condition then p else q) := by
  split
  · exact yes
  · exact no

theorem optional {condition : Prop} [Decidable condition] {p : Parse α} {a : α}
    {next : α → Parse β} (part : Steps c c P p) (later : ∀ a c, Proceeds c c (next a)) :
    Proceeds c c (if condition then p >>= next else next a) :=
  ite (part.next later) (later a c)

theorem ruledOut {condition : Prop} [Decidable condition] {p : Parse α} {a : α}
    {next : α → Parse β} (part : Steps c c P p) (later : ∀ a c, Proceeds c c (next a)) :
    Proceeds c c (if condition then next a else p >>= next) :=
  ite (later a c) (part.next later)

end Steps

section Single

variable {α : Type} {P : α → Prop}

theorem peek_steps {next : Kind → Parse α} (later : Steps c d P (next c.current.kind)) :
    Steps c d P (peek >>= next) :=
  .seen (fun _ => rfl) (fun same => by rw [same.current]) later

theorem peekSecond_steps {next : Kind → Parse α} (later : Steps c d P (next c.second)) :
    Steps c d P (peekSecond >>= next) :=
  .seen (fun _ => rfl) (fun same => same.second) later

theorem currentSpan_steps {next : Span → Parse α} (later : Steps c d P (next c.current.span)) :
    Steps c d P (currentSpan >>= next) :=
  .seen (fun _ => rfl) (fun same => by rw [same.current]) later

theorem isAt_steps {kind : Kind} {next : Bool → Parse α}
    (later : Steps c d P (next (decide (c.current.kind = kind)))) :
    Steps c d P (isAt kind >>= next) :=
  @Steps.seen c d _ _ P (isAt kind) next (fun c => decide (c.current.kind = kind)) (fun _ => rfl)
    (fun same => by rw [same.current]) later

theorem Steps.fail_here {fault : Fault} (sound : fault ≠ .stalled) :
    Steps c d P (currentSpan >>= Parse.fail fault : Parse α) :=
  currentSpan_steps (.fail sound _)

theorem finish_steps (start : Span) : Proceeds c c (finish start) := by
  intro _ _
  rcases c with ⟨_ | last, rest, left, final, depth, counted⟩ <;>
  exact .still (fun _ _ => id) (.ok _)

end Single

theorem advance_steps (notEnd : c.current.kind ≠ .eof) : Consumes c d advance := by
  intro ended same
  have some := Cursor.rest_ne_nil ended notEnd
  have left : advance.runOn c = (.ok c.current, c.advance) := rfl
  have right : advance.runOn d = (.ok c.current, c.advance) := by
    rw [same.current, same.advance some]
    rfl
  rw [left, right]
  exact .taken ⟨notEnd, .refl _, Cursor.left_advance_lt some⟩ (.ok _)

theorem token_steps {α : Type} {P : α → Prop} (notEnd : c.current.kind ≠ .eof) (f : Token → α) :
    Steps c d P (advance >>= fun token => pure (f token)) := by
  apply (advance_steps notEnd).after
  intro token c'
  exact .pure id

theorem eatSymbol_steps (sign : Symbol) : Steps c d (· = true) (eatSymbol sign) := by
  apply isAt_steps
  by_cases here : c.current.kind = .symbol sign
  · simp only [here, decide_true, if_true]
    exact token_steps (by simp [here]) _
  · simp only [here, decide_false]
    exact .pure nofun

theorem expect_steps {kind : Kind} (notEnd : kind ≠ .eof) : Consumes c d (expect kind) := by
  apply isAt_steps
  by_cases here : c.current.kind = kind
  · simp only [here, decide_true, if_true]
    exact advance_steps (here ▸ notEnd)
  · simp only [here, decide_false]
    exact peek_steps (.fail_here (by simp))

theorem keyword_steps (word : Keyword) : Consumes c d (keyword word) := by
  apply (expect_steps (by simp)).after
  intro _ c'
  exact .pure id

theorem symbol_steps (sign : Symbol) : Consumes c d (symbol sign) := by
  apply (expect_steps (by simp)).after
  intro _ c'
  exact .pure id

theorem spanned_steps {α : Type} {node : Parse (Span → α)} (steps : Consumes c d node) :
    Consumes c d (spanned node) := by
  apply currentSpan_steps
  apply steps.after
  intro build c'
  apply (finish_steps _).next
  intro span c''
  exact .pure id

theorem nested_steps {α : Type} {P : α → Prop} {p : Parse α}
    (steps : Steps c.enter d.enter P p) : Steps c d P (nested p) := by
  intro ended same
  rw [runOn_nested, runOn_nested, ← same.depth, ← same.current]
  split
  · exact .still nofun (.error (by simp))
  · have further : c.enter.SamePlace d.enter :=
      ⟨same.rest, same.final, congrArg (· + 1) same.depth⟩
    have stepped := steps ended further
    generalize p.runOn c.enter = x at stepped ⊢
    generalize p.runOn d.enter = y at stepped ⊢
    cases stepped with
    | taken further finished => exact .taken further.leave finished
    | still free finished => exact .still free finished

section Rounds

variable {σ β : Type} {takes : Prop} {round : σ → Parse (Round σ β)}
  (each : ∀ s {c d : Cursor}, Steps c d (fun r => takes ∨ r.goesOn) (round s))

include each

/-- A round that goes on has taken a token, so there are rounds enough. -/
theorem rounds_steps (fuel : Nat) :
    ∀ s c d, c.left < fuel → Steps c d (fun _ => takes) (rounds round fuel s) := by
  induction fuel with
  | zero => exact fun _ c _ enough => absurd enough (Nat.not_lt_zero _)
  | succ fuel ih =>
    intro s c d enough
    apply (each s).bind
    · rintro (next | value) c' shorter
      · exact (ih next c' c' (by omega)).proceeds
      · exact .pure id
    · rintro (next | value) free
      · exact absurd (.inr trivial) free
      · exact .pure fun asks => free (.inl asks)

theorem iterate_steps (s : σ) : Steps c d (fun _ => takes) (iterate round s) := by
  intro ended same
  have stepped := rounds_steps each (c.left + 1) s c d (Nat.lt_succ_self _) ended same
  have right : (iterate round s).runOn d = (rounds round (c.left + 1) s).runOn d := by
    rw [same.left]
    rfl
  rw [right]
  exact stepped

end Rounds

section Lists

variable {α : Type}

theorem optionRound_steps {σ β : Type} {item : Parse (Option α)} {again : α → σ} {stop : β}
    (each : Steps c d (fun a? => a?.isSome) item) :
    Steps c d (fun r => False ∨ r.goesOn) (do
      match ← item with
      | some a => return Round.again (again a)
      | none => return Round.done stop) := by
  apply each.bind
  · rintro (_ | a) c' _
    · exact .pure id
    · exact .pure id
  · rintro (_ | a) free
    · exact .pure (by simp [Round.goesOn])
    · exact absurd rfl free

theorem many_steps {item : Parse (Option α)}
    (each : ∀ {c d : Cursor}, Steps c d (fun a? => a?.isSome) item) : Proceeds c d (many item) := by
  refine iterate_steps ?_ _
  intro items c d
  exact optionRound_steps each

theorem series_steps {item : Parse (α × Bool)} (each : ∀ {c d : Cursor}, Consumes c d item) :
    Consumes c d (series item) := by
  refine iterate_steps ?_ _
  intro items c d
  apply each.after
  rintro ⟨a, more⟩ c'
  exact .ite (.pure id) (.pure id)

theorem commaItem_steps {item : Parse α} (each : Consumes c d item) :
    Consumes c d (do
      let a ← item
      return (a, ← eatSymbol .comma)) := by
  apply each.after
  intro a c'
  apply (eatSymbol_steps _).next
  intro more c''
  exact .pure id

theorem commaSeparated_steps {item : Parse α} (each : ∀ {c d : Cursor}, Consumes c d item) :
    Consumes c d (commaSeparated item) :=
  series_steps (commaItem_steps each)

theorem chain_steps {step : α → Parse (Option α)}
    (each : ∀ a {c d : Cursor}, Steps c d (fun a? => a?.isSome) (step a)) (a : α) :
    Proceeds c d (chain step a) := by
  refine iterate_steps ?_ _
  intro a c d
  exact optionRound_steps (each a)

end Lists

end Parse

end LuaSearch
