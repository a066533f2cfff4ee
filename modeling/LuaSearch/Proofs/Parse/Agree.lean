import LuaSearch.Parse.Cursor

/-!
Readers that agree. Two cursors are alike when the same lexemes lie ahead of them, wherever in
their sources. Two readers agree when from alike cursors they end alike: both with values in a
given relation, or both with the same fault, and in either case before alike cursors. Agreement
of readers built by sequencing and repetition follows from that of their parts.
-/
namespace LuaSearch

def Token.lexeme (token : Token) : Kind × String := (token.kind, token.text)

/-- Tokens with the same lexeme. -/
structure Token.Alike (a b : Token) : Prop where
  kind : a.kind = b.kind
  text : a.text = b.text

theorem Token.alike_iff (a b : Token) : a.Alike b ↔ a.lexeme = b.lexeme := by
  constructor
  · rintro ⟨kind, text⟩
    simp [Token.lexeme, kind, text]
  · intro same
    exact ⟨congrArg Prod.fst same, congrArg Prod.snd same⟩

structure Cursor.Alike (c d : Cursor) : Prop where
  rest : c.rest.map Token.lexeme = d.rest.map Token.lexeme
  final : c.final.lexeme = d.final.lexeme

namespace Cursor.Alike

variable {c d : Cursor} (alike : c.Alike d)

include alike

theorem current : c.current.Alike d.current := by
  have heads : c.rest.head?.map Token.lexeme = d.rest.head?.map Token.lexeme := by
    rw [← List.head?_map, ← List.head?_map, alike.rest]
  rw [Token.alike_iff]
  unfold Cursor.current
  cases seen : c.rest.head? <;> cases seen' : d.rest.head? <;> simp [seen, seen'] at heads ⊢
  · exact alike.final
  · exact heads

theorem second : c.second = d.second := by
  have kinds (rest : List Token) :
      rest[1]?.map Token.kind = ((rest.map Token.lexeme)[1]?).map Prod.fst := by
    simp [Function.comp_def, Token.lexeme]
  unfold Cursor.second
  rw [kinds, kinds, alike.rest]

theorem advance : c.advance.Alike d.advance where
  rest := by rw [Cursor.rest_advance, Cursor.rest_advance, List.map_tail, List.map_tail, alike.rest]
  final := by simpa using alike.final

theorem left : c.left = d.left := by
  rw [c.counted, d.counted]
  simpa using congrArg List.length alike.rest

end Cursor.Alike

namespace Parse

/-- How two readers end: with related values or with one fault, before alike cursors. -/
inductive EndsAlike {α β : Type} (R : α → β → Prop) :
    Except SyntaxError α × Cursor → Except SyntaxError β × Cursor → Prop where
  | ok {a : α} {b : β} {c d : Cursor} (related : R a b) (alike : c.Alike d) :
      EndsAlike R (.ok a, c) (.ok b, d)
  | error {e e' : SyntaxError} {c d : Cursor} (fault : e.fault = e'.fault) (alike : c.Alike d) :
      EndsAlike R (.error e, c) (.error e', d)

def Agree {α β : Type} (R : α → β → Prop) (p : Parse α) (q : Parse β) : Prop :=
  ∀ c d : Cursor, c.Alike d → EndsAlike R (p.runOn c) (q.runOn d)

namespace Agree

variable {α β γ δ : Type} {R : α → β → Prop} {Q : γ → δ → Prop}

theorem pure {a : α} {b : β} (related : R a b) :
    Agree R (Pure.pure a : Parse α) (Pure.pure b : Parse β) := by
  intro c d alike
  exact .ok related alike

theorem fail (fault : Fault) (span span' : Span) :
    Agree R (Parse.fail fault span) (Parse.fail fault span') := by
  intro c d alike
  exact .error rfl alike

theorem bind {p : Parse α} {q : Parse β} {next : α → Parse γ} {next' : β → Parse δ}
    (first : Agree R p q) (later : ∀ a b, R a b → Agree Q (next a) (next' b)) :
    Agree Q (p >>= next) (q >>= next') := by
  intro c d alike
  have ended := first c d alike
  generalize left : p.runOn c = x at ended
  generalize right : q.runOn d = y at ended
  cases ended with
  | ok related after =>
    rw [Machine.runOn_bind_ok next left, Machine.runOn_bind_ok next' right]
    exact later _ _ related _ _ after
  | error fault after =>
    rw [Machine.runOn_bind_error next left, Machine.runOn_bind_error next' right]
    exact .error fault after

theorem bind_eq {p q : Parse α} {next : α → Parse γ} {next' : α → Parse δ} (first : Agree Eq p q)
    (later : ∀ a, Agree Q (next a) (next' a)) : Agree Q (p >>= next) (q >>= next') := by
  apply first.bind
  rintro a _ rfl
  exact later a

theorem mono {R' : α → β → Prop} {p : Parse α} {q : Parse β} (agree : Agree R p q)
    (weaker : ∀ a b, R a b → R' a b) : Agree R' p q := by
  intro c d alike
  have ended := agree c d alike
  generalize p.runOn c = x at ended ⊢
  generalize q.runOn d = y at ended ⊢
  cases ended with
  | ok related after => exact .ok (weaker _ _ related) after
  | error fault after => exact .error fault after

theorem ite {condition : Prop} [Decidable condition] {p p' : Parse α} {q q' : Parse β}
    (yes : condition → Agree R p q) (no : ¬ condition → Agree R p' q') :
    Agree R (if condition then p else p') (if condition then q else q') := by
  split
  · exact yes ‹_›
  · exact no ‹_›

theorem optional {condition : Prop} [Decidable condition] {p : Parse α} {q : Parse β} {a : α}
    {b : β} {next : α → Parse γ} {next' : β → Parse δ} (part : Agree R p q) (absent : R a b)
    (later : ∀ a b, R a b → Agree Q (next a) (next' b)) :
    Agree Q (if condition then p >>= next else next a)
      (if condition then q >>= next' else next' b) := by
  apply Agree.ite
  · intro _
    exact part.bind later
  · intro _
    exact later a b absent

theorem ruledOut {condition : Prop} [Decidable condition] {p : Parse α} {q : Parse β} {a : α}
    {b : β} {next : α → Parse γ} {next' : β → Parse δ} (part : Agree R p q) (absent : R a b)
    (later : ∀ a b, R a b → Agree Q (next a) (next' b)) :
    Agree Q (if condition then next a else p >>= next)
      (if condition then next' b else q >>= next') := by
  apply Agree.ite
  · intro _
    exact later a b absent
  · intro _
    exact part.bind later

end Agree

theorem currentSpan_agree : Agree (fun _ _ => True) currentSpan currentSpan := by
  intro c d alike
  exact .ok trivial alike

theorem peek_agree : Agree Eq peek peek := by
  intro c d alike
  exact .ok alike.current.kind alike

theorem peekSecond_agree : Agree Eq peekSecond peekSecond := by
  intro c d alike
  exact .ok alike.second alike

theorem advance_agree : Agree Token.Alike advance advance := by
  intro c d alike
  exact .ok alike.current alike.advance

theorem Agree.fail_here {α β : Type} {R : α → β → Prop} (fault : Fault) :
    Agree R (currentSpan >>= Parse.fail fault) (currentSpan >>= Parse.fail fault) := by
  apply currentSpan_agree.bind
  intro span span' _
  exact .fail fault span span'

theorem isAt_agree (kind : Kind) : Agree Eq (isAt kind) (isAt kind) := by
  apply peek_agree.bind_eq
  intro found
  exact .pure rfl

theorem eat_agree (kind : Kind) : Agree Eq (eat kind) (eat kind) := by
  apply (isAt_agree kind).bind_eq
  intro here
  apply Agree.ite
  · intro _
    apply advance_agree.bind
    intro _ _ _
    exact .pure rfl
  · intro _
    exact .pure rfl

theorem eatSymbol_agree (sign : Symbol) : Agree Eq (eatSymbol sign) (eatSymbol sign) :=
  eat_agree (.symbol sign)

theorem expect_agree (kind : Kind) : Agree Token.Alike (expect kind) (expect kind) := by
  apply (isAt_agree kind).bind_eq
  intro here
  apply Agree.ite
  · intro _
    exact advance_agree
  · intro _
    apply peek_agree.bind_eq
    intro found
    exact .fail_here _

theorem keyword_agree (word : Keyword) : Agree Eq (keyword word) (keyword word) := by
  apply (expect_agree (.keyword word)).bind
  intro _ _ _
  exact .pure rfl

theorem symbol_agree (sign : Symbol) : Agree Eq (symbol sign) (symbol sign) := by
  apply (expect_agree (.symbol sign)).bind
  intro _ _ _
  exact .pure rfl

theorem finish_agree (start start' : Span) :
    Agree (fun _ _ => True) (finish start) (finish start') := by
  intro c d alike
  have moves (c : Cursor) (start : Span) : ∃ span, (finish start).runOn c = (.ok span, c) := by
    rcases c with ⟨_ | last, _, _, _, _⟩
    · exact ⟨start, rfl⟩
    · exact ⟨start.merge last, rfl⟩
  obtain ⟨span, left⟩ := moves c start
  obtain ⟨span', right⟩ := moves d start'
  rw [left, right]
  exact .ok trivial alike

def Builds {α β : Type} (R : α → β → Prop) (build : Span → α) (build' : Span → β) : Prop :=
  ∀ span span', R (build span) (build' span')

theorem spanned_agree {α β : Type} {R : α → β → Prop} {node : Parse (Span → α)}
    {node' : Parse (Span → β)} (agree : Agree (Builds R) node node') :
    Agree R (spanned node) (spanned node') := by
  apply currentSpan_agree.bind
  intro start start' _
  apply agree.bind
  intro build build' builds
  apply (finish_agree start start').bind
  intro span span' _
  exact .pure (builds span span')

inductive RoundsAlike {σ τ α β : Type} (S : σ → τ → Prop) (R : α → β → Prop) :
    Round σ α → Round τ β → Prop where
  | again {s : σ} {t : τ} (related : S s t) : RoundsAlike S R (.again s) (.again t)
  | done {a : α} {b : β} (related : R a b) : RoundsAlike S R (.done a) (.done b)

section Rounds

variable {σ τ α β : Type} {S : σ → τ → Prop} {R : α → β → Prop}
variable {round : σ → Parse (Round σ α)} {round' : τ → Parse (Round τ β)}

theorem rounds_agree
    (each : ∀ s t, S s t → Agree (RoundsAlike S R) (round s) (round' t)) (fuel : Nat) :
    ∀ s t, S s t → Agree R (rounds round fuel s) (rounds round' fuel t) := by
  induction fuel with
  | zero =>
    intro s t _
    exact .fail_here .stalled
  | succ fuel ih =>
    intro s t related
    apply (each s t related).bind
    rintro _ _ (next | done)
    · exact ih _ _ next
    · exact .pure done

theorem iterate_agree
    (each : ∀ s t, S s t → Agree (RoundsAlike S R) (round s) (round' t)) {s : σ} {t : τ}
    (related : S s t) : Agree R (iterate round s) (iterate round' t) := by
  intro c d alike
  have ended := rounds_agree each (c.left + 1) s t related c d alike
  have same : (iterate round' t).runOn d = (rounds round' (c.left + 1) t).runOn d := by
    rw [alike.left]
    rfl
  rw [same]
  exact ended

end Rounds

section Lists

variable {α β : Type} {view : α → β}

theorem many_agree {item item' : Parse (Option α)}
    (agree : Agree (fun a b => a.map view = b.map view) item item') :
    Agree (fun as bs => as.map view = bs.map view) (many item) (many item') := by
  refine iterate_agree (S := fun items items' => items.toList.map view = items'.toList.map view)
    ?_ rfl
  intro items items' collected
  apply agree.bind
  rintro (_ | a) (_ | b) same
  · exact .pure (.done collected)
  · cases same
  · cases same
  · refine .pure (.again ?_)
    simp only [Option.map_some, Option.some.injEq] at same
    simp [collected, same]

theorem series_agree {item item' : Parse (α × Bool)}
    (agree : Agree (fun a b => view a.1 = view b.1 ∧ a.2 = b.2) item item') :
    Agree (fun as bs => as.map view = bs.map view) (series item) (series item') := by
  refine iterate_agree (S := fun items items' => items.toList.map view = items'.toList.map view)
    ?_ rfl
  intro items items' collected
  apply agree.bind
  rintro ⟨a, more⟩ ⟨b, _⟩ ⟨same, rfl⟩
  have longer : (items.push a).toList.map view = (items'.push b).toList.map view := by
    simp [collected, same]
  apply Agree.ite
  · intro _
    exact .pure (.again longer)
  · intro _
    exact .pure (.done longer)

theorem commaSeparated_agree {item item' : Parse α}
    (agree : Agree (fun a b => view a = view b) item item') :
    Agree (fun as bs => as.map view = bs.map view) (commaSeparated item)
      (commaSeparated item') := by
  apply series_agree
  apply agree.bind
  intro a b same
  apply (eatSymbol_agree .comma).bind_eq
  intro more
  exact .pure ⟨same, rfl⟩

theorem chain_agree {step step' : α → Parse (Option α)}
    (agree : ∀ a b, view a = view b →
      Agree (fun next next' => next.map view = next'.map view) (step a) (step' b))
    {a b : α} (same : view a = view b) :
    Agree (fun a b => view a = view b) (chain step a) (chain step' b) := by
  refine iterate_agree (S := fun a b => view a = view b) ?_ same
  intro a b same
  apply (agree a b same).bind
  rintro (_ | next) (_ | next') further
  · exact .pure (.done same)
  · cases further
  · cases further
  · exact .pure (.again (Option.some.inj further))

end Lists

end Parse

end LuaSearch
