import LuaSearch.Parse.Cursor

/-!
What readers give. A reader gives a property when every value that it ends with has it, wherever
it starts and whatever it takes; of a reader that fails nothing is said. What sequences and
repetitions give follows from what their parts give.
-/
namespace LuaSearch.Parse

structure Gives {α : Type} (P : α → Prop) (p : Parse α) : Prop where
  holds : ∀ {c a c'}, p.runOn c = (.ok a, c') → P a

namespace Gives

variable {α β : Type} {P : α → Prop} {Q : β → Prop}

theorem pure {a : α} (holds : P a) : Gives P (Pure.pure a : Parse α) := by
  constructor
  intro c b c' ran
  rw [Machine.runOn_pure] at ran
  cases ran
  exact holds

theorem fail (fault : Fault) (span : Span) : Gives P (Parse.fail fault span : Parse α) := by
  constructor
  intro c a c' ran
  cases ran

theorem bind {p : Parse α} {next : α → Parse β} (first : Gives P p)
    (later : ∀ a, P a → Gives Q (next a)) : Gives Q (p >>= next) := by
  constructor
  intro c b c' ran
  obtain ⟨a, after, started, went⟩ := Machine.exists_of_runOn_bind ran
  exact (later a (first.holds started)).holds went

theorem skip {p : Parse α} {next : α → Parse β} (later : ∀ a, Gives Q (next a)) :
    Gives Q (p >>= next) := by
  have anything : Gives (fun _ : α => True) p := ⟨fun _ => trivial⟩
  exact anything.bind fun a _ => later a

theorem none : Gives (fun a? => ∀ a ∈ a?, P a) (Pure.pure none : Parse (Option α)) :=
  .pure (by simp)

theorem some {a : α} (holds : P a) :
    Gives (fun a? => ∀ a ∈ a?, P a) (Pure.pure (some a) : Parse (Option α)) :=
  .pure (by simpa using holds)

theorem mono {P' : α → Prop} {p : Parse α} (gives : Gives P p) (weaker : ∀ a, P a → P' a) :
    Gives P' p := by
  constructor
  intro c a c' ran
  exact weaker a (gives.holds ran)

theorem ite {condition : Prop} [Decidable condition] {p q : Parse α} (yes : Gives P p)
    (no : Gives P q) : Gives P (if condition then p else q) := by
  split
  · exact yes
  · exact no

theorem optional {condition : Prop} [Decidable condition] {p : Parse α} {a : α}
    {next : α → Parse β} (part : Gives P p) (absent : P a)
    (later : ∀ a, P a → Gives Q (next a)) :
    Gives Q (if condition then p >>= next else next a) :=
  ite (part.bind later) (later a absent)

theorem ruledOut {condition : Prop} [Decidable condition] {p : Parse α} {a : α}
    {next : α → Parse β} (part : Gives P p) (absent : P a)
    (later : ∀ a, P a → Gives Q (next a)) :
    Gives Q (if condition then next a else p >>= next) :=
  ite (later a absent) (part.bind later)

end Gives

theorem spanned_gives {α : Type} {P : α → Prop} {node : Parse (Span → α)}
    (gives : Gives (fun build => ∀ span, P (build span)) node) : Gives P (spanned node) := by
  apply Gives.skip
  intro start
  apply gives.bind
  intro build builds
  apply Gives.skip
  intro span
  exact .pure (builds span)

/-- A round goes on with a state in the invariant, or is done with a value in the property. -/
inductive RoundGives {σ β : Type} (I : σ → Prop) (Q : β → Prop) : Round σ β → Prop where
  | again {state : σ} (invariant : I state) : RoundGives I Q (.again state)
  | done {value : β} (holds : Q value) : RoundGives I Q (.done value)

section Rounds

variable {σ β : Type} {I : σ → Prop} {Q : β → Prop} {round : σ → Parse (Round σ β)}

theorem rounds_gives (each : ∀ s, I s → Gives (RoundGives I Q) (round s)) (fuel : Nat) :
    ∀ s, I s → Gives Q (rounds round fuel s) := by
  induction fuel with
  | zero =>
    intro s _
    apply Gives.skip
    intro span
    exact .fail _ _
  | succ fuel ih =>
    intro s invariant
    apply (each s invariant).bind
    rintro _ (next | holds)
    · exact ih _ next
    · exact .pure holds

theorem iterate_gives (each : ∀ s, I s → Gives (RoundGives I Q) (round s)) {s : σ}
    (start : I s) : Gives Q (iterate round s) := by
  apply Gives.skip
  intro c
  exact rounds_gives each (c.left + 1) s start

end Rounds

section Lists

variable {α : Type} {P : α → Prop}

theorem many_gives {item : Parse (Option α)} (gives : Gives (fun a? => ∀ a ∈ a?, P a) item) :
    Gives (fun as => ∀ a ∈ as, P a) (many item) := by
  refine iterate_gives (I := fun items => ∀ a ∈ items.toList, P a) ?_ (by simp)
  intro items collected
  apply gives.bind
  rintro (_ | a) holds
  · exact .pure (.done collected)
  · refine .pure (.again ?_)
    intro b member
    rw [Array.toList_push, List.mem_append, List.mem_singleton] at member
    rcases member with earlier | rfl
    · exact collected b earlier
    · exact holds b rfl

theorem series_gives {item : Parse (α × Bool)} (gives : Gives (fun a => P a.1) item) :
    Gives (fun as => ∀ a ∈ as, P a) (series item) := by
  refine iterate_gives (I := fun items => ∀ a ∈ items.toList, P a) ?_ (by simp)
  intro items collected
  apply gives.bind
  rintro ⟨a, more⟩ holds
  have longer : ∀ b ∈ (items.push a).toList, P b := by
    intro b member
    rw [Array.toList_push, List.mem_append, List.mem_singleton] at member
    rcases member with earlier | rfl
    · exact collected b earlier
    · exact holds
  exact .ite (.pure (.again longer)) (.pure (.done longer))

theorem commaSeparated_gives {item : Parse α} (gives : Gives P item) :
    Gives (fun as => ∀ a ∈ as, P a) (commaSeparated item) := by
  apply series_gives
  apply gives.bind
  intro a holds
  apply Gives.skip
  intro more
  exact .pure holds

theorem chain_gives {step : α → Parse (Option α)}
    (each : ∀ a, P a → Gives (fun next => ∀ b ∈ next, P b) (step a)) {a : α} (start : P a) :
    Gives P (chain step a) := by
  refine iterate_gives (I := P) ?_ start
  intro a holds
  apply (each a holds).bind
  rintro (_ | next) further
  · exact .pure (.done holds)
  · exact .pure (.again (further next rfl))

end Lists

end LuaSearch.Parse
