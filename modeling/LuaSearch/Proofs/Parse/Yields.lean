import LuaSearch.Proofs.Parse.Gives

/-!
What readers give of the tokens before them. A reader yields a property over some tokens when, from
any cursor that has only those before it, every value that it ends with has the property, and the
cursor that it leaves has only those tokens before it too. So a token that is taken is one of them,
and what a tree holds of the text can be traced back to the tokens.
-/
namespace LuaSearch

structure Cursor.Over (tokens : List Token) (c : Cursor) : Prop where
  rest : c.rest ⊆ tokens
  final : c.final ∈ tokens

namespace Cursor.Over

variable {tokens : List Token} {c : Cursor}

theorem current (among : c.Over tokens) : c.current ∈ tokens := by
  unfold Cursor.current
  cases ahead : c.rest with
  | nil => exact among.final
  | cons token rest =>
    apply among.rest
    simp [ahead]

theorem advance (among : c.Over tokens) : c.advance.Over tokens where
  rest := by
    rw [Cursor.rest_advance]
    exact fun _ member => among.rest (List.mem_of_mem_tail member)
  final := by
    rw [Cursor.final_advance]
    exact among.final

theorem start (sourceLength : Nat) (some : tokens ≠ []) :
    (Cursor.start sourceLength tokens).Over tokens where
  rest := List.Subset.refl _
  final := by
    simp only [Cursor.start, List.getLast?_eq_some_getLast some, Option.getD_some]
    exact List.getLast_mem some

end Cursor.Over

namespace Parse

structure Yields {α : Type} (tokens : List Token) (P : α → Prop) (p : Parse α) : Prop where
  holds : ∀ {c a c'}, c.Over tokens → p.runOn c = (.ok a, c') → P a ∧ c'.Over tokens

abbrev Keeps {α : Type} (tokens : List Token) (p : Parse α) : Prop :=
  Yields tokens (fun _ => True) p

variable {tokens : List Token}

namespace Yields

variable {α β : Type} {P : α → Prop} {Q : β → Prop}

theorem pure {a : α} (holds : P a) : Yields tokens P (Pure.pure a : Parse α) := by
  constructor
  intro c b c' among ran
  rw [Machine.runOn_pure] at ran
  cases ran
  exact ⟨holds, among⟩

theorem fail (fault : Fault) (span : Span) :
    Yields tokens P (Parse.fail fault span : Parse α) := by
  constructor
  intro c a c' _ ran
  cases ran

theorem bind {p : Parse α} {next : α → Parse β} (first : Yields tokens P p)
    (later : ∀ a, P a → Yields tokens Q (next a)) : Yields tokens Q (p >>= next) := by
  constructor
  intro c b c' among ran
  obtain ⟨a, after, started, went⟩ := Machine.exists_of_runOn_bind ran
  obtain ⟨holds, further⟩ := first.holds among started
  exact (later a holds).holds further went

theorem next {p : Parse α} {next : α → Parse β} (first : Keeps tokens p)
    (later : ∀ a, Yields tokens Q (next a)) : Yields tokens Q (p >>= next) :=
  first.bind fun a _ => later a

theorem none : Yields tokens (fun a? => ∀ a ∈ a?, P a) (Pure.pure none : Parse (Option α)) :=
  .pure (by simp)

theorem some {a : α} (holds : P a) :
    Yields tokens (fun a? => ∀ a ∈ a?, P a) (Pure.pure (some a) : Parse (Option α)) :=
  .pure (by simpa using holds)

theorem mono {P' : α → Prop} {p : Parse α} (yields : Yields tokens P p)
    (weaker : ∀ a, P a → P' a) : Yields tokens P' p := by
  constructor
  intro c a c' among ran
  obtain ⟨holds, further⟩ := yields.holds among ran
  exact ⟨weaker a holds, further⟩

theorem ite {condition : Prop} [Decidable condition] {p q : Parse α} (yes : Yields tokens P p)
    (no : Yields tokens P q) : Yields tokens P (if condition then p else q) := by
  split
  · exact yes
  · exact no

theorem optional {condition : Prop} [Decidable condition] {p : Parse α} {a : α}
    {next : α → Parse β} (part : Yields tokens P p) (absent : P a)
    (later : ∀ a, P a → Yields tokens Q (next a)) :
    Yields tokens Q (if condition then p >>= next else next a) :=
  ite (part.bind later) (later a absent)

theorem ruledOut {condition : Prop} [Decidable condition] {p : Parse α} {a : α}
    {next : α → Parse β} (part : Yields tokens P p) (absent : P a)
    (later : ∀ a, P a → Yields tokens Q (next a)) :
    Yields tokens Q (if condition then next a else p >>= next) :=
  ite (later a absent) (part.bind later)

end Yields

theorem currentSpan_keeps : Keeps tokens currentSpan := by
  constructor
  intro c span c' among ran
  cases ran
  exact ⟨trivial, among⟩

theorem peek_keeps : Keeps tokens peek := by
  constructor
  intro c kind c' among ran
  cases ran
  exact ⟨trivial, among⟩

theorem peekSecond_keeps : Keeps tokens peekSecond := by
  constructor
  intro c kind c' among ran
  cases ran
  exact ⟨trivial, among⟩

theorem isAt_keeps (kind : Kind) : Keeps tokens (isAt kind) := by
  constructor
  intro c here c' among ran
  cases ran
  exact ⟨trivial, among⟩

theorem finish_keeps (start : Span) : Keeps tokens (finish start) := by
  constructor
  rintro ⟨_ | last, rest, left, final, counted⟩ span c' among ran <;> cases ran <;>
    exact ⟨trivial, among⟩

theorem runOn_advance {c c' : Cursor} {token : Token}
    (ran : advance.runOn c = (.ok token, c')) : token = c.current ∧ c' = c.advance := by
  cases ran
  exact ⟨rfl, rfl⟩

theorem advance_yields : Yields tokens (· ∈ tokens) advance := by
  constructor
  intro c token c' among ran
  obtain ⟨rfl, rfl⟩ := runOn_advance ran
  exact ⟨among.current, among.advance⟩

theorem advance_keeps : Keeps tokens advance := advance_yields.mono fun _ _ => trivial

theorem eat_keeps (kind : Kind) : Keeps tokens (eat kind) := by
  apply (isAt_keeps kind).next
  intro here
  apply Yields.ite
  · exact advance_keeps.next fun _ => .pure trivial
  · exact .pure trivial

theorem eatSymbol_keeps (sign : Symbol) : Keeps tokens (eatSymbol sign) := eat_keeps _

theorem expect_yields (kind : Kind) :
    Yields tokens (fun token => token ∈ tokens ∧ token.kind = kind) (expect kind) := by
  constructor
  intro c token c' among ran
  have tested : (isAt kind).runOn c = (.ok (decide (c.current.kind = kind)), c) := rfl
  rw [expect, Machine.runOn_bind_ok _ tested] at ran
  split at ran
  · rename_i same
    obtain ⟨rfl, rfl⟩ := runOn_advance ran
    exact ⟨⟨among.current, of_decide_eq_true same⟩, among.advance⟩
  · cases ran

theorem expect_keeps (kind : Kind) : Keeps tokens (expect kind) :=
  (expect_yields kind).mono fun _ _ => trivial

theorem symbol_keeps (sign : Symbol) : Keeps tokens (symbol sign) :=
  (expect_keeps _).next fun _ => .pure trivial

theorem keyword_keeps (word : Keyword) : Keeps tokens (keyword word) :=
  (expect_keeps _).next fun _ => .pure trivial

theorem runOn_spanned_advance {α : Type} (build : Token → Span → α) (c : Cursor) :
    ∃ span, (spanned (advance >>= fun token => Pure.pure (build token))).runOn c =
      (.ok (build c.current span), c.advance) := by
  rcases c with ⟨_ | last, _ | ⟨token, rest⟩, left, final, counted⟩ <;> exact ⟨_, rfl⟩

theorem spanned_yields {α : Type} {P : α → Prop} {node : Parse (Span → α)}
    (yields : Yields tokens (fun build => ∀ span, P (build span)) node) :
    Yields tokens P (spanned node) := by
  apply currentSpan_keeps.next
  intro start
  apply yields.bind
  intro build builds
  apply (finish_keeps start).next
  intro span
  exact .pure (builds span)

section Rounds

variable {σ β : Type} {I : σ → Prop} {Q : β → Prop} {round : σ → Parse (Round σ β)}

theorem rounds_yields (each : ∀ s, I s → Yields tokens (RoundGives I Q) (round s)) (fuel : Nat) :
    ∀ s, I s → Yields tokens Q (rounds round fuel s) := by
  induction fuel with
  | zero =>
    intro s _
    apply currentSpan_keeps.next
    intro span
    exact .fail _ _
  | succ fuel ih =>
    intro s invariant
    apply (each s invariant).bind
    rintro _ (next | holds)
    · exact ih _ next
    · exact .pure holds

theorem iterate_yields (each : ∀ s, I s → Yields tokens (RoundGives I Q) (round s)) {s : σ}
    (start : I s) : Yields tokens Q (iterate round s) := by
  constructor
  intro c b c' among ran
  exact (rounds_yields each (c.left + 1) s start).holds among ran

end Rounds

section Lists

variable {α : Type} {P : α → Prop}

theorem many_yields {item : Parse (Option α)}
    (yields : Yields tokens (fun a? => ∀ a ∈ a?, P a) item) :
    Yields tokens (fun as => ∀ a ∈ as, P a) (many item) := by
  refine iterate_yields (I := fun items => ∀ a ∈ items.toList, P a) ?_ (by simp)
  intro items collected
  apply yields.bind
  rintro (_ | a) holds
  · exact .pure (.done collected)
  · refine .pure (.again ?_)
    rw [Array.toList_push, List.forall_mem_append]
    exact ⟨collected, by simpa using holds⟩

theorem series_yields {item : Parse (α × Bool)} (yields : Yields tokens (fun a => P a.1) item) :
    Yields tokens (fun as => as ≠ [] ∧ ∀ a ∈ as, P a) (series item) := by
  refine iterate_yields (I := fun items => ∀ a ∈ items.toList, P a) ?_ (by simp)
  intro items collected
  apply yields.bind
  rintro ⟨a, more⟩ holds
  have longer : ∀ b ∈ (items.push a).toList, P b := by
    rw [Array.toList_push, List.forall_mem_append]
    exact ⟨collected, by simpa using holds⟩
  exact .ite (.pure (.again longer)) (.pure (.done ⟨by simp, longer⟩))

theorem commaSeparated_yields {item : Parse α} (yields : Yields tokens P item) :
    Yields tokens (fun as => as ≠ [] ∧ ∀ a ∈ as, P a) (commaSeparated item) := by
  apply series_yields
  apply yields.bind
  intro a holds
  apply (eatSymbol_keeps _).next
  intro more
  exact .pure holds

theorem chain_yields {step : α → Parse (Option α)}
    (each : ∀ a, P a → Yields tokens (fun next => ∀ b ∈ next, P b) (step a)) {a : α}
    (start : P a) : Yields tokens P (chain step a) := by
  refine iterate_yields (I := P) ?_ start
  intro a holds
  apply (each a holds).bind
  rintro (_ | next) further
  · exact .pure (.done holds)
  · exact .pure (.again (further next rfl))

end Lists

end Parse

end LuaSearch
