import LuaSearch.Parse.Cursor

/-!
Tokens without an end marker. Past the last token it is seen again, and taking it changes nothing. A
reader then moves to fewer tokens or stands still, and where it gives a value without having moved
it must have been content with the last token alone. A repetition that goes on so is cut off.
-/
namespace LuaSearch

/-- As the last token it can be taken for ever: in a block the empty and the one-word statements,
    behind an expression a string. -/
def Kind.repeats : Kind → Bool
  | .symbol .semicolon | .keyword .break_ | .keyword .continue_ | .string | .longString => true
  | _ => false

theorem Kind.repeats_iff (kind : Kind) :
    kind.repeats = true ↔
      kind = .symbol .semicolon ∨ kind = .keyword .break_ ∨ kind = .keyword .continue_ ∨
        kind = .string ∨ kind = .longString := by
  constructor
  · unfold Kind.repeats
    split <;> simp
  · rintro (rfl | rfl | rfl | rfl | rfl) <;> rfl

namespace Cursor

structure Past (c : Cursor) (kinds : Kind → Prop) : Prop where
  rest : c.rest = []
  kind : kinds c.current.kind

/-- Some repetition can stand still here. -/
abbrev Stuck (c : Cursor) : Prop := c.Past (·.repeats = true)

theorem Past.left {c : Cursor} {K : Kind → Prop} (past : c.Past K) : c.left = 0 := by
  rw [c.counted, past.rest, List.length_nil]

theorem Past.mono {c : Cursor} {K L : Kind → Prop} (past : c.Past K) (wider : ∀ k, K k → L k) :
    c.Past L :=
  ⟨past.rest, wider _ past.kind⟩

theorem Past.absurd {c : Cursor} {K L : Kind → Prop} (past : c.Past K) (also : c.Past L)
    (apart : ∀ k, K k → ¬ L k) : False :=
  apart _ past.kind also.kind

structure Further (c c' : Cursor) : Prop where
  shorter : c'.left < c.left
  ahead : c'.rest <:+ c.rest
  final : c'.final = c.final

theorem Further.trans {c d e : Cursor} (first : c.Further d) (second : d.Further e) :
    c.Further e where
  shorter := Nat.lt_trans second.shorter first.shorter
  ahead := second.ahead.trans first.ahead
  final := second.final.trans first.final

theorem advance_eq_self {c : Cursor} (past : c.rest = []) : c.advance = c := by
  rcases c with ⟨_, _ | _, _, _, _⟩
  · rfl
  · cases past

theorem further_advance {c : Cursor} (more : c.rest ≠ []) : c.Further c.advance where
  shorter := by
    rw [c.counted, c.advance.counted, rest_advance, List.length_tail]
    exact Nat.pred_lt (by simpa using more)
  ahead := by
    rw [rest_advance]
    exact List.tail_suffix _
  final := final_advance c

end Cursor

namespace Parse

def Sound {α : Type} (c : Cursor) (result : Except SyntaxError α) : Prop :=
  ∀ e, result = .error e → e.fault = .stalled → c.Stuck

theorem Sound.ok {α : Type} {c : Cursor} (a : α) : Sound c (.ok a) := by
  rintro _ ⟨⟩

theorem Sound.error {α : Type} {c : Cursor} {e : SyntaxError}
    (sound : e.fault = .stalled → c.Stuck) : Sound c (.error e : Except SyntaxError α) := by
  rintro _ ⟨⟩
  exact sound

inductive Settled {α : Type} (c : Cursor) (still : α → Prop) :
    Except SyntaxError α × Cursor → Prop where
  | moved {result : Except SyntaxError α} {c' : Cursor} (further : c.Further c')
      (sound : Sound c' result) : Settled c still (result, c')
  | stood {result : Except SyntaxError α} (holds : ∀ a, result = .ok a → still a)
      (sound : Sound c result) : Settled c still (result, c)

/-- The reader moves on or stands still, and in the latter case only with a value of the given
    sort. -/
def Settles {α : Type} (c : Cursor) (still : α → Prop) (p : Parse α) : Prop :=
  Settled c still (p.runOn c)

abbrev Finishes {α : Type} (c : Cursor) (p : Parse α) : Prop := Settles c (fun _ => True) p

abbrev Rests {α : Type} (c : Cursor) (kinds : Kind → Prop) (p : Parse α) : Prop :=
  Settles c (fun _ => c.Past kinds) p

abbrev Advances {α : Type} (c : Cursor) (p : Parse α) : Prop := Settles c (fun _ => False) p

variable {c : Cursor}

namespace Settles

variable {α β : Type} {P : α → Prop} {Q : β → Prop}

theorem pure {a : α} (holds : P a) : Settles c P (Pure.pure a : Parse α) := by
  refine .stood ?_ (.ok a)
  rintro _ ⟨⟩
  exact holds

theorem fail {fault : Fault} (sound : fault ≠ .stalled) (span : Span) :
    Settles c P (Parse.fail fault span : Parse α) :=
  .stood nofun (.error fun stalled => absurd stalled sound)

theorem mono {P' : α → Prop} {p : Parse α} (settles : Settles c P p) (weaker : ∀ a, P a → P' a) :
    Settles c P' p := by
  unfold Settles at settles ⊢
  generalize p.runOn c = result at settles ⊢
  cases settles with
  | moved further sound => exact .moved further sound
  | stood holds sound => exact .stood (fun a given => weaker a (holds a given)) sound

theorem finishes {p : Parse α} (settles : Settles c P p) : Finishes c p :=
  settles.mono fun _ _ => trivial

theorem advances {p : Parse α} (settles : Advances c p) : Settles c P p :=
  settles.mono fun _ => False.elim

theorem bind {p : Parse α} {next : α → Parse β} (first : Settles c P p)
    (later : ∀ a c', c'.left < c.left → Finishes c' (next a))
    (still : ∀ a, P a → Settles c Q (next a)) : Settles c Q (p >>= next) := by
  unfold Settles at first ⊢
  generalize ran : p.runOn c = result at first
  cases first with
  | @moved result c' further sound =>
    cases result with
    | error e =>
      rw [Machine.runOn_bind_error next ran]
      exact .moved further (.error (sound e rfl))
    | ok a =>
      rw [Machine.runOn_bind_ok next ran]
      have after := later a c' further.shorter
      unfold Finishes Settles at after
      generalize (next a).runOn c' = result at after
      cases after with
      | moved more sound => exact .moved (further.trans more) sound
      | stood _ sound => exact .moved further sound
  | @stood result holds sound =>
    cases result with
    | error e =>
      rw [Machine.runOn_bind_error next ran]
      exact .stood nofun (.error (sound e rfl))
    | ok a =>
      rw [Machine.runOn_bind_ok next ran]
      exact still a (holds a rfl)

theorem after {R : Prop} {p : Parse α} {next : α → Parse β} (first : Settles c (fun _ => R) p)
    (later : ∀ a c, Finishes c (next a)) : Settles c (fun _ => R) (p >>= next) :=
  first.bind (fun a c' _ => later a c') fun a holds => (later a c).mono fun _ _ => holds

theorem anyway {R : Cursor → β → Prop} {p : Parse α} {next : α → Parse β} (first : Settles c P p)
    (later : ∀ a c, Settles c (R c) (next a)) : Settles c (R c) (p >>= next) :=
  first.bind (fun a c' _ => (later a c').finishes) fun a _ => later a c

/-- The last token cannot be both what the first reader and what the next one is content with. -/
theorem clash {K L : Kind → Prop} {p : Parse α} {next : α → Parse β} (first : Rests c K p)
    (later : ∀ a c, Rests c L (next a)) (apart : ∀ k, K k → ¬ L k) : Advances c (p >>= next) :=
  first.bind (fun a c' _ => (later a c').finishes) fun a past =>
    (later a c).mono fun _ also => past.absurd also apart

theorem seen {look : Parse α} {next : α → Parse β} {a : α} (ran : look.runOn c = (.ok a, c))
    (later : Settles c Q (next a)) : Settles c Q (look >>= next) := by
  unfold Settles
  rw [Machine.runOn_bind_ok next ran]
  exact later

theorem ite {condition : Prop} [Decidable condition] {p q : Parse α} (yes : Settles c P p)
    (no : Settles c P q) : Settles c P (if condition then p else q) := by
  split
  · exact yes
  · exact no

theorem optional {condition : Prop} [Decidable condition] {R : Cursor → β → Prop} {p : Parse α}
    {a : α} {next : α → Parse β} (part : Settles c P p) (later : ∀ a c, Settles c (R c) (next a)) :
    Settles c (R c) (if condition then p >>= next else next a) :=
  ite (part.anyway later) (later a c)

theorem ruledOut {condition : Prop} [Decidable condition] {R : Cursor → β → Prop} {p : Parse α}
    {a : α} {next : α → Parse β} (part : Settles c P p) (later : ∀ a c, Settles c (R c) (next a)) :
    Settles c (R c) (if condition then next a else p >>= next) :=
  ite (later a c) (part.anyway later)

end Settles

section Single

variable {α : Type} {P : α → Prop}

theorem peek_settles {next : Kind → Parse α} (later : Settles c P (next c.current.kind)) :
    Settles c P (peek >>= next) :=
  .seen rfl later

theorem peekSecond_settles {next : Kind → Parse α} (later : Settles c P (next c.second)) :
    Settles c P (peekSecond >>= next) :=
  .seen rfl later

theorem currentSpan_settles {next : Span → Parse α} (later : Settles c P (next c.current.span)) :
    Settles c P (currentSpan >>= next) :=
  .seen rfl later

theorem isAt_settles {kind : Kind} {next : Bool → Parse α}
    (later : Settles c P (next (decide (c.current.kind = kind)))) :
    Settles c P (isAt kind >>= next) :=
  @Settles.seen c _ _ P (isAt kind) next _ rfl later

theorem Settles.fail_here {fault : Fault} (sound : fault ≠ .stalled) :
    Settles c P (currentSpan >>= Parse.fail fault : Parse α) :=
  currentSpan_settles (.fail sound _)

theorem finish_settles (start : Span) : Finishes c (finish start) := by
  rcases c with ⟨_ | last, rest, left, final, counted⟩ <;>
    exact .stood (fun _ _ => trivial) (.ok _)

end Single

theorem advance_settles {kind : Kind} (here : c.current.kind = kind) :
    Rests c (· = kind) advance := by
  have ran : advance.runOn c = (.ok c.current, c.advance) := rfl
  unfold Rests Settles
  rw [ran]
  by_cases past : c.rest = []
  · rw [Cursor.advance_eq_self past]
    exact .stood (fun _ _ => ⟨past, here⟩) (.ok _)
  · exact .moved (Cursor.further_advance past) (.ok _)

theorem token_settles {α : Type} {kind : Kind} (here : c.current.kind = kind) (f : Token → α) :
    Rests c (· = kind) (advance >>= fun token => pure (f token)) :=
  (advance_settles here).after fun _ _ => .pure trivial

theorem eatSymbol_settles (sign : Symbol) :
    Settles c (fun eaten => eaten = true → c.Past (· = .symbol sign)) (eatSymbol sign) := by
  apply isAt_settles
  by_cases here : c.current.kind = .symbol sign
  · simp only [here, decide_true, if_true]
    exact (token_settles here fun _ => true).mono fun _ past _ => past
  · simp only [here, decide_false]
    exact .pure nofun

theorem expect_settles (kind : Kind) : Rests c (· = kind) (expect kind) := by
  apply isAt_settles
  by_cases here : c.current.kind = kind
  · simp only [here, decide_true, if_true]
    exact advance_settles here
  · simp only [here, decide_false]
    exact peek_settles (.fail_here (by simp))

theorem keyword_settles (word : Keyword) : Rests c (· = .keyword word) (keyword word) :=
  (expect_settles _).after fun _ _ => .pure trivial

theorem symbol_settles (sign : Symbol) : Rests c (· = .symbol sign) (symbol sign) :=
  (expect_settles _).after fun _ _ => .pure trivial

theorem spanned_settles {α : Type} {R : Prop} {node : Parse (Span → α)}
    (settles : Settles c (fun _ => R) node) : Settles c (fun _ => R) (spanned node) := by
  apply currentSpan_settles
  apply settles.after
  intro build c
  apply (finish_settles _).after
  intro span c
  exact .pure trivial

section Rounds

variable {σ β : Type} {Q : Cursor → β → Prop} {round : σ → Parse (Round σ β)}

def RoundStill (c : Cursor) (Q : β → Prop) : Round σ β → Prop
  | .again _ => c.Stuck
  | .done b => Q b

variable (each : ∀ s c, Settles c (RoundStill c (Q c)) (round s))

include each

theorem rounds_settles (fuel : Nat) :
    ∀ s c, c.left < fuel ∨ c.Stuck → Settles c (Q c) (rounds round fuel s) := by
  induction fuel with
  | zero =>
    rintro s c (enough | stuck)
    · exact absurd enough (Nat.not_lt_zero _)
    · exact currentSpan_settles (.stood nofun (.error fun _ => stuck))
  | succ fuel ih =>
    intro s c enough
    apply (each s c).bind
    · rintro (next | value) c' shorter
      · have more : c.left ≠ 0 := by omega
        have enough := enough.resolve_right fun stuck => more stuck.left
        exact (ih next c' (.inl (by omega))).finishes
      · exact .pure trivial
    · rintro (next | value) still
      · exact ih next c (.inr still)
      · exact .pure still

theorem iterate_settles (s : σ) : Settles c (Q c) (iterate round s) :=
  rounds_settles each (c.left + 1) s c (.inl (Nat.lt_succ_self _))

theorem iterate_settles_of_done {s : σ} {R : β → Prop}
    (first : Settles c (fun r => ∃ b, r = .done b ∧ R b) (round s)) :
    Settles c R (iterate round s) := by
  change Settles c R (rounds round (c.left + 1) s)
  apply first.bind
  · rintro (next | value) c' shorter
    · exact (rounds_settles each c.left next c' (.inl shorter)).finishes
    · exact .pure trivial
  · rintro _ ⟨b, rfl, holds⟩
    exact .pure holds

end Rounds

/-- Where every round goes on without moving, no number of rounds is enough. -/
theorem rounds_endless {σ β : Type} {round : σ → Parse (Round σ β)}
    (again : ∀ s, ∃ next, (round s).runOn c = (.ok (.again next), c)) (fuel : Nat) (s : σ) :
    (rounds round fuel s).runOn c = (.error ⟨.stalled, c.current.span⟩, c) := by
  induction fuel generalizing s with
  | zero => rfl
  | succ fuel ih =>
    obtain ⟨next, ran⟩ := again s
    rw [rounds, Machine.runOn_bind_ok _ ran]
    exact ih next

section Lists

variable {α : Type}

abbrev Fades (c : Cursor) (item : Parse (Option α)) : Prop :=
  Settles c (fun a? => a?.isSome → c.Stuck) item

theorem optionRound_settles {σ β : Type} {item : Parse (Option α)} {again : α → σ} {stop : β}
    (each : Fades c item) :
    Settles c (RoundStill c fun _ => True) (do
      match ← item with
      | some a => return Round.again (again a)
      | none => return Round.done stop) := by
  apply each.bind
  · rintro (_ | a) c' _
    · exact .pure trivial
    · exact .pure trivial
  · rintro (_ | a) still
    · exact .pure trivial
    · exact .pure (still rfl)

theorem many_settles {item : Parse (Option α)} (each : ∀ c, Fades c item) :
    Finishes c (many item) := by
  refine iterate_settles (Q := fun _ _ => True) ?_ _
  intro items c
  exact optionRound_settles (each c)

theorem chain_settles {step : α → Parse (Option α)} (each : ∀ a c, Fades c (step a)) (a : α) :
    Finishes c (chain step a) := by
  refine iterate_settles (Q := fun _ _ => True) ?_ _
  intro a c
  exact optionRound_settles (each a c)

theorem chain_settles_of_none {step : α → Parse (Option α)} (each : ∀ a c, Fades c (step a)) {a : α}
    (first : Settles c (fun a? => a? = none) (step a)) : Settles c (· = a) (chain step a) := by
  refine iterate_settles_of_done (Q := fun _ _ => True) ?_ ?_
  · intro a c
    exact optionRound_settles (each a c)
  · apply first.bind
    · rintro (_ | next) c' _
      · exact .pure trivial
      · exact .pure trivial
    · rintro _ rfl
      exact .pure ⟨a, rfl, rfl⟩

theorem series_settles {K : Kind → Prop} {item : Parse (α × Bool)}
    (each : ∀ c, Settles c (fun a => c.Past K ∧ a.2 = false) item) : Rests c K (series item) := by
  refine iterate_settles (Q := fun c _ => c.Past K) ?_ _
  intro items c
  apply (each c).bind
  · rintro ⟨a, more⟩ c' _
    exact .ite (.pure trivial) (.pure trivial)
  · rintro ⟨a, _⟩ ⟨past, rfl⟩
    exact .pure past

theorem commaItem_settles {β : Type} {K : Kind → Prop} (noComma : ¬ K (.symbol .comma))
    {item : Parse α} (f : α → β) (settles : Rests c K item) :
    Settles c (fun x => c.Past K ∧ x.2 = false) (do
      let a ← item
      return (f a, ← eatSymbol .comma)) := by
  apply settles.bind
  · intro a c' _
    apply (eatSymbol_settles _).finishes.after
    intro more c
    exact .pure trivial
  · intro a past
    apply (eatSymbol_settles _).bind
    · intro more c' _
      exact .pure trivial
    · rintro (_ | _) comma
      · exact .pure ⟨past, rfl⟩
      · exact absurd ((comma rfl).kind ▸ past.kind) noComma

theorem commaSeparated_settles {K : Kind → Prop} (noComma : ¬ K (.symbol .comma)) {item : Parse α}
    (each : ∀ c, Rests c K item) : Rests c K (commaSeparated item) :=
  series_settles fun c => commaItem_settles noComma id (each c)

end Lists

end Parse

end LuaSearch
