import LuaSearch.Parse.Cursor
import LuaSearch.Proofs.Syntax.Render

/-!
Readers before known lexemes. A reader reads some lexemes when, before any cursor that has them
ahead, it takes them and gives a value of the wanted kind, provided that the levels of nesting
suffice; where they do not, it fails with that fault and no other. What a sequence or a repetition
reads follows from what its parts read.
-/
namespace LuaSearch

open Lexeme

namespace Cursor

def ahead (c : Cursor) : List Lexeme := c.rest.map Token.lexeme

theorem ahead_advance (c : Cursor) : c.advance.ahead = c.ahead.tail := by
  simp [ahead, List.map_tail]

theorem lexeme_current {c : Cursor} {l : Lexeme} (first : c.ahead.head? = some l) :
    c.current.lexeme = l := by
  unfold ahead at first
  unfold current
  cases seen : c.rest with
  | nil => simp [seen] at first
  | cons token tokens => simpa [seen] using first

theorem left_eq_length (c : Cursor) : c.left = c.ahead.length := by
  simp [ahead, c.counted]

end Cursor

def Leads (P : Kind → Prop) (ls : List Lexeme) : Prop := ∃ l ∈ ls.head?, P l.1

namespace Leads

variable {P Q : Kind → Prop} {l : Lexeme} {ls : List Lexeme}

theorem cons (holds : P l.1) : Leads P (l :: ls) := ⟨l, rfl, holds⟩

theorem append (leads : Leads P ls) (rest : List Lexeme) : Leads P (ls ++ rest) := by
  obtain ⟨l, first, holds⟩ := leads
  refine ⟨l, ?_, holds⟩
  cases ls with
  | nil => cases first
  | cons _ _ => exact first

theorem mono (leads : Leads P ls) (weaker : ∀ kind, P kind → Q kind) : Leads Q ls := by
  obtain ⟨l, first, holds⟩ := leads
  exact ⟨l, first, weaker l.1 holds⟩

theorem ne_nil (leads : Leads P ls) : ls ≠ [] := by
  rintro rfl
  obtain ⟨l, first, _⟩ := leads
  cases first

end Leads

namespace Parse

open Render (separated separated_cons)

/-- How a reader ends that wants the levels to suffice: with a value and before the rest, or with
    the fault that they do not. -/
inductive Ends {α : Type} (fits : Prop) (ok : α → Prop) (rest : List Lexeme) :
    Except SyntaxError α × Cursor → Prop where
  | value {a : α} {c : Cursor} (fit : fits) (holds : ok a) (ahead : c.ahead = rest) :
      Ends fits ok rest (.ok a, c)
  | tooDeep {span : Span} {c : Cursor} (unfit : ¬ fits) :
      Ends fits ok rest (.error ⟨.tooDeep, span⟩, c)

def Reads {α : Type} (fits : Prop) (ok : α → Prop) (p : Parse α) (input rest : List Lexeme) :
    Prop :=
  ∀ c : Cursor, c.ahead = input → Ends fits ok rest (p.runOn c)

abbrev Takes {α : Type} (ok : α → Prop) (p : Parse α) (input rest : List Lexeme) : Prop :=
  Reads True ok p input rest

namespace Reads

variable {α β : Type} {fits part : Prop} {ok : α → Prop} {good : β → Prop}
  {input middle rest : List Lexeme}

theorem pure {a : α} (fit : fits) (holds : ok a) :
    Reads fits ok (Pure.pure a : Parse α) rest rest := by
  intro c ahead
  exact .value fit holds ahead

/-- The whole is wanted to fit; so its first part is, and once that is read the rest is to fit. -/
theorem bind {p : Parse β} {next : β → Parse α} (first : Reads part good p input middle)
    (only : fits → part) (later : part → ∀ b, good b → Reads fits ok (next b) middle rest) :
    Reads fits ok (p >>= next) input rest := by
  intro c ahead
  have started := first c ahead
  rcases ran : p.runOn c with ⟨result, after⟩
  rw [ran] at started
  cases started with
  | @value b after fit holds ahead' =>
    rw [Machine.runOn_bind_ok next ran]
    exact later fit b holds after ahead'
  | tooDeep unfit =>
    rw [Machine.runOn_bind_error next ran]
    exact .tooDeep fun fit => unfit (only fit)

theorem next {p : Parse β} {next : β → Parse α} (first : Takes good p input middle)
    (later : ∀ b, good b → Reads fits ok (next b) middle rest) :
    Reads fits ok (p >>= next) input rest :=
  bind first (fun _ => trivial) fun _ => later

theorem exhausted (unfit : ¬ fits) :
    Reads fits ok (do fail .tooDeep (← currentSpan)) input rest := by
  intro c _
  exact .tooDeep unfit

theorem mono {ok' : α → Prop} {p : Parse α} (reads : Reads fits ok p input rest)
    (weaker : ∀ a, ok a → ok' a) : Reads fits ok' p input rest := by
  intro c ahead
  have ended := reads c ahead
  generalize p.runOn c = result at ended ⊢
  cases ended with
  | value fit holds ahead' => exact .value fit (weaker _ holds) ahead'
  | tooDeep unfit => exact .tooDeep unfit

theorem congr {fits' : Prop} {p : Parse α} (reads : Reads fits ok p input rest)
    (same : fits ↔ fits') : Reads fits' ok p input rest := by
  rw [← propext same]
  exact reads

end Reads

section Single

variable {P : Kind → Prop} {l : Lexeme} {kind : Kind} {input rest : List Lexeme}

theorem currentSpan_takes : Takes (fun _ => True) currentSpan input input := by
  intro c ahead
  exact .value trivial trivial ahead

theorem finish_takes (start : Span) : Takes (fun _ => True) (finish start) input input := by
  intro c ahead
  rcases c with ⟨_ | last, rest, left, final, counted⟩ <;> exact .value trivial trivial ahead

theorem peek_takes (leads : Leads P input) : Takes P peek input input := by
  intro c ahead
  obtain ⟨l, first, holds⟩ := leads
  have seen := Cursor.lexeme_current (ahead ▸ first)
  refine .value trivial ?_ ahead
  rw [← seen] at holds
  exact holds

theorem peek_takes_first : Takes (· = l.1) peek (l :: rest) (l :: rest) :=
  peek_takes (.cons rfl)

theorem peekSecond_takes :
    Takes (· = (input[1]?.map Prod.fst).getD .eof) peekSecond input input := by
  rintro c rfl
  refine .value trivial ?_ rfl
  simp [Cursor.second, Cursor.ahead, Token.lexeme, Function.comp_def]

theorem peekSecond_takes_leads (leads : Leads P rest) :
    Takes P peekSecond (l :: rest) (l :: rest) := by
  obtain ⟨second, first, holds⟩ := leads
  apply peekSecond_takes.mono
  rintro _ rfl
  have given : (l :: rest)[1]? = some second := by
    rw [List.getElem?_cons_succ, ← List.head?_eq_getElem?]
    exact first
  rw [given]
  exact holds

theorem advance_takes : Takes (fun token => token.lexeme = l) advance (l :: rest) rest := by
  intro c ahead
  refine .value trivial (Cursor.lexeme_current (by rw [ahead]; rfl)) ?_
  rw [Cursor.ahead_advance, ahead]
  rfl

theorem isAt_takes_true (leads : Leads (· = kind) input) :
    Takes (· = true) (isAt kind) input input := by
  apply (peek_takes leads).next
  rintro _ rfl
  exact .pure trivial (by simp)

theorem isAt_takes_false (leads : Leads (· ≠ kind) input) :
    Takes (· = false) (isAt kind) input input := by
  apply (peek_takes leads).next
  intro other ne
  exact .pure trivial (by simp [ne])

theorem eat_takes_true (same : l.1 = kind) : Takes (· = true) (eat kind) (l :: rest) rest := by
  apply (isAt_takes_true (.cons same)).next
  rintro _ rfl
  apply advance_takes.next
  intro _ _
  exact .pure trivial rfl

theorem eat_takes_false (leads : Leads (· ≠ kind) input) :
    Takes (· = false) (eat kind) input input := by
  apply (isAt_takes_false leads).next
  rintro _ rfl
  exact .pure trivial rfl

theorem expect_takes (same : l.1 = kind) :
    Takes (fun token => token.lexeme = l) (expect kind) (l :: rest) rest := by
  apply (isAt_takes_true (.cons same)).next
  rintro _ rfl
  exact advance_takes

theorem keyword_takes (word : Keyword) :
    Takes (fun _ => True) (keyword word) (ofKeyword word :: rest) rest := by
  apply (expect_takes (l := ofKeyword word) rfl).next
  intro _ _
  exact .pure trivial trivial

theorem symbol_takes (sign : Symbol) :
    Takes (fun _ => True) (symbol sign) (ofSymbol sign :: rest) rest := by
  apply (expect_takes (l := ofSymbol sign) rfl).next
  intro _ _
  exact .pure trivial trivial

end Single

inductive OptionalReads {β : Type} (sign : Symbol) (part : Prop) (good : β → Prop)
    (p : Parse β) (default : β) (middle : List Lexeme) : List Lexeme → Prop where
  | absent (fit : part) (holds : good default) : OptionalReads sign part good p default middle []
  | present {inside : List Lexeme} (reads : Reads part good p (inside ++ middle) middle) :
      OptionalReads sign part good p default middle (ofSymbol sign :: inside)

theorem OptionalReads.bind {α β : Type} {fits part : Prop} {ok : α → Prop} {good : β → Prop}
    {text middle rest : List Lexeme} {sign : Symbol} {p : Parse β} {default : β}
    {next : β → Parse α} (first : OptionalReads sign part good p default middle text)
    (ended : Leads (· ≠ .symbol sign) middle) (only : fits → part)
    (later : part → ∀ b, good b → Reads fits ok (next b) middle rest) :
    Reads fits ok (eatSymbol sign >>= fun given => if given then p >>= next else next default)
      (text ++ middle) rest := by
  cases first with
  | absent fit holds =>
    apply (eat_takes_false ended).next
    rintro _ rfl
    exact later fit default holds
  | present reads =>
    apply (eat_takes_true (l := ofSymbol sign) rfl).next
    rintro _ rfl
    exact reads.bind only later

theorem spanned_reads {α : Type} {fits : Prop} {ok : α → Prop} {input rest : List Lexeme}
    {node : Parse (Span → α)}
    (reads : Reads fits (fun build => ∀ span, ok (build span)) node input rest) :
    Reads fits ok (spanned node) input rest := by
  apply currentSpan_takes.next
  intro start _
  apply reads.bind id
  intro fit build builds
  apply (finish_takes start).next
  intro span _
  exact .pure fit (builds span)

section Rounds

variable {σ β : Type} {fits part : Prop} {ok : β → Prop} {good : σ → Prop}
  {round : σ → Parse (Round σ β)} {input middle rest : List Lexeme}

/-- What is read in rounds, if there are more of them than lexemes ahead. -/
def RoundsRead (fits : Prop) (ok : β → Prop) (round : σ → Parse (Round σ β)) (state : σ)
    (input rest : List Lexeme) : Prop :=
  ∀ fuel, input.length < fuel → Reads fits ok (rounds round fuel state) input rest

theorem iterate_reads {state : σ} (reads : RoundsRead fits ok round state input rest) :
    Reads fits ok (iterate round state) input rest := by
  intro c ahead
  have left : c.left = input.length := by rw [c.left_eq_length, ahead]
  exact reads (c.left + 1) (by omega) c ahead

namespace RoundsRead

theorem again {state : σ}
    (one : Reads part (fun r => ∃ next, r = .again next ∧ good next) (round state) input middle)
    (shorter : middle.length < input.length) (only : fits → part)
    (later : part → ∀ next, good next → RoundsRead fits ok round next middle rest) :
    RoundsRead fits ok round state input rest := by
  rintro (_ | fuel) enough
  · exact absurd enough (Nat.not_lt_zero _)
  · apply one.bind only
    rintro fit _ ⟨next, rfl, holds⟩
    exact later fit next holds fuel (by omega)

theorem done {state : σ}
    (one : Reads fits (fun r => ∃ value, r = .done value ∧ ok value) (round state) input rest) :
    RoundsRead fits ok round state input rest := by
  rintro (_ | fuel) enough
  · exact absurd enough (Nat.not_lt_zero _)
  · apply one.bind id
    rintro fit _ ⟨value, rfl, holds⟩
    exact .pure fit holds

theorem mono {ok' : β → Prop} {state : σ} (reads : RoundsRead fits ok round state input rest)
    (weaker : ∀ b, ok b → ok' b) : RoundsRead fits ok' round state input rest := by
  intro fuel enough
  exact (reads fuel enough).mono weaker

end RoundsRead

end Rounds

section Lists

variable {α β γ : Type} {view : β → List Lexeme} {val : α → γ} {want : β → γ} {fit : β → Prop}

def seriesRound (item : Parse (α × Bool)) (items : Array α) :
    Parse (Round (Array α) (List α)) := do
  let (a, more) ← item
  if more then return .again (items.push a)
  else return .done (items.push a).toList

theorem series_eq (item : Parse (α × Bool)) : series item = iterate (seriesRound item) #[] := rfl

variable {item : Parse (α × Bool)} (starts : List Lexeme → Prop) {last : β} {rest : List Lexeme}

theorem separated_starts {front : List β}
    (begins : ∀ b ∈ front ++ [last], ∀ tail, starts (view b ++ tail)) :
    starts (separated ((front ++ [last]).map view) ++ rest) := by
  cases front with
  | nil => exact begins last (by simp) rest
  | cons b front =>
    rw [List.cons_append, List.map_cons, separated_cons _ (by simp), List.append_assoc]
    exact begins b (by simp) _

theorem series_rounds {front : List β} {fits : Prop}
    (begins : ∀ b ∈ front ++ [last], ∀ tail, starts (view b ++ tail))
    (middle : ∀ b ∈ front, ∀ tail, starts tail → Reads (fit b)
      (fun r => val r.1 = want b ∧ r.2 = true) item (view b ++ ofSymbol .comma :: tail) tail)
    (final : Reads (fit last) (fun r => val r.1 = want last ∧ r.2 = false) item
      (view last ++ rest) rest)
    (whole : fits ↔ ∀ b ∈ front ++ [last], fit b)
    (items : Array α) :
    RoundsRead fits (fun as => as.map val = items.toList.map val ++ (front ++ [last]).map want)
      (seriesRound item) items (separated ((front ++ [last]).map view) ++ rest) rest := by
  -- The last item stands apart: it alone is read with no comma behind it.
  induction front generalizing items with
  | nil =>
    apply RoundsRead.done
    apply final.bind (by simp [whole])
    rintro fit ⟨a, more⟩ ⟨same, rfl⟩
    refine .pure (by simpa [whole] using fit) ⟨_, rfl, ?_⟩
    simp [same]
  | cons b front ih =>
    have tail : separated ((b :: front ++ [last]).map view) ++ rest = view b ++
        ofSymbol .comma :: (separated ((front ++ [last]).map view) ++ rest) := by
      rw [List.cons_append, List.map_cons, separated_cons _ (by simp)]
      simp
    have others := fun b member => begins b (List.mem_cons_of_mem _ member)
    have follows : starts (separated ((front ++ [last]).map view) ++ rest) :=
      separated_starts starts others
    have shorter : (separated ((front ++ [last]).map view) ++ rest).length < (view b ++
        ofSymbol .comma :: (separated ((front ++ [last]).map view) ++ rest)).length := by
      simp only [List.length_append, List.length_cons]
      omega
    rw [tail]
    have one : Reads (fit b) (fun r => ∃ next, r = .again next ∧
        next.toList.map val = items.toList.map val ++ [want b]) (seriesRound item items)
        (view b ++ ofSymbol .comma :: (separated ((front ++ [last]).map view) ++ rest))
        (separated ((front ++ [last]).map view) ++ rest) := by
      apply (middle b List.mem_cons_self _ follows).bind id
      rintro fit ⟨a, more⟩ ⟨same, rfl⟩
      refine .pure fit ⟨_, rfl, ?_⟩
      simp [same]
    apply RoundsRead.again one shorter (by simp +contextual [whole])
    intro fit next collected
    have more := ih others (fun b member => middle b (List.mem_cons_of_mem _ member))
      (by simpa [fit] using whole) next
    apply more.mono
    intro as same
    rw [same, collected]
    simp

theorem series_reads {front : List β}
    (begins : ∀ b ∈ front ++ [last], ∀ tail, starts (view b ++ tail))
    (middle : ∀ b ∈ front, ∀ tail, starts tail → Reads (fit b)
      (fun r => val r.1 = want b ∧ r.2 = true) item (view b ++ ofSymbol .comma :: tail) tail)
    (final : Reads (fit last) (fun r => val r.1 = want last ∧ r.2 = false) item
      (view last ++ rest) rest) :
    Reads (∀ b ∈ front ++ [last], fit b) (fun as => as.map val = (front ++ [last]).map want)
      (series item) (separated ((front ++ [last]).map view) ++ rest) rest := by
  rw [series_eq]
  apply iterate_reads
  simpa using series_rounds starts begins middle final Iff.rfl #[]

theorem commaSeparated_reads {item : Parse α} (ends : Kind → Prop) {bs : List β}
    (some : bs ≠ []) (comma : ends (.symbol .comma))
    (each : ∀ b ∈ bs, ∀ tail, Leads ends tail →
      Reads (fit b) (fun a => val a = want b) item (view b ++ tail) tail)
    (ended : Leads ends rest) (noComma : Leads (· ≠ .symbol .comma) rest) :
    Reads (∀ b ∈ bs, fit b) (fun as => as.map val = bs.map want) (commaSeparated item)
      (separated (bs.map view) ++ rest) rest := by
  obtain ⟨front, last, rfl⟩ : ∃ front last, bs = front ++ [last] :=
    ⟨bs.dropLast, bs.getLast some, (List.dropLast_concat_getLast some).symm⟩
  refine series_reads (fun _ => True) (fun _ _ _ => trivial) ?_ ?_
  · intro b member tail _
    apply (each b (List.mem_append_left _ member) _ (.cons comma)).bind id
    intro fit a same
    apply (eat_takes_true (l := ofSymbol .comma) rfl).next
    rintro _ rfl
    exact .pure fit ⟨same, rfl⟩
  · apply (each last (by simp) rest ended).bind id
    intro fit a same
    apply (eat_takes_false noComma).next
    rintro _ rfl
    exact .pure fit ⟨same, rfl⟩

theorem further_reads {item : Parse α} (ends : Kind → Prop) {bs : List β}
    (comma : ends (.symbol .comma))
    (each : ∀ b ∈ bs, ∀ tail, Leads ends tail →
      Reads (fit b) (fun a => val a = want b) item (view b ++ tail) tail)
    (ended : Leads ends rest) (noComma : Leads (· ≠ .symbol .comma) rest) :
    OptionalReads .comma (∀ b ∈ bs, fit b) (fun as => as.map val = bs.map want)
      (commaSeparated item) [] rest (Render.further (bs.map view)) := by
  cases bs with
  | nil => exact .absent (by simp) rfl
  | cons b bs =>
    exact .present (commaSeparated_reads ends (List.cons_ne_nil b bs) comma each ended noComma)

def chainRound (step : α → Parse (Option α)) (a : α) : Parse (Round α α) := do
  match ← step a with
  | some next => return .again next
  | none => return .done a

theorem chain_eq (step : α → Parse (Option α)) : chain step = iterate (chainRound step) := rfl

end Lists

section Chain

variable {α : Type} {step : α → Parse (Option α)} {fits part : Prop} {ok good : α → Prop}
  {input middle rest : List Lexeme} {a : α}

abbrev ChainReads (fits : Prop) (ok : α → Prop) (step : α → Parse (Option α)) (a : α)
    (input rest : List Lexeme) : Prop :=
  RoundsRead fits ok (chainRound step) a input rest

theorem chain_reads (reads : ChainReads fits ok step a input rest) :
    Reads fits ok (chain step a) input rest := by
  rw [chain_eq]
  exact iterate_reads reads

theorem ChainReads.again
    (one : Reads part (fun next? => ∃ next, next? = some next ∧ good next) (step a) input middle)
    (shorter : middle.length < input.length) (only : fits → part)
    (later : part → ∀ next, good next → ChainReads fits ok step next middle rest) :
    ChainReads fits ok step a input rest := by
  refine RoundsRead.again ?_ shorter only later
  apply one.bind id
  rintro fit _ ⟨next, rfl, holds⟩
  exact .pure fit ⟨next, rfl, holds⟩

theorem ChainReads.done (one : Takes (· = none) (step a) rest rest) (fit : fits) (holds : ok a) :
    ChainReads fits ok step a rest rest := by
  apply RoundsRead.done
  apply one.next
  rintro _ rfl
  exact .pure fit ⟨a, rfl, holds⟩

end Chain

end Parse

end LuaSearch
