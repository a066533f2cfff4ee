import LuaSearch.Parse.Expression
import LuaSearch.Proofs.Parse.Gives
import LuaSearch.Proofs.Parse.Reads
import LuaSearch.Proofs.Token.Proper

/-!
What readers leave of known lexemes. A reader leaves a relation before some lexemes when, whenever
it ends with a value there, the relation holds between the value and the lexemes that are then
ahead. So from a run that succeeds it can be told what was taken; of a run that fails nothing is
said.
-/
namespace LuaSearch

open Lexeme

def kindOf (ls : List Lexeme) : Kind := (ls.head?.map Prod.fst).getD .eof

theorem kindOf_of_leads {ok : Kind → Prop} {ls : List Lexeme} (leads : Leads ok ls) :
    ok (kindOf ls) := by
  obtain ⟨l, first, holds⟩ := leads
  rw [Option.mem_def] at first
  simpa [kindOf, first] using holds

/-- The lexemes are ahead, all of them proper but end markers, and behind them is the end. -/
structure Cursor.Before (input : List Lexeme) (c : Cursor) : Prop where
  ahead : c.ahead = input
  final : c.final.kind = .eof
  proper : ∀ l ∈ input, l.1 ≠ .eof → Proper l

namespace Cursor.Before

variable {c : Cursor} {input : List Lexeme}

theorem kind_current (before : c.Before input) : c.current.kind = kindOf input := by
  rw [← before.ahead]
  unfold kindOf Cursor.ahead Cursor.current
  cases c.rest with
  | nil => simp [before.final]
  | cons token tokens => rfl

theorem tail (before : c.Before input) : c.advance.Before input.tail where
  ahead := by rw [Cursor.ahead_advance, before.ahead]
  final := by rw [Cursor.final_advance]; exact before.final
  proper := fun l member => before.proper l (List.mem_of_mem_tail member)

theorem advance {l : Lexeme} (before : c.Before (l :: input)) : c.advance.Before input :=
  before.tail

theorem cons_of_kind (before : c.Before input) (inside : kindOf input ≠ .eof) :
    ∃ rest, input = c.current.lexeme :: rest ∧ Proper c.current.lexeme := by
  cases input with
  | nil => exact absurd rfl inside
  | cons l rest =>
    have same : c.current.lexeme = l := Cursor.lexeme_current (by rw [before.ahead]; rfl)
    refine ⟨rest, by rw [same], ?_⟩
    rw [same]
    exact before.proper l List.mem_cons_self inside

end Cursor.Before

namespace Parse

structure Leaves {α : Type} (input : List Lexeme) (ok : α → List Lexeme → Prop) (p : Parse α) :
    Prop where
  holds : ∀ {c a c'}, c.Before input → p.runOn c = (.ok a, c') →
    ∃ rest, c'.Before rest ∧ ok a rest

variable {input : List Lexeme}

namespace Leaves

variable {α β : Type} {ok : α → List Lexeme → Prop} {good : β → List Lexeme → Prop}

theorem pure {a : α} (holds : ok a input) : Leaves input ok (Pure.pure a : Parse α) := by
  constructor
  intro c b c' before ran
  rw [Machine.runOn_pure] at ran
  cases ran
  exact ⟨input, before, holds⟩

theorem fail (fault : Fault) (span : Span) : Leaves input ok (Parse.fail fault span : Parse α) := by
  constructor
  intro c a c' _ ran
  cases ran

theorem bind {p : Parse β} {next : β → Parse α} (first : Leaves input good p)
    (later : ∀ b middle, good b middle → Leaves middle ok (next b)) :
    Leaves input ok (p >>= next) := by
  constructor
  intro c a c' before ran
  obtain ⟨b, after, started, went⟩ := Machine.exists_of_runOn_bind ran
  obtain ⟨middle, before', holds⟩ := first.holds before started
  exact (later b middle holds).holds before' went

theorem mono {ok' : α → List Lexeme → Prop} {p : Parse α} (leaves : Leaves input ok p)
    (weaker : ∀ a rest, ok a rest → ok' a rest) : Leaves input ok' p := by
  constructor
  intro c a c' before ran
  obtain ⟨rest, after, holds⟩ := leaves.holds before ran
  exact ⟨rest, after, weaker a rest holds⟩

end Leaves

section Look

variable {α : Type} {ok : α → List Lexeme → Prop}

theorem peek_leaves {next : Kind → Parse α} (later : Leaves input ok (next (kindOf input))) :
    Leaves input ok (peek >>= next) := by
  constructor
  intro c a c' before ran
  have peeked : peek.runOn c = (.ok (kindOf input), c) := by
    rw [← before.kind_current]
    rfl
  rw [Machine.runOn_bind_ok _ peeked] at ran
  exact later.holds before ran

theorem isAt_leaves {kind : Kind} {next : Bool → Parse α}
    (later : Leaves input ok (next (decide (kindOf input = kind)))) :
    Leaves input ok (isAt kind >>= next) := by
  rw [isAt, bind_assoc]
  apply peek_leaves
  simpa using later

theorem peekSecond_leaves {next : Kind → Parse α}
    (later : ∀ kind, Leaves input ok (next kind)) : Leaves input ok (peekSecond >>= next) := by
  constructor
  intro c a c' before ran
  have peeked : peekSecond.runOn c = (.ok c.second, c) := rfl
  rw [Machine.runOn_bind_ok _ peeked] at ran
  exact (later _).holds before ran

theorem currentSpan_leaves {next : Span → Parse α} (later : ∀ span, Leaves input ok (next span)) :
    Leaves input ok (currentSpan >>= next) := by
  constructor
  intro c a c' before ran
  have seen : currentSpan.runOn c = (.ok c.current.span, c) := rfl
  rw [Machine.runOn_bind_ok _ seen] at ran
  exact (later _).holds before ran

theorem finish_leaves (start : Span) {next : Span → Parse α}
    (later : ∀ span, Leaves input ok (next span)) : Leaves input ok (finish start >>= next) := by
  have kept : Leaves input (fun _ rest => rest = input) (finish start) := by
    constructor
    rintro ⟨_ | last, rest, left, final, counted⟩ span c' before ran <;> cases ran <;>
      exact ⟨input, before, rfl⟩
  apply kept.bind
  rintro span _ rfl
  exact later span

theorem spanned_leaves {node : Parse (Span → α)}
    (leaves : Leaves input (fun build rest => ∀ span, ok (build span) rest) node) :
    Leaves input ok (spanned node) := by
  apply currentSpan_leaves
  intro start
  apply leaves.bind
  intro build rest builds
  apply finish_leaves start
  intro span
  exact .pure (builds span)

end Look

theorem advance_leaves (inside : kindOf input ≠ .eof) :
    Leaves input (fun token rest => token.kind = kindOf input ∧ input = token.lexeme :: rest ∧
      Proper token.lexeme) advance := by
  constructor
  intro c token c' before ran
  cases ran
  obtain ⟨rest, split, proper⟩ := before.cons_of_kind inside
  exact ⟨rest, (split ▸ before).advance, before.kind_current, split, proper⟩

theorem advance_leaves_symbol {sign : Symbol} (seen : kindOf input = .symbol sign) :
    Leaves input (fun _ rest => input = ofSymbol sign :: rest) advance := by
  apply (advance_leaves (by rw [seen]; nofun)).mono
  rintro ⟨kind, span, text⟩ rest ⟨isKind, rfl, proper⟩
  obtain rfl : kind = .symbol sign := isKind.trans seen
  cases proper
  rfl

theorem advance_leaves_keyword {word : Keyword} (seen : kindOf input = .keyword word) :
    Leaves input (fun _ rest => input = ofKeyword word :: rest) advance := by
  apply (advance_leaves (by rw [seen]; nofun)).mono
  rintro ⟨kind, span, text⟩ rest ⟨isKind, rfl, proper⟩
  obtain rfl : kind = .keyword word := isKind.trans seen
  cases proper
  rfl

theorem expect_leaves {kind : Kind} (inside : kind ≠ .eof) :
    Leaves input (fun token rest => token.kind = kind ∧ input = token.lexeme :: rest ∧
      Proper token.lexeme) (expect kind) := by
  apply isAt_leaves
  by_cases seen : kindOf input = kind
  · simp only [seen, decide_true, if_true]
    subst seen
    exact advance_leaves inside
  · simp only [seen, decide_false]
    apply peek_leaves
    exact currentSpan_leaves fun _ => .fail _ _

theorem expect_leaves_end : Leaves input (fun _ _ => kindOf input = .eof) (expect .eof) := by
  apply isAt_leaves
  by_cases ended : kindOf input = .eof
  · simp only [ended, decide_true, if_true]
    constructor
    intro c token c' before ran
    cases ran
    exact ⟨_, before.tail, trivial⟩
  · simp only [ended, decide_false]
    apply peek_leaves
    exact currentSpan_leaves fun _ => .fail _ _

theorem symbol_leaves (sign : Symbol) :
    Leaves input (fun _ rest => input = ofSymbol sign :: rest) (symbol sign) := by
  apply (expect_leaves (by nofun)).bind
  rintro ⟨kind, span, text⟩ rest ⟨rfl, rfl, proper⟩
  cases proper
  exact .pure rfl

theorem keyword_leaves (word : Keyword) :
    Leaves input (fun _ rest => input = ofKeyword word :: rest) (keyword word) := by
  apply (expect_leaves (by nofun)).bind
  rintro ⟨kind, span, text⟩ rest ⟨rfl, rfl, proper⟩
  cases proper
  exact .pure rfl

theorem ident_leaves :
    Leaves input (fun token rest => isName token.text ∧ input = ofName token.text :: rest)
      Grammar.ident := by
  apply (expect_leaves (by nofun)).mono
  rintro ⟨kind, span, text⟩ rest ⟨rfl, rfl, proper⟩
  cases proper with
  | name named => exact ⟨named, rfl⟩

inductive Eaten (sign : Symbol) (input : List Lexeme) : Bool → List Lexeme → Prop where
  | yes {rest : List Lexeme} (taken : input = ofSymbol sign :: rest) : Eaten sign input true rest
  | no (other : kindOf input ≠ .symbol sign) : Eaten sign input false input

theorem eatSymbol_leaves (sign : Symbol) : Leaves input (Eaten sign input) (eatSymbol sign) := by
  apply isAt_leaves
  by_cases seen : kindOf input = .symbol sign
  · simp only [seen, decide_true, if_true]
    apply (advance_leaves_symbol seen).bind
    intro _ rest taken
    exact .pure (.yes taken)
  · simp only [seen, decide_false]
    exact .pure (.no seen)

structure OptionalLeaves {β : Type} (sign : Symbol) (input : List Lexeme)
    (good : β → List Lexeme → Prop) (p : Parse β) (default : β) : Prop where
  present {middle : List Lexeme} (taken : input = ofSymbol sign :: middle) : Leaves middle good p
  absent : good default input

theorem OptionalLeaves.bind {α β : Type} {ok : α → List Lexeme → Prop}
    {good : β → List Lexeme → Prop} {sign : Symbol} {p : Parse β} {default : β}
    {next : β → Parse α} (first : OptionalLeaves sign input good p default)
    (later : ∀ b middle, good b middle → Leaves middle ok (next b)) :
    Leaves input ok
      (eatSymbol sign >>= fun given => if given then p >>= next else next default) := by
  apply (eatSymbol_leaves sign).bind
  rintro _ middle (taken | _)
  · exact (first.present taken).bind later
  · exact later default input first.absent

section Rounds

variable {σ β : Type} {ok : β → List Lexeme → Prop} {round : σ → Parse (Round σ β)}

theorem iterate_leaves {I : σ → List Lexeme → Prop}
    (one : ∀ s input, I s input →
      Leaves input (fun r rest => RoundGives (I · rest) (ok · rest) r) (round s))
    {s : σ} (start : I s input) : Leaves input ok (iterate round s) := by
  have all : ∀ fuel s input, I s input → Leaves input ok (rounds round fuel s) := by
    intro fuel
    induction fuel with
    | zero => exact fun s input _ => currentSpan_leaves fun _ => .fail _ _
    | succ fuel ih =>
      intro s input holds
      apply (one s input holds).bind
      rintro _ rest (again | done)
      · exact ih _ _ again
      · exact .pure done
  constructor
  intro c b c' before ran
  exact (all (c.left + 1) s input start).holds before ran

/-- What the rounds that are left take says what all of them took. -/
theorem iterate_leaves_back {K : σ → List Lexeme → β → List Lexeme → Prop}
    (one : ∀ s input, Leaves input (fun r middle => RoundGives
      (fun next => ∀ b rest, K next middle b rest → K s input b rest) (K s input · middle) r)
      (round s))
    (s : σ) : Leaves input (K s input) (iterate round s) := by
  have all : ∀ fuel s input, Leaves input (K s input) (rounds round fuel s) := by
    intro fuel
    induction fuel with
    | zero => exact fun s input => currentSpan_leaves fun _ => .fail _ _
    | succ fuel ih =>
      intro s input
      apply (one s input).bind
      rintro _ middle (again | done)
      · exact (ih _ middle).mono again
      · exact .pure done
  constructor
  intro c b c' before ran
  exact (all (c.left + 1) s input).holds before ran

end Rounds

section Lists

variable {α : Type}

theorem many_leaves {K : List Lexeme → List Lexeme → Prop} {item : Parse (Option α)}
    (one : ∀ input, Leaves input (fun a? middle =>
      if a?.isSome then ∀ rest, K middle rest → K input rest else K input middle) item) :
    Leaves input (fun _ => K input) (many item) := by
  refine iterate_leaves_back (K := fun _ input _ => K input) ?_ _
  intro items input
  apply (one input).bind
  rintro (_ | a) middle holds
  · exact .pure (.done holds)
  · exact .pure (.again fun _ => holds)

theorem series_leaves {K : List Lexeme → List α → List Lexeme → Prop} {item : Parse (α × Bool)}
    (one : ∀ input, Leaves input (fun a middle =>
      if a.2 then ∀ items rest, K middle items rest → K input (a.1 :: items) rest
      else K input [a.1] middle) item) : Leaves input (K input) (series item) := by
  have all : Leaves input (fun items rest => ∃ later, items = #[].toList ++ later ∧
      K input later rest) (series item) := by
    refine iterate_leaves_back (K := fun (before : Array α) input items rest =>
      ∃ later, items = before.toList ++ later ∧ K input later rest) ?_ _
    intro before input
    apply (one input).bind
    rintro ⟨a, _ | _⟩ middle holds
    · exact .pure (.done ⟨[a], by simp, holds⟩)
    · refine .pure (.again ?_)
      rintro _ rest ⟨later, rfl, others⟩
      exact ⟨a :: later, by simp, holds later rest others⟩
  apply all.mono
  rintro _ rest ⟨later, rfl, holds⟩
  exact holds

theorem commaSeparated_leaves {K : List Lexeme → List α → List Lexeme → Prop}
    {I : List Lexeme → α → List Lexeme → Prop} {item : Parse α}
    (one : ∀ input, Leaves input (I input) item)
    (last : ∀ input a rest, I input a rest → K input [a] rest)
    (more : ∀ input a middle items rest, I input a (ofSymbol .comma :: middle) →
      K middle items rest → K input (a :: items) rest) :
    Leaves input (K input) (commaSeparated item) := by
  apply series_leaves
  intro input
  apply (one input).bind
  intro a middle found
  apply (eatSymbol_leaves .comma).bind
  rintro _ tail (⟨rfl⟩ | _)
  · exact .pure fun items rest => more input a tail items rest found
  · exact .pure (last input a middle found)

/-- What a link of a chain leaves: a longer chain, or what it leaves where none follows. -/
inductive Link (longer : α → List Lexeme → Prop) (done : List Lexeme → Prop) :
    Option α → List Lexeme → Prop where
  | more {a : α} {rest : List Lexeme} (found : longer a rest) : Link longer done (some a) rest
  | last {rest : List Lexeme} (ends : done rest) : Link longer done none rest

theorem chain_leaves {I ok : α → List Lexeme → Prop} {step : α → Parse (Option α)}
    (one : ∀ a input, I a input → Leaves input (Link I (ok a)) (step a))
    {a : α} (start : I a input) : Leaves input ok (chain step a) := by
  refine iterate_leaves (I := I) ?_ start
  intro a input holds
  apply (one a input holds).bind
  rintro _ rest (found | ends)
  · exact .pure (.again found)
  · exact .pure (.done ends)

end Lists

end Parse

end LuaSearch
