import LuaSearch.Machine
import LuaSearch.Parse.Fault

/-!
Reading tokens one after another. A reader keeps its cursor when it fails, so a later reader goes
on where the failure happened. Repetition is bounded by the tokens that are left: a round that
takes no token would be repeated for ever, and is reported instead.
-/
namespace LuaSearch

structure Cursor where
  previous? : Option Span
  rest : List Token
  left : Nat
  /-- What is seen past the last token. -/
  final : Token
  /-- How many levels of nesting are entered. -/
  depth : Nat
  counted : left = rest.length

namespace Cursor

/-- A cursor before the first token. Past the end the last token is seen again; where there is
    none, the end of the source. -/
def start (sourceLength : Nat) (tokens : List Token) : Cursor :=
  ⟨none, tokens, tokens.length, tokens.getLast?.getD (Token.endMarker sourceLength), 0, rfl⟩

def current (c : Cursor) : Token := c.rest.head?.getD c.final

def second (c : Cursor) : Kind := (c.rest[1]?.map Token.kind).getD .eof

def advance (c : Cursor) : Cursor :=
  match c with
  | ⟨previous?, [], left, final, depth, counted⟩ => ⟨previous?, [], left, final, depth, counted⟩
  | ⟨_, token :: rest, left, final, depth, counted⟩ =>
      ⟨some token.span, rest, left - 1, final, depth, by simp [counted]⟩

@[simp] theorem rest_advance (c : Cursor) : c.advance.rest = c.rest.tail := by
  rcases c with ⟨_, _ | _, _, _, _, _⟩ <;> rfl

@[simp] theorem final_advance (c : Cursor) : c.advance.final = c.final := by
  rcases c with ⟨_, _ | _, _, _, _, _⟩ <;> rfl

@[simp] theorem depth_advance (c : Cursor) : c.advance.depth = c.depth := by
  rcases c with ⟨_, _ | _, _, _, _, _⟩ <;> rfl

def atDepth (c : Cursor) (depth : Nat) : Cursor := { c with depth }

theorem atDepth_of_depth {c : Cursor} {depth : Nat} (here : c.depth = depth) :
    c.atDepth depth = c := by
  subst here
  rfl

@[simp] theorem depth_atDepth (c : Cursor) (depth : Nat) : (c.atDepth depth).depth = depth := rfl

@[simp] theorem current_atDepth (c : Cursor) (depth : Nat) :
    (c.atDepth depth).current = c.current := rfl

@[simp] theorem atDepth_atDepth (c : Cursor) (depth other : Nat) :
    (c.atDepth depth).atDepth other = c.atDepth other := rfl

@[simp] theorem advance_atDepth (c : Cursor) (depth : Nat) :
    (c.atDepth depth).advance = c.advance.atDepth depth := by
  rcases c with ⟨_, _ | _, _, _, _, _⟩ <;> rfl

def enter (c : Cursor) : Cursor := c.atDepth (c.depth + 1)

def leave (c : Cursor) : Cursor := c.atDepth (c.depth - 1)

end Cursor

abbrev Parse := Machine SyntaxError Cursor

inductive Round (σ β : Type) where
  | again (state : σ)
  | done (value : β)

namespace Parse

def fail {α : Type} (fault : Fault) (span : Span) : Parse α := throw ⟨fault, span⟩

def current : Parse Token := return (← get).current

def currentSpan : Parse Span := return (← current).span

def peek : Parse Kind := return (← current).kind

def peekSecond : Parse Kind := return (← get).second

def advance : Parse Token := do
  let token ← current
  modify Cursor.advance
  return token

def isAt (kind : Kind) : Parse Bool := return (← peek) = kind

def eat (kind : Kind) : Parse Bool := do
  if ← isAt kind then
    let _ ← advance
    return true
  else return false

def expect (kind : Kind) : Parse Token := do
  if ← isAt kind then advance
  else fail (.unexpected (.token kind) (← peek)) (← currentSpan)

def keyword (word : Keyword) : Parse Unit := do
  let _ ← expect (.keyword word)

def symbol (sign : Symbol) : Parse Unit := do
  let _ ← expect (.symbol sign)

def eatSymbol (sign : Symbol) : Parse Bool := eat (.symbol sign)

def finish (start : Span) : Parse Span := do
  match (← get).previous? with
  | some last => return start.merge last
  | none => return start

/-- Reads one level further in, where the limit allows it. The level is left however that ends. -/
def nested {α : Type} (reader : Parse α) : Parse α := do
  if maxNesting ≤ (← get).depth then fail .tooDeep (← currentSpan)
  else
    modify Cursor.enter
    try reader finally modify Cursor.leave

theorem runOn_nested {α : Type} (reader : Parse α) (c : Cursor) :
    (nested reader).runOn c =
      if maxNesting ≤ c.depth then (.error ⟨.tooDeep, c.current.span⟩, c)
      else ((reader.runOn c.enter).1, (reader.runOn c.enter).2.leave) := by
  rw [nested, Machine.runOn_bind_ok _ (Machine.runOn_get c)]
  split
  · rfl
  · rw [Machine.runOn_bind_ok _ (Machine.runOn_modify Cursor.enter c), Machine.runOn_finally]

def spanned {α : Type} (node : Parse (Span → α)) : Parse α := do
  let start ← currentSpan
  let build ← node
  return build (← finish start)

def rounds {σ β : Type} (round : σ → Parse (Round σ β)) : Nat → σ → Parse β
  | 0, _ => do fail .stalled (← currentSpan)
  | fuel + 1, state => do
      match ← round state with
      | .again next => rounds round fuel next
      | .done value => return value

/-- Repeats the round until it is done. With every round but the last taking a token, one round
    more than there are tokens left is enough. -/
def iterate {σ β : Type} (round : σ → Parse (Round σ β)) (state : σ) : Parse β := do
  rounds round ((← get).left + 1) state

def many {α : Type} (item : Parse (Option α)) : Parse (List α) :=
  iterate (fun (items : Array α) => do
    match ← item with
    | some a => return .again (items.push a)
    | none => return .done items.toList) #[]

def series {α : Type} (item : Parse (α × Bool)) : Parse (List α) :=
  iterate (fun (items : Array α) => do
    let (a, more) ← item
    if more then return .again (items.push a)
    else return .done (items.push a).toList) #[]

def commaSeparated {α : Type} (item : Parse α) : Parse (List α) :=
  series do
    let a ← item
    return (a, ← eatSymbol .comma)

def chain {α : Type} (step : α → Parse (Option α)) : α → Parse α :=
  iterate fun a => do
    match ← step a with
    | some next => return .again next
    | none => return .done a

end Parse

end LuaSearch
