import LuaSearch.Match.Captures
import LuaSearch.Match.Error

/-!
Settings of a search, its verdict, and the outcome of a step of it: an answer or an error, and in
either case what the step leaves recorded. Outcomes in sequence leave their captures in sequence;
an error ends the sequence.
-/
namespace LuaSearch

def defaultMaxDepth : Nat := 256

inductive ScanMode where
  /-- One pass. A statement that breaks a partial match can only start a new one, so an
      occurrence that overlaps a broken match may be missed. -/
  | greedy
  | exhaustive
  deriving DecidableEq, Repr

/-- What becomes of captures recorded on the way to a failure. -/
inductive CapturePolicy where
  | retain
  | discard
  deriving DecidableEq, Repr

def CapturePolicy.keep : CapturePolicy → Captures → Captures
  | retain, captures => captures
  | discard, _ => ∅

structure Options where
  scan : ScanMode
  captures : CapturePolicy
  maxDepth : Nat
  deriving DecidableEq, Repr

instance : Inhabited Options := ⟨⟨.greedy, .retain, defaultMaxDepth⟩⟩

/-- Where below a statement a match lies: in blocks alone, or inside some function. -/
inductive Scope where
  | block
  | function
  deriving DecidableEq, Repr

inductive Verdict where
  | noMatch
  | found (start stop : Nat)
  | nested (scope : Scope)
  deriving DecidableEq, Repr

def Verdict.isMatch : Verdict → Bool
  | noMatch => false
  | _ => true

theorem Verdict.isMatch_iff (verdict : Verdict) : verdict.isMatch = true ↔ verdict ≠ .noMatch := by
  cases verdict <;> simp [isMatch]

structure Outcome (α : Type) where
  answer : Except MatchError α
  captures : Captures

namespace Outcome

def fail {α : Type} (e : MatchError) : Outcome α := ⟨.error e, ∅⟩

def tell (captures : Captures) : Outcome Unit := ⟨.ok (), captures⟩

def andThen {α β : Type} (first : Outcome α) (next : α → Outcome β) : Outcome β :=
  match first.answer with
  | .error e => ⟨.error e, first.captures⟩
  | .ok a =>
      let second := next a
      ⟨second.answer, first.captures ++ second.captures⟩

instance : Monad Outcome where
  pure a := ⟨.ok a, ∅⟩
  bind := andThen

theorem ext {α : Type} {a b : Outcome α} (answer : a.answer = b.answer)
    (captures : a.captures = b.captures) : a = b := by
  cases a; cases b
  simp_all

@[simp] theorem pure_eq {α : Type} (a : α) : (pure a : Outcome α) = ⟨.ok a, ∅⟩ := rfl

@[simp] theorem bind_eq {α β : Type} (first : Outcome α) (next : α → Outcome β) :
    first >>= next = first.andThen next := rfl

@[simp] theorem andThen_ok {α β : Type} (a : α) (captures : Captures) (next : α → Outcome β) :
    andThen ⟨.ok a, captures⟩ next = ⟨(next a).answer, captures ++ (next a).captures⟩ := rfl

@[simp] theorem andThen_error {α β : Type} (e : MatchError) (captures : Captures)
    (next : α → Outcome β) : andThen ⟨.error e, captures⟩ next = ⟨.error e, captures⟩ := rfl

@[simp] theorem captures_tell (captures : Captures) : (tell captures).captures = captures := rfl

@[simp] theorem tell_andThen {β : Type} (captures : Captures) (next : Unit → Outcome β) :
    (tell captures).andThen next = ⟨(next ()).answer, captures ++ (next ()).captures⟩ := rfl

theorem andThen_assoc {α β γ : Type} (first : Outcome α) (next : α → Outcome β)
    (last : β → Outcome γ) :
    (first.andThen next).andThen last = first.andThen fun a => (next a).andThen last := by
  rcases first with ⟨_ | a, before⟩
  · rfl
  · rcases given : next a with ⟨_ | b, between⟩ <;>
      simp [given, Captures.append_assoc]

instance : LawfulMonad Outcome :=
  LawfulMonad.mk' Outcome
    (by rintro α ⟨_ | _, _⟩ <;> simp [Functor.map])
    (by intros; simp)
    (by intros; exact andThen_assoc ..)

def ofComparison (c : Comparison) : Outcome Bool := ⟨.ok c.holds, c.captures⟩

end Outcome

end LuaSearch
