import LuaSearch.Machine
import LuaSearch.Match.Scan

/-!
The search as a walk that changes one session. What a wildcard takes is recorded at once; where a
comparison fails or a run is given up, the record is cut back to a mark taken before, if the
policy asks for it. The session also counts the blocks that the walk is in, and a block past the
limit is not entered.
-/
namespace LuaSearch

structure Mark where
  exprs : Nat
  stmts : Nat
  deriving DecidableEq, Repr

namespace Captures

def mark (c : Captures) : Mark := ⟨c.exprs.length, c.stmts.length⟩

def upTo (c : Captures) (m : Mark) : Captures := ⟨c.exprs.take m.exprs, c.stmts.take m.stmts⟩

theorem append_upTo_mark (a b : Captures) : (a ++ b).upTo a.mark = a :=
  ext (by simp [upTo, mark]) (by simp [upTo, mark])

end Captures

/-- A template, the settings of the search for it, and what the search has come to. -/
structure Session where
  template : List Stmt
  options : Options
  captures : Captures
  /-- The blocks that were entered and not yet left. -/
  depth : Nat

namespace Session

def new (template : List Stmt) (options : Options) : Session := ⟨template, options, ∅, 0⟩

def mark (session : Session) : Mark := session.captures.mark

def record (captures : Captures) (session : Session) : Session :=
  { session with captures := session.captures ++ captures }

def discardSince (mark : Mark) (session : Session) : Session :=
  match session.options.captures with
  | .retain => session
  | .discard => { session with captures := session.captures.upTo mark }

@[simp] theorem options_record (captures : Captures) (session : Session) :
    (session.record captures).options = session.options := rfl

@[simp] theorem record_empty (session : Session) : session.record ∅ = session := by
  simp [record]

@[simp] theorem record_record (a b : Captures) (session : Session) :
    (session.record a).record b = session.record (a ++ b) := by
  simp [record, Captures.append_assoc]

/-- Going back to a mark leaves what the policy keeps of all that was recorded since. -/
theorem discardSince_record {mark : Mark} {session : Session} (captures : Captures)
    (marked : session.options.captures = .discard → mark = session.mark) :
    (session.record captures).discardSince mark =
      session.record (session.options.captures.keep captures) := by
  unfold discardSince
  cases policy : session.options.captures with
  | retain => simp [record, policy, CapturePolicy.keep]
  | discard =>
    have back := Captures.append_upTo_mark session.captures captures
    simp [record, policy, CapturePolicy.keep, marked policy, Session.mark, back]

def enter (session : Session) : Session := { session with depth := session.depth + 1 }

def leave (session : Session) : Session := { session with depth := session.depth - 1 }

end Session

abbrev Walk := Machine MatchError Session

namespace Walk

def mark : Walk Mark := return (← get).mark

@[simp] theorem runOn_mark (session : Session) :
    mark.runOn session = (.ok session.mark, session) := rfl

def discardSince (mark : Mark) : Walk Unit := modify (Session.discardSince mark)

def compare (c : Comparison) : Walk Bool := do
  modify (Session.record c.captures)
  return c.holds

/-- Goes one block further in for the step, and comes back however the step ends. -/
def descend {α : Type} (step : Walk α) : Walk α :=
  ExceptT.mk fun session =>
    if session.options.maxDepth ≤ session.depth then
      (.error (.depthExceeded session.options.maxDepth), session)
    else
      let (answer, after) := step.runOn session.enter
      (answer, after.leave)

theorem runOn_descend {α : Type} {step : Walk α} {session after : Session}
    {answer : Except MatchError α} (room : session.depth < session.options.maxDepth)
    (ran : step.runOn session.enter = (answer, after)) :
    (descend step).runOn session = (answer, after.leave) := by
  simp only [descend, Machine.runOn, StateT.run, ExceptT.run, ExceptT.mk] at ran ⊢
  simp [Nat.not_le.mpr room, ran]

structure Alignment where
  met : Nat
  start : Nat
  mark : Mark

section Blocks

variable (inner : Block → Walk Verdict) (template : List Stmt)

def meets (position : Nat) (s : Stmt) : Walk Bool :=
  match template[position]? with
  | some t => compare (Compare.stmt s t)
  | none => return false

def extend (run : Alignment) (s : Stmt) : Walk (Option Alignment) := do
  if ← meets template run.met s then return some { run with met := run.met + 1 }
  else
    discardSince run.mark
    return none

/-- The run in progress, or else a new one, after the statement at the index. A statement that
    ends the run in progress is tried as the first of a new one. -/
def align (run? : Option Alignment) (index : Nat) (s : Stmt) : Walk (Option Alignment) := do
  match run? with
  | none => extend template ⟨0, index, ← mark⟩ s
  | some run =>
      match ← extend template run s with
      | some longer => return some longer
      | none => extend template ⟨0, index, ← mark⟩ s

def greedyFrom (entry : Mark) : List Stmt → Nat → Option Alignment → Walk Verdict
  | [], _, _ => do
      discardSince entry
      return .noMatch
  | s :: rest, index, run? => do
      match ← align template run? index s with
      | some run =>
          if run.met = template.length then return .found run.start (index + 1)
          else greedyFrom entry rest (index + 1) (some run)
      | none =>
          match ← Scan.within inner s with
          | some scope => return .nested scope
          | none => greedyFrom entry rest (index + 1) none

def greedy (chunk : Block) : Walk Verdict := do
  if template.isEmpty then return .noMatch
  greedyFrom inner template (← mark) chunk 0 none

def comparePairs : List Stmt → List Stmt → Walk Bool
  | s :: ss, t :: ts => do
      if ← compare (Compare.stmt s t) then comparePairs ss ts else return false
  | _, _ => return true

def window (stmts : List Stmt) : Walk Bool :=
  if template.length ≤ stmts.length then comparePairs stmts template else return false

def exhaustiveFrom (entry : Mark) : List Stmt → Nat → Walk Verdict
  | [], _ => do
      discardSince entry
      return .noMatch
  | s :: rest, index => do
      let before ← mark
      if ← window template (s :: rest) then return .found index (index + template.length)
      else
        discardSince before
        match ← Scan.within inner s with
        | some scope => return .nested scope
        | none => exhaustiveFrom entry rest (index + 1)

def exhaustive (chunk : Block) : Walk Verdict := do
  exhaustiveFrom inner template (← mark) chunk 0

end Blocks

def scanBlock (inner : Block → Walk Verdict) (chunk : Block) : Walk Verdict := do
  let session ← get
  match session.options.scan with
  | .greedy => greedy inner session.template chunk
  | .exhaustive => exhaustive inner session.template chunk

def scanWithin : Nat → Block → Walk Verdict
  | 0, _ => do throw (.depthExceeded (← get).options.maxDepth)
  | left + 1, chunk => descend (scanBlock (scanWithin left) chunk)

/-- The walk over a block. The counter says how many levels are left. -/
def scan (chunk : Block) : Walk Verdict := do
  let session ← get
  scanWithin (session.options.maxDepth - session.depth) chunk

def traverse (es : List Expr) : Walk Bool := Scan.traverse scan es

end Walk

end LuaSearch
