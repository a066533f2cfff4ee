import LuaSearch.Match.Compare
import LuaSearch.Match.Outcome

/-!
Looking for a template in a block. The statements of the block are tried in order; a statement
that is part of no match is searched inside, first the function literals of its expressions, then
its bodies. The first match found ends the search. Every block entered, the first included, takes
one of the levels that the limit allows.
-/
namespace LuaSearch

def Field.exprs : Field → List Expr
  | positional value => [value]
  | keyed key value => [key, value]

/-- The direct parts of an expression in source order. A function literal has none: what is in
    its body is not part of the expression. -/
def Expr.children : Expr → List Expr
  | unary _ _ operand => [operand]
  | binary _ _ left right => [left, right]
  | index _ object key => [object, key]
  | table _ fields => fields.flatMap Field.exprs
  | call _ callee args _ => callee :: args
  | methodCall _ receiver _ args _ => receiver :: args
  | _ => []

namespace Weight

mutual
def expr : Expr → Nat
  | .constant .. | .string .. | .number .. | .ident .. | .function .. | .wildcard .. => 1
  | .unary _ _ operand => expr operand + 1
  | .binary _ _ left right => expr left + expr right + 1
  | .index _ object key => expr object + expr key + 1
  | .table _ fs => fields fs + 1
  | .call _ callee args _ => expr callee + exprs args + 1
  | .methodCall _ receiver _ args _ => expr receiver + exprs args + 1
termination_by structural e => e

def exprs : List Expr → Nat
  | [] => 0
  | e :: es => expr e + exprs es
termination_by structural es => es

def field : Field → Nat
  | .positional value => expr value
  | .keyed key value => expr key + expr value
termination_by structural f => f

def fields : List Field → Nat
  | [] => 0
  | f :: fs => field f + fields fs
termination_by structural fs => fs
end

theorem exprs_append (as bs : List Expr) : exprs (as ++ bs) = exprs as + exprs bs := by
  induction as with
  | nil => simp [exprs]
  | cons a as ih => simp [exprs, ih, Nat.add_assoc]

theorem exprs_fieldExprs (f : Field) : exprs f.exprs = field f := by
  cases f <;> simp [Field.exprs, exprs, field]

theorem exprs_flatMap (fs : List Field) : exprs (fs.flatMap Field.exprs) = fields fs := by
  induction fs with
  | nil => rfl
  | cons f fs ih => simp [fields, exprs_append, exprs_fieldExprs, ih]

theorem exprs_children (e : Expr) : exprs e.children + 1 = expr e := by
  cases e <;> simp [Expr.children, exprs, expr, exprs_flatMap, Nat.add_assoc]

end Weight

def Stmt.searched : Stmt → List Expr
  | assign _ targets values => targets ++ values
  | localVars _ _ values => values
  | call _ e => [e]
  | whileLoop _ condition _ => [condition]
  | repeatLoop _ _ condition => [condition]
  | returnStmt _ values => values
  | ifStmt _ condition _ _ => [condition]
  | numericFor _ _ start limit step? _ => start :: limit :: step?.toList
  | genericFor _ _ exprs _ => exprs
  | _ => []

def Stmt.declaredBody? : Stmt → Option Block
  | localFunction _ _ _ body => some body
  | function _ _ _ _ body => some body
  | _ => none

namespace Scan

section Within

-- The search of one block, one level further in, whatever it does beside giving a verdict.
variable {m : Type → Type} [Monad m] (inner : Block → m Verdict)

def matchesIn (body : Block) : m Bool := do return (← inner body).isMatch

/-- Whether a function literal of the pending expressions holds a match. A work list stands for
    the recursion, so long chains of operators take no depth. -/
def traverseWith : Nat → List Expr → m Bool
  | _, [] => return false
  | 0, _ => return false
  | fuel + 1, .function _ _ body :: pending => do
      if ← matchesIn inner body then return true else traverseWith fuel pending
  | fuel + 1, e :: pending => traverseWith fuel (e.children ++ pending)

/-- Every expression is pending once, so their number is fuel enough. -/
def traverse (es : List Expr) : m Bool := traverseWith inner (Weight.exprs es) es

@[simp] theorem traverse_nil : traverse inner [] = pure false := rfl

theorem traverse_function (span : Span) (params : Params) (body : Block) (pending : List Expr) :
    traverse inner (.function span params body :: pending) =
      (do if ← matchesIn inner body then return true else traverse inner pending) := by
  simp only [traverse, Weight.exprs, Weight.expr, Nat.add_comm 1, traverseWith]

theorem traverse_cons (e : Expr) (pending : List Expr)
    (other : ∀ span params body, e ≠ .function span params body) :
    traverse inner (e :: pending) = traverse inner (e.children ++ pending) := by
  have weight := Weight.exprs_children e
  have parts := Weight.exprs_append e.children pending
  have total : Weight.exprs (e :: pending) = Weight.exprs (e.children ++ pending) + 1 := by
    simp only [Weight.exprs]
    omega
  rw [traverse, traverse, total]
  cases e with
  | function span params body => exact absurd rfl (other span params body)
  | _ => rfl

def inFunctions (s : Stmt) : m Bool :=
  match s.declaredBody? with
  | some body => matchesIn inner body
  | none => traverse inner s.searched

def inBodies : List Block → m (Option Scope)
  | [] => return none
  | body :: rest => do
      match ← inner body with
      | .noMatch => inBodies rest
      | .nested .function => return some .function
      | _ => return some .block

def within (s : Stmt) : m (Option Scope) := do
  if ← inFunctions inner s then return some .function
  else inBodies inner s.bodies

end Within

/-- A partial match: where it starts, what it recorded, and what the template still asks for. -/
structure Run where
  start : Nat
  captures : Captures
  pending : List Stmt

def Run.meet (policy : CapturePolicy) (run : Run) (s : Stmt) : Outcome (Option Run) :=
  match run.pending with
  | [] => return none
  | next :: later => do
      let c := Compare.stmt s next
      let captures := run.captures ++ c.captures
      if c.holds then return some ⟨run.start, captures, later⟩
      else
        Outcome.tell (policy.keep captures)
        return none

section Blocks

variable (inner : Block → Outcome Verdict) (policy : CapturePolicy) (template : List Stmt)

/-- The run in progress, or else a new one, after the statement at the index. A statement that
    breaks the run in progress is tried as the first of a new one. -/
def advance (run? : Option Run) (index : Nat) (s : Stmt) : Outcome (Option Run) := do
  let fresh : Run := ⟨index, ∅, template⟩
  match run? with
  | none => fresh.meet policy s
  | some run =>
      match ← run.meet policy s with
      | some longer => return some longer
      | none => fresh.meet policy s

def greedyFrom : List Stmt → Nat → Option Run → Outcome Verdict
  | [], _, run? => do
      Outcome.tell (policy.keep ((run?.map Run.captures).getD ∅))
      return .noMatch
  | s :: rest, index, run? => do
      match ← advance policy template run? index s with
      | some run =>
          if run.pending.isEmpty then
            Outcome.tell run.captures
            return .found run.start (index + 1)
          else greedyFrom rest (index + 1) (some run)
      | none =>
          match ← within inner s with
          | some scope => return .nested scope
          | none => greedyFrom rest (index + 1) none

def greedy (chunk : Block) : Outcome Verdict :=
  if template.isEmpty then return .noMatch else greedyFrom inner policy template chunk 0 none

/-- The template against the statements at the front. Where fewer are left than the template has,
    none is compared. -/
def window (stmts : List Stmt) : Comparison :=
  if template.length ≤ stmts.length then Compare.stmtPairs stmts template else .no

def exhaustiveFrom : List Stmt → Nat → Outcome Verdict
  | [], _ => return .noMatch
  | s :: rest, index => do
      let c := window template (s :: rest)
      if c.holds then
        Outcome.tell c.captures
        return .found index (index + template.length)
      else
        Outcome.tell (policy.keep c.captures)
        match ← within inner s with
        | some scope => return .nested scope
        | none => exhaustiveFrom rest (index + 1)

def exhaustive (chunk : Block) : Outcome Verdict := exhaustiveFrom inner policy template chunk 0

end Blocks

def levels (template : List Stmt) (options : Options) : Nat → Block → Outcome Verdict
  | 0, _ => Outcome.fail (.depthExceeded options.maxDepth)
  | left + 1, chunk =>
      match options.scan with
      | .greedy => greedy (levels template options left) options.captures template chunk
      | .exhaustive => exhaustive (levels template options left) options.captures template chunk

end Scan

def scan (template : List Stmt) (options : Options) (chunk : Block) : Outcome Verdict :=
  Scan.levels template options options.maxDepth chunk

end LuaSearch
