import LuaSearch.Match.Scan

/-!
The blocks inside a statement. A statement opens blocks directly: the body of a function that it
declares, the bodies of the function literals in its expressions, and its own bodies, in the order
in which they are searched. A block is nested in the statement when a path of such openings leads
to it. The search of a statement, work list included, is a walk along its list of openings.
-/
namespace LuaSearch

namespace Literals

mutual
/-- The bodies of the function literals of an expression in source order. What stands inside such
    a body is not looked at. -/
def expr : Expr → List Block
  | .constant .. | .string .. | .number .. | .ident .. | .wildcard .. => []
  | .unary _ _ operand => expr operand
  | .binary _ _ left right => expr left ++ expr right
  | .index _ object key => expr object ++ expr key
  | .table _ fs => fields fs
  | .call _ callee args _ => expr callee ++ exprs args
  | .methodCall _ receiver _ args _ => expr receiver ++ exprs args
  | .function _ _ body => [body]
termination_by structural e => e

def exprs : List Expr → List Block
  | [] => []
  | e :: es => expr e ++ exprs es
termination_by structural es => es

def field : Field → List Block
  | .positional value => expr value
  | .keyed key value => expr key ++ expr value
termination_by structural f => f

def fields : List Field → List Block
  | [] => []
  | f :: fs => field f ++ fields fs
termination_by structural fs => fs
end

theorem exprs_append (as bs : List Expr) : exprs (as ++ bs) = exprs as ++ exprs bs := by
  induction as with
  | nil => rfl
  | cons a as ih => simp [exprs, ih]

theorem exprs_field_parts (f : Field) : exprs f.exprs = field f := by
  cases f <;> simp [Field.exprs, exprs, field]

theorem exprs_table_parts (fs : List Field) : exprs (fs.flatMap Field.exprs) = fields fs := by
  induction fs with
  | nil => rfl
  | cons f fs ih => simp [fields, exprs_append, exprs_field_parts, ih]

theorem expr_of_children (e : Expr) (other : ∀ span params body, e ≠ .function span params body) :
    expr e = exprs e.children := by
  cases e with
  | function span params body => exact absurd rfl (other span params body)
  | _ => simp [expr, Expr.children, exprs, exprs_table_parts]

end Literals

def Stmt.functionBodies (s : Stmt) : List Block :=
  match s.declaredBody? with
  | some body => [body]
  | none => Literals.exprs s.searched

/-- The blocks that a statement opens directly, in the order of the search. -/
def Stmt.openings (s : Stmt) : List (Scope × Block) :=
  s.functionBodies.map (.function, ·) ++ s.bodies.map (.block, ·)

/-- A block nested in a statement. The path says for each opening on the way whether it is the
    body of a function or of a statement. -/
inductive Nested : Stmt → List Scope → Block → Prop where
  | opened {s : Stmt} {scope : Scope} {body : Block} (opens : (scope, body) ∈ s.openings) :
      Nested s [scope] body
  | deeper {s t : Stmt} {scope : Scope} {body block : Block} {path : List Scope}
      (opens : (scope, body) ∈ s.openings) (member : t ∈ body) (rest : Nested t path block) :
      Nested s (scope :: path) block

theorem nested_path_ne_nil {s : Stmt} {path : List Scope} {block : Block}
    (nested : Nested s path block) : path ≠ [] := by
  cases nested <;> simp

def Scope.ofPath (path : List Scope) : Scope := if .function ∈ path then .function else .block

theorem ofPath_function_iff (path : List Scope) :
    Scope.ofPath path = .function ↔ .function ∈ path := by
  unfold Scope.ofPath
  split <;> simp_all

theorem ofPath_block_iff (path : List Scope) :
    Scope.ofPath path = .block ↔ ∀ crossed ∈ path, crossed = .block := by
  unfold Scope.ofPath
  split
  · rename_i crosses
    simp only [reduceCtorEq, false_iff]
    intro blocks
    have impossible := blocks _ crosses
    contradiction
  · rename_i none
    simp only [true_iff]
    intro crossed member
    cases crossed with
    | block => rfl
    | function => exact absurd member none

/-- The scope that a verdict about the body of an opening has outside of it. -/
def Scope.through (outer : Scope) : Verdict → Scope
  | .nested .function => .function
  | _ => outer

namespace Scan

section Within

variable {m : Type → Type} [Monad m] (inner : Block → m Verdict)

def orElse (first next : m Bool) : m Bool := do
  if ← first then return true else next

def inAny : List Block → m Bool
  | [] => return false
  | body :: rest => do if ← matchesIn inner body then return true else inAny rest

/-- The work list visits the function literals in source order. -/
theorem traverse_eq_inAny (es : List Expr) :
    traverse inner es = inAny inner (Literals.exprs es) := by
  induction weight : Weight.exprs es using Nat.strongRecOn generalizing es with
  | ind n ih =>
    cases es with
    | nil => rfl
    | cons e pending =>
      have heavier := Weight.exprs_children e
      have parts := Weight.exprs_append e.children pending
      simp only [Weight.exprs] at weight
      have later : traverse inner pending = inAny inner (Literals.exprs pending) :=
        ih _ (by omega) pending rfl
      have inside : traverse inner (e.children ++ pending) =
          inAny inner (Literals.exprs (e.children ++ pending)) :=
        ih _ (by omega) _ rfl
      by_cases literal : ∃ span params body, e = .function span params body
      · obtain ⟨span, params, body, rfl⟩ := literal
        rw [traverse_function, later]
        rfl
      · have other : ∀ span params body, e ≠ .function span params body := by
          intro span params body same
          exact literal ⟨span, params, body, same⟩
        rw [traverse_cons inner e pending other, inside, Literals.exprs_append,
          ← Literals.expr_of_children e other]
        rfl

def inOpenings : List (Scope × Block) → m (Option Scope)
  | [] => return none
  | (scope, body) :: rest => do
      match ← inner body with
      | .noMatch => inOpenings rest
      | verdict => return some (scope.through verdict)

theorem inOpenings_bodies (bodies : List Block) :
    inOpenings inner (bodies.map (.block, ·)) = inBodies inner bodies := by
  induction bodies with
  | nil => rfl
  | cons body rest ih =>
    simp only [List.map_cons, inOpenings, inBodies, ih]
    congr 1
    funext verdict
    rcases verdict with _ | _ | _ | _ <;> rfl

variable [LawfulMonad m]

@[simp] theorem pure_false_orElse (next : m Bool) : orElse (pure false) next = next := by
  simp [orElse]

@[simp] theorem orElse_pure_false (first : m Bool) : orElse first (pure false) = first := by
  have both : (fun found : Bool => if found then pure true else pure false : Bool → m Bool) =
      pure := by
    funext found
    cases found <;> rfl
  simp only [orElse, both, bind_pure]

theorem orElse_assoc (first next last : m Bool) :
    orElse (orElse first next) last = orElse first (orElse next last) := by
  simp only [orElse, bind_assoc]
  congr 1
  funext found
  cases found <;> simp

theorem inAny_append (front back : List Block) :
    inAny inner (front ++ back) = orElse (inAny inner front) (inAny inner back) := by
  induction front with
  | nil => simp [inAny]
  | cons body front ih =>
    have step (rest : List Block) :
        inAny inner (body :: rest) = orElse (matchesIn inner body) (inAny inner rest) := rfl
    rw [List.cons_append, step, step, ih, orElse_assoc]

theorem inAny_singleton (body : Block) : inAny inner [body] = matchesIn inner body :=
  orElse_pure_false (matchesIn inner body)

theorem inOpenings_functions (functions : List Block) (rest : List (Scope × Block)) :
    inOpenings inner (functions.map (.function, ·) ++ rest) =
      (do if ← inAny inner functions then return some .function else inOpenings inner rest) := by
  induction functions with
  | nil => simp [inAny]
  | cons body functions ih =>
    simp only [List.map_cons, List.cons_append, inOpenings, inAny, matchesIn, ih, bind_assoc,
      pure_bind]
    congr 1
    funext verdict
    rcases verdict with _ | _ | _ | _ <;> simp [Verdict.isMatch, Scope.through]

theorem inFunctions_eq_inAny (s : Stmt) :
    inFunctions inner s = inAny inner s.functionBodies := by
  unfold inFunctions Stmt.functionBodies
  cases s.declaredBody? with
  | some body => exact (inAny_singleton inner body).symm
  | none => exact traverse_eq_inAny inner s.searched

theorem within_eq_inOpenings (s : Stmt) : within inner s = inOpenings inner s.openings := by
  rw [Stmt.openings, inOpenings_functions, inOpenings_bodies, ← inFunctions_eq_inAny]
  rfl

end Within

end Scan

end LuaSearch
