import LuaSearch.Match.Session
import LuaSearch.Proofs.Match.Nesting

/-!
The work list against the plain recursion. The recursion goes through an expression part by part,
in the order in which the parts are written; where it comes to a function literal it searches the
body, and that is all it sees of it; a hit or an error ends it. Both are walks along the same list
of bodies: the work list by an argument on what is still pending, the recursion by the shape of the
expression. So they are the same steps in the same order, whatever a step does to a session.
-/
namespace LuaSearch

namespace Scan

section Visit

variable {m : Type → Type} [Monad m] (inner : Block → m Verdict)

namespace Visit

mutual
def expr : Expr → m Bool
  | .constant .. | .string .. | .number .. | .ident .. | .wildcard .. => return false
  | .unary _ _ operand => expr operand
  | .binary _ _ left right => orElse (expr left) (expr right)
  | .index _ object key => orElse (expr object) (expr key)
  | .table _ fs => fields fs
  | .call _ callee args _ => orElse (expr callee) (exprs args)
  | .methodCall _ receiver _ args _ => orElse (expr receiver) (exprs args)
  | .function _ _ body => do return (← inner body).isMatch
termination_by structural e => e

def exprs : List Expr → m Bool
  | [] => return false
  | e :: es => orElse (expr e) (exprs es)
termination_by structural es => es

def field : Field → m Bool
  | .positional value => expr value
  | .keyed key value => orElse (expr key) (expr value)
termination_by structural f => f

def fields : List Field → m Bool
  | [] => return false
  | f :: fs => orElse (field f) (fields fs)
termination_by structural fs => fs
end

end Visit

variable [LawfulMonad m]

namespace Visit

mutual
theorem expr_eq_inAny : ∀ e : Expr, expr inner e = inAny inner (Literals.expr e)
  | .constant .. | .string .. | .number .. | .ident .. | .wildcard .. => rfl
  | .unary _ _ operand => expr_eq_inAny operand
  | .binary _ _ left right => by
    rw [expr, Literals.expr, inAny_append, expr_eq_inAny left, expr_eq_inAny right]
  | .index _ object key => by
    rw [expr, Literals.expr, inAny_append, expr_eq_inAny object, expr_eq_inAny key]
  | .table _ fs => fields_eq_inAny fs
  | .call _ callee args _ => by
    rw [expr, Literals.expr, inAny_append, expr_eq_inAny callee, exprs_eq_inAny args]
  | .methodCall _ receiver _ args _ => by
    rw [expr, Literals.expr, inAny_append, expr_eq_inAny receiver, exprs_eq_inAny args]
  | .function _ _ body => (inAny_singleton inner body).symm

theorem exprs_eq_inAny : ∀ es : List Expr, exprs inner es = inAny inner (Literals.exprs es)
  | [] => rfl
  | e :: es => by
    rw [exprs, Literals.exprs, inAny_append, expr_eq_inAny e, exprs_eq_inAny es]

theorem field_eq_inAny : ∀ f : Field, field inner f = inAny inner (Literals.field f)
  | .positional value => expr_eq_inAny value
  | .keyed key value => by
    rw [field, Literals.field, inAny_append, expr_eq_inAny key, expr_eq_inAny value]

theorem fields_eq_inAny :
    ∀ fs : List Field, fields inner fs = inAny inner (Literals.fields fs)
  | [] => rfl
  | f :: fs => by
    rw [fields, Literals.fields, inAny_append, field_eq_inAny f, fields_eq_inAny fs]
end

end Visit

/-- A work list, whatever is on it, is the recursion on each of its expressions in turn. -/
theorem traverse_eq_visit (es : List Expr) : traverse inner es = Visit.exprs inner es := by
  rw [traverse_eq_inAny, Visit.exprs_eq_inAny]

end Visit

end Scan

/-- In every session the work list ends as the recursion does, with the same answer or the same
    error, and it leaves the same session, captures and depth included. -/
theorem traverse_recursive (e : Expr) (session : Session) :
    (Walk.traverse [e]).runOn session = (Scan.Visit.expr Walk.scan e).runOn session := by
  have same : Walk.traverse [e] = Scan.Visit.expr Walk.scan e := by
    rw [Walk.traverse, Scan.traverse_eq_visit, Scan.Visit.exprs]
    exact Scan.orElse_pure_false _
  rw [same]

end LuaSearch
