import LuaSearch.Syntax.Basic

/-!
What wildcards stood for, in the order of discovery, and the answer of a comparison: whether it
holds, together with what was recorded on the way. A comparison that fails keeps what it had
recorded before.
-/
namespace LuaSearch

structure Captures where
  exprs : List Expr
  stmts : List Stmt

namespace Captures

instance : EmptyCollection Captures := ⟨⟨[], []⟩⟩

instance : Append Captures := ⟨fun a b => ⟨a.exprs ++ b.exprs, a.stmts ++ b.stmts⟩⟩

def ofExpr (e : Expr) : Captures := ⟨[e], []⟩

def ofStmt (s : Stmt) : Captures := ⟨[], [s]⟩

@[simp] theorem exprs_empty : (∅ : Captures).exprs = [] := rfl

@[simp] theorem stmts_empty : (∅ : Captures).stmts = [] := rfl

@[simp] theorem exprs_append (a b : Captures) : (a ++ b).exprs = a.exprs ++ b.exprs := rfl

@[simp] theorem stmts_append (a b : Captures) : (a ++ b).stmts = a.stmts ++ b.stmts := rfl

theorem ext {a b : Captures} (exprs : a.exprs = b.exprs) (stmts : a.stmts = b.stmts) :
    a = b := by
  cases a; cases b
  simp_all

@[simp] theorem empty_append (a : Captures) : ∅ ++ a = a := ext (by simp) (by simp)

@[simp] theorem append_empty (a : Captures) : a ++ ∅ = a := ext (by simp) (by simp)

theorem append_assoc (a b c : Captures) : a ++ b ++ c = a ++ (b ++ c) :=
  ext (by simp) (by simp)

end Captures

structure Comparison where
  holds : Bool
  captures : Captures

namespace Comparison

def no : Comparison := ⟨false, ∅⟩

def yes : Comparison := ⟨true, ∅⟩

def test (holds : Bool) : Comparison := ⟨holds, ∅⟩

def recorded (captures : Captures) : Comparison := ⟨true, captures⟩

/-- Both hold. The second is tried only if the first holds. -/
@[macro_inline] def and (first second : Comparison) : Comparison :=
  match first with
  | ⟨false, kept⟩ => ⟨false, kept⟩
  | ⟨true, kept⟩ =>
      match second with
      | ⟨holds, more⟩ => ⟨holds, kept ++ more⟩

theorem holds_and (a b : Comparison) : (a.and b).holds = (a.holds && b.holds) := by
  rcases a with ⟨_ | _, _⟩ <;> simp [and]

theorem captures_and (a b : Comparison) :
    (a.and b).captures = if a.holds then a.captures ++ b.captures else a.captures := by
  rcases a with ⟨_ | _, _⟩ <;> simp [and]

end Comparison

end LuaSearch
