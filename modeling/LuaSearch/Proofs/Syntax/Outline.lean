import Mathlib.Data.List.Perm.Basic
import LuaSearch.Proofs.Syntax.Parts
import LuaSearch.Syntax.Outline

/-!
Outlines tell the tree. There is one row for each node, and the depth of the row is the number of
nodes that the node lies below: the length of its address, but for the index of the statement that
the address begins with. The rows are in source order except for the condition behind a body.
-/
namespace LuaSearch

namespace Outline

def row (depth : Nat) : Node → Row
  | .expr e => exprRow depth e
  | .stmt s => stmtRow depth s
  | .binder b => ofBinder depth b

def ofNode (depth : Nat) : Node → List Row
  | .expr e => ofExpr e depth
  | .stmt s => ofStmt s depth
  | .binder b => [ofBinder depth b]

variable (depth : Nat)

theorem flatMap_ofNode_exprs (es : List Expr) :
    (es.map Node.expr).flatMap (ofNode depth) = ofExprs es depth := by
  induction es with
  | nil => rfl
  | cons e es ih => rw [List.map_cons, List.flatMap_cons, ih, ofExprs, ofNode]

theorem flatMap_ofNode_stmts (ss : List Stmt) :
    (ss.map Node.stmt).flatMap (ofNode depth) = ofStmts ss depth := by
  induction ss with
  | nil => rfl
  | cons s ss ih => rw [List.map_cons, List.flatMap_cons, ih, ofStmts, ofNode]

theorem flatMap_ofNode_binders (bs : List Binder) :
    (bs.map Node.binder).flatMap (ofNode depth) = ofBinders depth bs := by
  rw [ofBinders, List.flatMap_map, List.map_eq_flatMap]
  rfl

theorem ofExprs_fieldExprs (fs : List Field) :
    ofExprs (fs.flatMap Field.exprs) depth = ofFields fs depth := by
  induction fs with
  | nil => rfl
  | cons f fs ih => cases f <;> simp [Field.exprs, ofExprs, ofFields, ofField, ih]

theorem ofExprs_step (step? : Option Expr) : ofExprs step?.toList depth = ofStep step? depth := by
  cases step? <;> simp [ofExprs, ofStep]

/-- The row of the node, and the rows of its parts one deeper. -/
theorem ofNode_perm (n : Node) :
    (ofNode depth n).Perm (row depth n :: n.parts.flatMap (ofNode (depth + 1))) := by
  cases n with
  | binder b => exact .refl _
  | expr e =>
    cases e <;>
      simp [ofNode, row, Node.parts, Expr.parts, ofExpr, flatMap_ofNode_exprs,
        flatMap_ofNode_stmts, flatMap_ofNode_binders, ofExprs_fieldExprs]
  | stmt s =>
    cases s with
    | repeatLoop span body condition =>
      simp only [ofNode, row, Node.parts, Stmt.parts, ofStmt, List.flatMap_append,
        flatMap_ofNode_stmts, List.flatMap_singleton]
      exact List.perm_append_comm.cons _
    | _ =>
      simp [ofNode, row, Node.parts, Stmt.parts, ofStmt, flatMap_ofNode_exprs,
        flatMap_ofNode_stmts, flatMap_ofNode_binders, ofExprs_step]

theorem mem_ofNode_iff {n : Node} {r : Row} :
    r ∈ ofNode depth n ↔ ∃ path m, n.at? path = some m ∧ r = row (depth + path.length) m := by
  induction n using Node.induction generalizing depth with
  | step n ih =>
    rw [(ofNode_perm depth n).mem_iff, List.mem_cons, List.mem_flatMap]
    constructor
    · rintro (rfl | ⟨part, among, inside⟩)
      · exact ⟨[], n, rfl, rfl⟩
      · obtain ⟨path, m, reached, rfl⟩ := (ih part among (depth + 1)).mp inside
        obtain ⟨i, there⟩ := List.mem_iff_getElem?.mp among
        refine ⟨i :: path, m, by simp [Node.at?, there, reached], ?_⟩
        rw [List.length_cons, Nat.add_assoc, Nat.add_comm 1]
    · rintro ⟨_ | ⟨i, path⟩, m, reached, rfl⟩
      · obtain rfl := Option.some.inj reached
        exact .inl rfl
      · obtain ⟨part, there, deeper⟩ := Option.bind_eq_some_iff.mp reached
        refine .inr ⟨part, List.mem_of_getElem? there, ?_⟩
        refine (ih part (List.mem_of_getElem? there) (depth + 1)).mpr ⟨path, m, deeper, ?_⟩
        rw [List.length_cons, Nat.add_assoc, Nat.add_comm 1]

def Row.flat (r : Row) : Row := { r with depth := 0 }

theorem flat_ofNode (n : Node) : ((ofNode depth n).map Row.flat).Perm (n.nodes.map (row 0)) := by
  induction n using Node.induction generalizing depth with
  | step n ih =>
    have head : (row depth n).flat = row 0 n := by cases n <;> rfl
    have rows := (ofNode_perm depth n).map Row.flat
    rw [List.map_cons, head, List.map_flatMap] at rows
    rw [Node.nodes_eq, List.map_cons, List.map_flatMap]
    exact rows.trans ((List.Perm.flatMap_left n.parts fun part among =>
      ih part among (depth + 1)).cons _)

end Outline

open Outline

/-- The rows are those of the nodes at the addresses in the block, each at the depth of its
    address. -/
theorem Block.mem_outline_iff {b : Block} {r : Row} :
    r ∈ b.outline ↔ ∃ i path m, b.at? (i :: path) = some m ∧ r = row path.length m := by
  rw [Block.outline, ← flatMap_ofNode_stmts, List.flatMap_map, List.mem_flatMap]
  constructor
  · rintro ⟨s, among, inside⟩
    obtain ⟨path, m, reached, rfl⟩ := (mem_ofNode_iff 0).mp inside
    obtain ⟨i, there⟩ := List.mem_iff_getElem?.mp among
    exact ⟨i, path, m, by simp [Block.at?, there, reached], by rw [Nat.zero_add]⟩
  · rintro ⟨i, path, m, reached, rfl⟩
    obtain ⟨s, there, deeper⟩ := Option.bind_eq_some_iff.mp reached
    refine ⟨s, List.mem_of_getElem? there, (mem_ofNode_iff 0).mpr ⟨path, m, deeper, ?_⟩⟩
    rw [Nat.zero_add]

/-- But for the depths the rows are those of the nodes, each as often as the node. -/
theorem Block.outline_perm (b : Block) :
    (b.outline.map Row.flat).Perm ((Nodes.stmts b).map (row 0)) := by
  rw [Block.outline, ← flatMap_ofNode_stmts, ← Node.flatMap_nodes_stmts, List.map_flatMap,
    List.map_flatMap]
  exact List.Perm.flatMap_left _ fun node _ => flat_ofNode 0 node

end LuaSearch
