import LuaSearch.Proofs.Span
import LuaSearch.Proofs.Syntax.Node

/-!
Trees that are placed in a source. Each node has a span of at least one byte between two edges of
the source, which holds the spans of all nodes below it; statements of one block follow one another;
and a name or a number is written in its span.
-/
namespace LuaSearch

/-- Each statement ends before the next one starts. -/
def InOrder (body : Block) : Prop := body.Pairwise fun s t => s.span.stop ≤ t.span.start

namespace Node

def span : Node → Span
  | expr e => e.span
  | stmt s => s.span
  | binder b => b.span

def below : Node → List Node
  | expr e => (Nodes.expr e).tail
  | stmt s => (Nodes.stmt s).tail
  | binder _ => []

def blocks : Node → List Block
  | expr (.function _ _ body) => [body]
  | stmt (.localFunction _ _ _ body) | stmt (.function _ _ _ _ body) => [body]
  | stmt s => s.bodies
  | _ => []

/-- The name or number of the node stands somewhere in its span. -/
def Spells (source : String) : Node → Prop
  | expr (.ident outer text) | expr (.number outer text) =>
      ∃ s : Span, s.Inside outer ∧ s.text? source = some text
  | _ => True

structure Placed (source : String) (node : Node) : Prop where
  fits : node.span.Fits source
  some : node.span.start < node.span.stop
  holds : ∀ other ∈ node.below, other.span.Inside node.span
  ordered : ∀ body ∈ node.blocks, InOrder body
  spells : node.Spells source

end Node

def PlacedIn (source : String) (s : Span) (nodes : List Node) : Prop :=
  ∀ node ∈ nodes, node.Placed source ∧ node.span.Inside s

/-- An expression with all that is in it, the expression itself at the span. -/
structure ExprAt (source : String) (s : Span) (e : Expr) : Prop where
  span : e.span = s
  placed : PlacedIn source s (Nodes.expr e)

structure StmtAt (source : String) (s : Span) (stmt : Stmt) : Prop where
  span : stmt.span = s
  placed : PlacedIn source s (Nodes.stmt stmt)

structure BlockIn (source : String) (s : Span) (body : Block) : Prop where
  ordered : InOrder body
  placed : PlacedIn source s (Nodes.stmts body)

namespace Nodes

theorem expr_eq_cons (e : Expr) : expr e = .expr e :: (Node.expr e).below := by
  cases e <;> simp [expr, Node.below]

theorem stmt_eq_cons (s : Stmt) : stmt s = .stmt s :: (Node.stmt s).below := by
  cases s <;> simp [stmt, Node.below]

end Nodes

section

variable {source : String} {s t : Span} {front back nodes : List Node}

@[simp] theorem placedIn_nil : PlacedIn source s [] := by simp [PlacedIn]

@[simp] theorem placedIn_append :
    PlacedIn source s (front ++ back) ↔ PlacedIn source s front ∧ PlacedIn source s back :=
  List.forall_mem_append

theorem PlacedIn.widen (placed : PlacedIn source s nodes) (inside : s.Inside t) :
    PlacedIn source t nodes := by
  intro node member
  obtain ⟨good, within⟩ := placed node member
  exact ⟨good, within.trans inside⟩

theorem PlacedIn.under {node : Node} (placed : PlacedIn source node.span node.below)
    (fits : node.span.Fits source) (some : node.span.start < node.span.stop)
    (ordered : ∀ body ∈ node.blocks, InOrder body) (spells : node.Spells source) :
    PlacedIn source node.span (node :: node.below) := by
  have here : node.Placed source :=
    ⟨fits, some, fun other member => (placed other member).2, ordered, spells⟩
  exact List.forall_mem_cons.mpr ⟨⟨here, .refl _⟩, placed⟩

theorem placedIn_binder {b : Binder} (fits : b.span.Fits source)
    (some : b.span.start < b.span.stop) : PlacedIn source b.span [.binder b] :=
  @PlacedIn.under source (.binder b) placedIn_nil fits some (by simp [Node.blocks]) trivial

end

namespace ExprAt

variable {source : String} {s t : Span} {e : Expr}

theorem of_parts (span : e.span = s) (fits : s.Fits source) (some : s.start < s.stop)
    (parts : PlacedIn source s (Node.expr e).below)
    (ordered : ∀ body ∈ (Node.expr e).blocks, InOrder body)
    (spells : (Node.expr e).Spells source) : ExprAt source s e := by
  subst span
  refine ⟨rfl, ?_⟩
  rw [Nodes.expr_eq_cons]
  exact @PlacedIn.under source (.expr e) parts fits some ordered spells

theorem root (stands : ExprAt source s e) : (Node.expr e).Placed source := by
  refine (stands.placed (.expr e) ?_).1
  rw [Nodes.expr_eq_cons]
  exact List.mem_cons_self

theorem fits (stands : ExprAt source s e) : s.Fits source := stands.span ▸ stands.root.fits

theorem some (stands : ExprAt source s e) : s.start < s.stop := stands.span ▸ stands.root.some

theorem below (stands : ExprAt source s e) : PlacedIn source s (Node.expr e).below := by
  intro node member
  apply stands.placed
  rw [Nodes.expr_eq_cons]
  exact List.mem_cons_of_mem _ member

theorem constant (value : Constant) (fits : s.Fits source) (some : s.start < s.stop) :
    ExprAt source s (.constant s value) :=
  of_parts rfl fits some placedIn_nil (by simp [Node.blocks]) trivial

theorem string (value : String) (fits : s.Fits source) (some : s.start < s.stop) :
    ExprAt source s (.string s value) :=
  of_parts rfl fits some placedIn_nil (by simp [Node.blocks]) trivial

theorem parenthesized (stands : ExprAt source s e) (inside : s.Inside t) (fits : t.Fits source) :
    ExprAt source t (e.parenthesized t) := by
  have below : (Node.expr (e.parenthesized t)).below = (Node.expr e).below := by cases e <;> rfl
  have blocks : (Node.expr (e.parenthesized t)).blocks = (Node.expr e).blocks := by
    cases e <;> rfl
  have order := stands.some
  apply of_parts
  · cases e <;> rfl
  · exact fits
  · obtain ⟨start, stop⟩ := inside
    omega
  · rw [below]
    exact stands.below.widen inside
  · rw [blocks]
    exact stands.root.ordered
  · have spells := stands.root.spells
    have wider : e.span.Inside t := stands.span ▸ inside
    cases e with
    | ident | number =>
      obtain ⟨inner, within, text⟩ := spells
      exact ⟨inner, within.trans wider, text⟩
    | _ => trivial

end ExprAt

namespace StmtAt

variable {source : String} {s : Span} {stmt : Stmt}

theorem of_parts (span : stmt.span = s) (fits : s.Fits source) (some : s.start < s.stop)
    (parts : PlacedIn source s (Node.stmt stmt).below)
    (ordered : ∀ body ∈ (Node.stmt stmt).blocks, InOrder body) : StmtAt source s stmt := by
  subst span
  refine ⟨rfl, ?_⟩
  rw [Nodes.stmt_eq_cons]
  exact @PlacedIn.under source (.stmt stmt) parts fits some ordered trivial

theorem some (stands : StmtAt source s stmt) : s.start < s.stop :=
  stands.span ▸ (stands.placed _ (Nodes.self_mem_stmt stmt)).1.some

end StmtAt

end LuaSearch
