import LuaSearch.Proofs.Syntax.Node
import LuaSearch.Proofs.Syntax.Render

/-!
Well-formed trees over some tokens, node by node. There are no wildcards, statements have the parts
that their form asks for, a `return` is the last of its block, and every name and number is the
text of a token of that kind, but for the parameter that a method has by itself. A name that is
declared has the place of its token too.
-/
namespace LuaSearch

def Spelled (tokens : List Token) (kind : Kind) (text : String) : Prop :=
  ∃ token ∈ tokens, token.kind = kind ∧ token.text = text

def Expr.isPath : Expr → Bool
  | ident .. => true
  | index _ object (string ..) => object.isPath
  | _ => false

/-- The parameters that stand in the text: a method has its receiver by itself. -/
def Params.written (method? : Option String) (ps : Params) : List Binder :=
  if method?.isSome then ps.names.tail else ps.names

def ReturnsLast (body : Block) : Prop := ∀ s ∈ body.dropLast, s.isReturn = false

section

variable (tokens : List Token)

def Binder.Formed (b : Binder) : Prop :=
  ∃ name, b.name? = some name ∧ (Spelled tokens .ident name ∨ name = "self")

def Binder.Written (b : Binder) : Prop :=
  ∃ token ∈ tokens, token.kind = .ident ∧ b = ⟨token.span, some token.text⟩

def MethodFormed (ps : Params) (method : String) : Prop :=
  Spelled tokens .ident method ∧ ps.names.head?.bind Binder.name? = some "self"

@[simp] def Expr.Formed : Expr → Prop
  | constant .. | string .. | unary .. | binary .. | index .. | table .. | call .. => True
  | number _ text => Spelled tokens .number text
  | ident _ name => Spelled tokens .ident name
  | methodCall _ _ method _ _ => Spelled tokens .ident method
  | function _ ps body => ReturnsLast body ∧ ∀ b ∈ ps.names, b.Written tokens
  | wildcard .. => False

@[simp] def Stmt.Formed : Stmt → Prop
  | assign _ targets values =>
      targets ≠ [] ∧ (∀ target ∈ targets, target.isAssignable = true) ∧ values ≠ []
  | localVars _ names _ => names ≠ [] ∧ ∀ b ∈ names, b.Written tokens
  | call _ e => e.isCall = true
  | doBlock _ body | whileLoop _ _ body | repeatLoop _ body _ => ReturnsLast body
  | localFunction _ name ps body =>
      Spelled tokens .ident name ∧ ReturnsLast body ∧ ∀ b ∈ ps.names, b.Written tokens
  | function _ target method? ps body =>
      target.isPath = true ∧ (∀ method ∈ method?, MethodFormed tokens ps method) ∧
        ReturnsLast body ∧ ∀ b ∈ ps.written method?, b.Written tokens
  | ifStmt _ _ thenBody elseBody => ReturnsLast thenBody ∧ ReturnsLast elseBody
  | returnStmt .. | breakStmt _ | continueStmt _ => True
  | numericFor _ var _ _ _ body => Spelled tokens .ident var ∧ ReturnsLast body
  | genericFor _ names es body =>
      (names ≠ [] ∧ ∀ name ∈ names, Spelled tokens .ident name) ∧ es ≠ [] ∧ ReturnsLast body
  | wildcard .. => False

@[simp] def Node.Formed : Node → Prop
  | .binder b => b.Formed tokens
  | .expr e => e.Formed tokens
  | .stmt s => s.Formed tokens

def Formed (nodes : List Node) : Prop := ∀ node ∈ nodes, node.Formed tokens

@[simp] abbrev ExprFormed (e : Expr) : Prop := Formed tokens (Nodes.expr e)

def BlockFormed (body : Block) : Prop := ReturnsLast body ∧ Formed tokens (Nodes.stmts body)

end

section

variable {tokens : List Token}

theorem Binder.Written.spelled {b : Binder} (written : b.Written tokens) :
    ∃ name, b.name? = some name ∧ Spelled tokens .ident name := by
  obtain ⟨token, member, kind, rfl⟩ := written
  exact ⟨token.text, rfl, token, member, kind, rfl⟩

theorem Binder.Written.formed {b : Binder} (written : b.Written tokens) : b.Formed tokens := by
  obtain ⟨name, given, spelled⟩ := written.spelled
  exact ⟨name, given, .inl spelled⟩

/-- The names that a node declares stand in the text, but for the receiver of a method. -/
theorem Node.Formed.written {node : Node} (formed : node.Formed tokens) :
    ∀ b ∈ (if node.isMethod then node.declares.tail else node.declares), b.Written tokens := by
  cases node with
  | expr e =>
    cases e with
    | function => exact formed.2
    | _ => simp [isMethod, declares]
  | stmt s =>
    cases s with
    | localVars => exact formed.2
    | localFunction => exact formed.2.2
    | function => exact formed.2.2.2
    | _ => simp [isMethod, declares]
  | binder b => simp [isMethod, declares]

@[simp] theorem formed_nil : Formed tokens [] := by simp [Formed]

@[simp] theorem formed_cons {node : Node} {nodes : List Node} :
    Formed tokens (node :: nodes) ↔ node.Formed tokens ∧ Formed tokens nodes :=
  List.forall_mem_cons

@[simp] theorem formed_append {front back : List Node} :
    Formed tokens (front ++ back) ↔ Formed tokens front ∧ Formed tokens back :=
  List.forall_mem_append

theorem formed_binders {bs : List Binder} :
    Formed tokens (Nodes.binders bs) ↔ ∀ b ∈ bs, b.Formed tokens := by
  simp [Formed, Nodes.binders]

theorem formed_exprs {es : List Expr} :
    Formed tokens (Nodes.exprs es) ↔ ∀ e ∈ es, ExprFormed tokens e := by
  induction es with
  | nil => simp [Nodes.exprs]
  | cons e es ih => simp [Nodes.exprs, ih]

theorem formed_fields {fs : List Field} :
    Formed tokens (Nodes.fields fs) ↔ ∀ f ∈ fs, Formed tokens (Nodes.field f) := by
  induction fs with
  | nil => simp [Nodes.fields]
  | cons f fs ih => simp [Nodes.fields, ih]

theorem formed_stmts {ss : List Stmt} :
    Formed tokens (Nodes.stmts ss) ↔ ∀ s ∈ ss, Formed tokens (Nodes.stmt s) := by
  induction ss with
  | nil => simp [Nodes.stmts]
  | cons s ss ih => simp [Nodes.stmts, ih]

theorem formed_parenthesized {e : Expr} (outer : Span) (formed : ExprFormed tokens e) :
    ExprFormed tokens (e.parenthesized outer) := by
  cases e <;> simp_all [Expr.parenthesized, Nodes.expr]

theorem formed_ofField {object : Expr} (span : Span) (name : String)
    (formed : ExprFormed tokens object) :
    ExprFormed tokens (object.ofField span name) := by
  simpa [Expr.ofField, Nodes.expr] using formed

end

end LuaSearch
