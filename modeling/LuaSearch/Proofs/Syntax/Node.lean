import LuaSearch.Proofs.Match.Nesting

/-!
The nodes of a syntax tree: every expression, statement and declared name in it, the tree itself
first and the parts in source order, whatever search would look there. What a statement opens is
part of it, so the nodes of an opening are nodes of the statement.
-/
namespace LuaSearch

inductive Node where
  | expr (e : Expr)
  | stmt (s : Stmt)
  | binder (b : Binder)

namespace Node

def isStmtWildcard : Node → Bool
  | stmt (.wildcard ..) => true
  | _ => false

def isExprWildcard : Node → Bool
  | expr (.wildcard ..) => true
  | binder b => b.name?.isNone
  | _ => false

def isWildcard (node : Node) : Bool := node.isStmtWildcard || node.isExprWildcard

/-- The names that the node declares, those of a loop left out. -/
def declares : Node → List Binder
  | expr (.function _ ps _) => ps.names
  | stmt (.localVars _ names _) => names
  | stmt (.localFunction _ _ ps _) | stmt (.function _ _ _ ps _) => ps.names
  | _ => []

def isMethod : Node → Bool
  | stmt (.function _ _ method? _ _) => method?.isSome
  | _ => false

end Node

namespace Nodes

def binders (bs : List Binder) : List Node := bs.map .binder

mutual
def expr : Expr → List Node
  | .constant span value => [.expr (.constant span value)]
  | .string span value => [.expr (.string span value)]
  | .number span text => [.expr (.number span text)]
  | .ident span name => [.expr (.ident span name)]
  | .wildcard span wanted => [.expr (.wildcard span wanted)]
  | .unary span op operand => .expr (.unary span op operand) :: expr operand
  | .binary span op left right =>
      .expr (.binary span op left right) :: (expr left ++ expr right)
  | .index span object key => .expr (.index span object key) :: (expr object ++ expr key)
  | .table span fs => .expr (.table span fs) :: fields fs
  | .call span callee args adjusted =>
      .expr (.call span callee args adjusted) :: (expr callee ++ exprs args)
  | .methodCall span receiver method args adjusted =>
      .expr (.methodCall span receiver method args adjusted) :: (expr receiver ++ exprs args)
  | .function span ps body =>
      .expr (.function span ps body) :: (binders ps.names ++ stmts body)
termination_by structural e => e

def exprs : List Expr → List Node
  | [] => []
  | e :: es => expr e ++ exprs es
termination_by structural es => es

def field : Field → List Node
  | .positional value => expr value
  | .keyed key value => expr key ++ expr value
termination_by structural f => f

def fields : List Field → List Node
  | [] => []
  | f :: fs => field f ++ fields fs
termination_by structural fs => fs

def step : Option Expr → List Node
  | none => []
  | some e => expr e
termination_by structural e => e

def stmt : Stmt → List Node
  | .assign span targets values =>
      .stmt (.assign span targets values) :: (exprs targets ++ exprs values)
  | .localVars span names values =>
      .stmt (.localVars span names values) :: (binders names ++ exprs values)
  | .call span call => .stmt (.call span call) :: expr call
  | .doBlock span body => .stmt (.doBlock span body) :: stmts body
  | .whileLoop span condition body =>
      .stmt (.whileLoop span condition body) :: (expr condition ++ stmts body)
  | .repeatLoop span body condition =>
      .stmt (.repeatLoop span body condition) :: (stmts body ++ expr condition)
  | .localFunction span name ps body =>
      .stmt (.localFunction span name ps body) :: (binders ps.names ++ stmts body)
  | .function span target method? ps body =>
      .stmt (.function span target method? ps body) ::
        (expr target ++ (binders ps.names ++ stmts body))
  | .returnStmt span values => .stmt (.returnStmt span values) :: exprs values
  | .ifStmt span condition thenBody elseBody =>
      .stmt (.ifStmt span condition thenBody elseBody) ::
        (expr condition ++ (stmts thenBody ++ stmts elseBody))
  | .breakStmt span => [.stmt (.breakStmt span)]
  | .continueStmt span => [.stmt (.continueStmt span)]
  | .numericFor span var start limit step? body =>
      .stmt (.numericFor span var start limit step? body) ::
        (expr start ++ (expr limit ++ (step step? ++ stmts body)))
  | .genericFor span names es body =>
      .stmt (.genericFor span names es body) :: (exprs es ++ stmts body)
  | .wildcard span wanted => [.stmt (.wildcard span wanted)]
termination_by structural s => s

def stmts : List Stmt → List Node
  | [] => []
  | s :: ss => stmt s ++ stmts ss
termination_by structural ss => ss
end

theorem forall_mem_binders {P : Node → Prop} {bs : List Binder} :
    (∀ node ∈ binders bs, P node) ↔ ∀ b ∈ bs, P (.binder b) :=
  List.forall_mem_map

theorem self_mem_stmt (s : Stmt) : .stmt s ∈ stmt s := by
  cases s <;> simp [stmt]

theorem exprs_append (as bs : List Expr) : exprs (as ++ bs) = exprs as ++ exprs bs := by
  induction as with
  | nil => rfl
  | cons a as ih => simp [exprs, ih]

theorem exprs_eq_flatMap (es : List Expr) : exprs es = es.flatMap expr := by
  induction es with
  | nil => rfl
  | cons e es ih => simp [exprs, ih]

theorem fields_eq_flatMap (fs : List Field) : fields fs = fs.flatMap field := by
  induction fs with
  | nil => rfl
  | cons f fs ih => simp [fields, ih]

theorem stmts_eq_flatMap (ss : List Stmt) : stmts ss = ss.flatMap stmt := by
  induction ss with
  | nil => rfl
  | cons s ss ih => simp [stmts, ih]

theorem stmt_subset_stmts {s : Stmt} {body : Block} (member : s ∈ body) :
    stmt s ⊆ stmts body := by
  induction body with
  | nil => cases member
  | cons t body ih =>
    rcases List.mem_cons.mp member with rfl | later
    · exact List.subset_append_left _ _
    · exact List.subset_append_of_subset_right _ (ih later)

theorem append_parts {as bs : List Block} {front back : List Node}
    (left : ∀ body ∈ as, stmts body ⊆ front) (right : ∀ body ∈ bs, stmts body ⊆ back) :
    ∀ body ∈ as ++ bs, stmts body ⊆ front ++ back := by
  intro body member
  rcases List.mem_append.mp member with first | second
  · exact List.subset_append_of_subset_left _ (left body first)
  · exact List.subset_append_of_subset_right _ (right body second)

theorem below {bodies : List Block} {nodes : List Node} (node : Node)
    (parts : ∀ body ∈ bodies, stmts body ⊆ nodes) :
    ∀ body ∈ bodies, stmts body ⊆ node :: nodes := by
  intro body member
  exact List.subset_cons_of_subset node (parts body member)

mutual
theorem literals_expr : ∀ e : Expr, ∀ body ∈ Literals.expr e, stmts body ⊆ expr e
  | .constant .. | .string .. | .number .. | .ident .. | .wildcard .. => by simp [Literals.expr]
  | .unary _ _ operand => below _ (literals_expr operand)
  | .binary _ _ left right => below _ (append_parts (literals_expr left) (literals_expr right))
  | .index _ object key => below _ (append_parts (literals_expr object) (literals_expr key))
  | .table _ fs => below _ (literals_fields fs)
  | .call _ callee args _ => below _ (append_parts (literals_expr callee) (literals_exprs args))
  | .methodCall _ receiver _ args _ =>
      below _ (append_parts (literals_expr receiver) (literals_exprs args))
  | .function _ ps body => by
      intro only member
      obtain rfl := List.mem_singleton.mp member
      exact List.subset_cons_of_subset _ (List.subset_append_right _ _)
termination_by structural e => e

theorem literals_exprs : ∀ es : List Expr, ∀ body ∈ Literals.exprs es, stmts body ⊆ exprs es
  | [] => by simp [Literals.exprs]
  | e :: es => append_parts (literals_expr e) (literals_exprs es)
termination_by structural es => es

theorem literals_field : ∀ f : Field, ∀ body ∈ Literals.field f, stmts body ⊆ field f
  | .positional value => literals_expr value
  | .keyed key value => append_parts (literals_expr key) (literals_expr value)
termination_by structural f => f

theorem literals_fields : ∀ fs : List Field, ∀ body ∈ Literals.fields fs, stmts body ⊆ fields fs
  | [] => by simp [Literals.fields]
  | f :: fs => append_parts (literals_field f) (literals_fields fs)
termination_by structural fs => fs
end

theorem searched_subset (s : Stmt) : exprs s.searched ⊆ stmt s := by
  intro node member
  cases s with
  | numericFor _ _ start limit step? body =>
    cases step? <;> simp only [Stmt.searched, Option.toList, exprs, stmt, step] at member ⊢ <;>
      grind
  | _ =>
    simp only [Stmt.searched, exprs_append, exprs, stmt] at member ⊢
    grind

theorem functionBodies_subset (s : Stmt) : ∀ body ∈ s.functionBodies, stmts body ⊆ stmt s := by
  intro body member
  have literal := literals_exprs s.searched body
  have searched := searched_subset s
  cases s with
  | localFunction _ _ _ declared =>
    obtain rfl := List.mem_singleton.mp member
    exact List.subset_cons_of_subset _ (List.subset_append_right _ _)
  | function _ target _ _ declared =>
    obtain rfl := List.mem_singleton.mp member
    apply List.subset_cons_of_subset
    exact List.subset_append_of_subset_right _ (List.subset_append_right _ _)
  | _ => exact List.Subset.trans (literal member) searched

theorem bodies_subset (s : Stmt) : ∀ body ∈ s.bodies, stmts body ⊆ stmt s := by
  intro body member node inside
  cases s with
  | ifStmt _ condition thenBody elseBody =>
    simp only [Stmt.bodies, List.mem_cons, List.not_mem_nil, or_false] at member
    rcases member with rfl | rfl <;> simp [stmt, inside]
  | _ => simp_all [Stmt.bodies, stmt]

theorem opening_subset {s : Stmt} {scope : Scope} {body : Block}
    (opens : (scope, body) ∈ s.openings) : stmts body ⊆ stmt s := by
  rcases List.mem_append.mp opens with function | direct
  · obtain ⟨_, member, same⟩ := List.mem_map.mp function
    cases same
    exact functionBodies_subset s body member
  · obtain ⟨_, member, same⟩ := List.mem_map.mp direct
    cases same
    exact bodies_subset s body member

theorem nested_subset {s : Stmt} {path : List Scope} {block : Block}
    (nested : Nested s path block) : stmts block ⊆ stmt s := by
  induction nested with
  | opened opens => exact opening_subset opens
  | deeper opens member _ ih =>
    exact List.Subset.trans ih
      (List.Subset.trans (stmt_subset_stmts member) (opening_subset opens))

end Nodes

end LuaSearch
