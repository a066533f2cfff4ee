import LuaSearch.Proofs.Syntax.Placed

/-!
A node and its parts. A node is its head, which is all that it carries itself, with its direct
parts, which are nodes again: the two determine it. The nodes of a tree are the node at its root and
those of the parts, so there is one induction for trees of every sort, from the parts to the node.
An address leads from a node to one below it, by the index of the part that is entered each time.
-/
namespace LuaSearch

def blanks {α : Type} (blank : α) (items : List α) : List α := List.replicate items.length blank

@[simp] theorem blanks_map {α : Type} (blank : α) (f : α → α) (items : List α) :
    blanks blank (items.map f) = blanks blank items := by
  simp [blanks]

@[simp] theorem blanks_inj {α : Type} {blank : α} {items others : List α} :
    blanks blank items = blanks blank others ↔ items.length = others.length := by
  simp [blanks, List.replicate_inj]

def Params.head (ps : Params) : Params := ⟨blanks ⟨default, none⟩ ps.names, ps.hasVarargs⟩

def Field.head : Field → Field
  | positional _ => positional default
  | keyed .. => keyed default default

/-- The expression with placeholders for its parts. -/
def Expr.head : Expr → Expr
  | unary span op _ => unary span op default
  | binary span op _ _ => binary span op default default
  | index span _ _ => index span default default
  | table span fields => table span (fields.map Field.head)
  | call span _ args adjusted => call span default (blanks default args) adjusted
  | methodCall span _ method args adjusted =>
      methodCall span default method (blanks default args) adjusted
  | function span ps body => function span ps.head (blanks default body)
  | leaf => leaf

def Stmt.head : Stmt → Stmt
  | assign span targets values => assign span (blanks default targets) (blanks default values)
  | localVars span names values =>
      localVars span (blanks ⟨default, none⟩ names) (blanks default values)
  | call span _ => call span default
  | doBlock span body => doBlock span (blanks default body)
  | whileLoop span _ body => whileLoop span default (blanks default body)
  | repeatLoop span body _ => repeatLoop span (blanks default body) default
  | localFunction span name ps body => localFunction span name ps.head (blanks default body)
  | function span _ method? ps body => function span default method? ps.head (blanks default body)
  | returnStmt span values => returnStmt span (blanks default values)
  | ifStmt span _ thenBody elseBody =>
      ifStmt span default (blanks default thenBody) (blanks default elseBody)
  | numericFor span var _ _ step? body =>
      numericFor span var default default (step?.map fun _ => default) (blanks default body)
  | genericFor span names es body =>
      genericFor span names (blanks default es) (blanks default body)
  | leaf => leaf

def Node.head : Node → Node
  | expr e => expr e.head
  | stmt s => stmt s.head
  | binder b => binder b

theorem Node.span_head (n : Node) : n.head.span = n.span := by
  cases n with
  | binder b => rfl
  | expr e => cases e <;> rfl
  | stmt s => cases s <;> rfl

/-- The direct parts of an expression in source order, those of a function literal included. -/
def Expr.parts : Expr → List Node
  | unary _ _ operand => [.expr operand]
  | binary _ _ left right => [.expr left, .expr right]
  | index _ object key => [.expr object, .expr key]
  | table _ fields => (fields.flatMap Field.exprs).map .expr
  | call _ callee args _ => .expr callee :: args.map .expr
  | methodCall _ receiver _ args _ => .expr receiver :: args.map .expr
  | function _ ps body => ps.names.map .binder ++ body.map .stmt
  | _ => []

def Stmt.parts : Stmt → List Node
  | assign _ targets values => targets.map .expr ++ values.map .expr
  | localVars _ names values => names.map .binder ++ values.map .expr
  | call _ e => [.expr e]
  | doBlock _ body => body.map .stmt
  | whileLoop _ condition body => .expr condition :: body.map .stmt
  | repeatLoop _ body condition => body.map .stmt ++ [.expr condition]
  | localFunction _ _ ps body => ps.names.map .binder ++ body.map .stmt
  | function _ target _ ps body => .expr target :: (ps.names.map .binder ++ body.map .stmt)
  | returnStmt _ values => values.map .expr
  | ifStmt _ condition thenBody elseBody =>
      .expr condition :: (thenBody.map .stmt ++ elseBody.map .stmt)
  | numericFor _ _ start limit step? body =>
      .expr start :: .expr limit :: (step?.toList.map .expr ++ body.map .stmt)
  | genericFor _ _ es body => es.map .expr ++ body.map .stmt
  | _ => []

namespace Node

def parts : Node → List Node
  | expr e => e.parts
  | stmt s => s.parts
  | binder _ => []

def nodes : Node → List Node
  | expr e => Nodes.expr e
  | stmt s => Nodes.stmt s
  | binder b => [binder b]

theorem flatMap_nodes_exprs (es : List Expr) : (es.map expr).flatMap nodes = Nodes.exprs es := by
  rw [Nodes.exprs_eq_flatMap, List.flatMap_map]
  rfl

theorem flatMap_nodes_stmts (ss : List Stmt) : (ss.map stmt).flatMap nodes = Nodes.stmts ss := by
  rw [Nodes.stmts_eq_flatMap, List.flatMap_map]
  rfl

theorem flatMap_nodes_binders (bs : List Binder) :
    (bs.map binder).flatMap nodes = Nodes.binders bs := by
  induction bs with
  | nil => rfl
  | cons b bs ih => simp_all [nodes, Nodes.binders]

theorem exprs_fieldExprs (fs : List Field) :
    Nodes.exprs (fs.flatMap Field.exprs) = Nodes.fields fs := by
  induction fs with
  | nil => rfl
  | cons f fs ih =>
    cases f <;> simp [Field.exprs, Nodes.exprs, Nodes.fields, Nodes.field, ih]

theorem exprs_step (step? : Option Expr) : Nodes.exprs step?.toList = Nodes.step step? := by
  cases step? <;> simp [Nodes.exprs, Nodes.step]

theorem nodes_eq (n : Node) : n.nodes = n :: n.parts.flatMap nodes := by
  cases n with
  | binder b => rfl
  | expr e =>
    cases e <;>
      simp [nodes, parts, Expr.parts, Nodes.expr, flatMap_nodes_exprs, flatMap_nodes_stmts,
        flatMap_nodes_binders, exprs_fieldExprs]
  | stmt s =>
    cases s <;>
      simp [nodes, parts, Stmt.parts, Nodes.stmt, flatMap_nodes_exprs, flatMap_nodes_stmts,
        flatMap_nodes_binders, exprs_step]

theorem nodes_length_lt {m n : Node} (part : m ∈ n.parts) : m.nodes.length < n.nodes.length := by
  have inside : m.nodes.Sublist (n.parts.flatMap nodes) :=
    List.sublist_flatten_of_mem (List.mem_map_of_mem part)
  have shorter := inside.length_le
  rw [nodes_eq n, List.length_cons]
  omega

theorem induction {P : Node → Prop} (step : ∀ n, (∀ m ∈ n.parts, P m) → P n) (n : Node) : P n :=
  step n fun m _ => induction step m
termination_by n.nodes.length
decreasing_by exact nodes_length_lt (by assumption)

end Node

theorem map_expr_inj {es es' : List Expr} : es.map Node.expr = es'.map Node.expr ↔ es = es' :=
  List.map_inj_right fun _ _ => Node.expr.inj

theorem map_stmt_inj {ss ss' : List Stmt} : ss.map Node.stmt = ss'.map Node.stmt ↔ ss = ss' :=
  List.map_inj_right fun _ _ => Node.stmt.inj

theorem map_binder_inj {bs bs' : List Binder} :
    bs.map Node.binder = bs'.map Node.binder ↔ bs = bs' :=
  List.map_inj_right fun _ _ => Node.binder.inj

theorem fields_eq_of_head {fs gs : List Field} (head : fs.map Field.head = gs.map Field.head)
    (parts : fs.flatMap Field.exprs = gs.flatMap Field.exprs) : fs = gs := by
  induction fs generalizing gs with
  | nil =>
    cases gs with
    | nil => rfl
    | cons => cases head
  | cons f fs ih =>
    cases gs with
    | nil => cases head
    | cons g gs =>
      obtain ⟨first, rest⟩ := List.cons.inj head
      cases f with
      | positional value =>
        cases g with
        | positional value' =>
          obtain ⟨rfl, later⟩ := List.cons.inj parts
          rw [ih rest later]
        | keyed => cases first
      | keyed key value =>
        cases g with
        | positional => cases first
        | keyed key' value' =>
          obtain ⟨rfl, behind⟩ := List.cons.inj parts
          obtain ⟨rfl, later⟩ := List.cons.inj behind
          rw [ih rest later]

theorem Params.eq_of_head {ps qs : Params} (head : ps.head = qs.head) (names : ps.names = qs.names) :
    ps = qs := by
  obtain ⟨_, varargs⟩ := Params.mk.inj head
  obtain ⟨_, _⟩ := ps
  obtain ⟨_, _⟩ := qs
  simp_all

theorem function_eq_of_head {ps qs : Params} {body body' : List Stmt} (head : ps.head = qs.head)
    (parts : ps.names.map Node.binder ++ body.map Node.stmt =
      qs.names.map Node.binder ++ body'.map Node.stmt) : ps = qs ∧ body = body' := by
  have size := blanks_inj.mp (Params.mk.inj head).1
  obtain ⟨names, bodies⟩ := List.append_inj parts (by simpa using size)
  exact ⟨Params.eq_of_head head (map_binder_inj.mp names), map_stmt_inj.mp bodies⟩

theorem Expr.eq_of_head {a b : Expr} (head : a.head = b.head) (parts : a.parts = b.parts) :
    a = b := by
  cases a with
  | constant | string | number | ident | wildcard =>
    cases b <;> cases head
    rfl
  | unary | binary | index =>
    cases b <;> cases head
    cases parts
    rfl
  | table span fs =>
    cases b with
    | table span' fs' =>
      obtain ⟨rfl, heads⟩ := Expr.table.inj head
      rw [fields_eq_of_head heads (map_expr_inj.mp parts)]
    | _ => cases head
  | call span callee args adjusted =>
    cases b with
    | call span' callee' args' adjusted' =>
      obtain ⟨rfl, _, _, rfl⟩ := Expr.call.inj head
      obtain ⟨callees, rest⟩ := List.cons.inj parts
      rw [Node.expr.inj callees, map_expr_inj.mp rest]
    | _ => cases head
  | methodCall span receiver method args adjusted =>
    cases b with
    | methodCall span' receiver' method' args' adjusted' =>
      obtain ⟨rfl, _, rfl, _, rfl⟩ := Expr.methodCall.inj head
      obtain ⟨receivers, rest⟩ := List.cons.inj parts
      rw [Node.expr.inj receivers, map_expr_inj.mp rest]
    | _ => cases head
  | function span ps body =>
    cases b with
    | function span' ps' body' =>
      obtain ⟨rfl, params, _⟩ := Expr.function.inj head
      obtain ⟨rfl, rfl⟩ := function_eq_of_head params parts
      rfl
    | _ => cases head

theorem Stmt.eq_of_head {a b : Stmt} (head : a.head = b.head) (parts : a.parts = b.parts) :
    a = b := by
  cases a with
  | breakStmt | continueStmt | wildcard =>
    cases b <;> cases head
    rfl
  | call =>
    cases b <;> cases head
    cases parts
    rfl
  | assign span targets values =>
    cases b with
    | assign span' targets' values' =>
      obtain ⟨rfl, size, _⟩ := Stmt.assign.inj head
      obtain ⟨left, right⟩ := List.append_inj parts (by simpa using blanks_inj.mp size)
      rw [map_expr_inj.mp left, map_expr_inj.mp right]
    | _ => cases head
  | localVars span names values =>
    cases b with
    | localVars span' names' values' =>
      obtain ⟨rfl, size, _⟩ := Stmt.localVars.inj head
      obtain ⟨left, right⟩ := List.append_inj parts (by simpa using blanks_inj.mp size)
      rw [map_binder_inj.mp left, map_expr_inj.mp right]
    | _ => cases head
  | doBlock span body =>
    cases b with
    | doBlock span' body' =>
      obtain ⟨rfl, _⟩ := Stmt.doBlock.inj head
      rw [map_stmt_inj.mp parts]
    | _ => cases head
  | whileLoop span condition body =>
    cases b with
    | whileLoop span' condition' body' =>
      obtain ⟨rfl, _, _⟩ := Stmt.whileLoop.inj head
      obtain ⟨conditions, bodies⟩ := List.cons.inj parts
      rw [Node.expr.inj conditions, map_stmt_inj.mp bodies]
    | _ => cases head
  | repeatLoop span body condition =>
    cases b with
    | repeatLoop span' body' condition' =>
      obtain ⟨rfl, size, _⟩ := Stmt.repeatLoop.inj head
      obtain ⟨bodies, conditions⟩ := List.append_inj parts (by simpa using blanks_inj.mp size)
      rw [map_stmt_inj.mp bodies, Node.expr.inj (List.cons.inj conditions).1]
    | _ => cases head
  | localFunction span name ps body =>
    cases b with
    | localFunction span' name' ps' body' =>
      obtain ⟨rfl, rfl, params, _⟩ := Stmt.localFunction.inj head
      obtain ⟨rfl, rfl⟩ := function_eq_of_head params parts
      rfl
    | _ => cases head
  | function span target method? ps body =>
    cases b with
    | function span' target' method?' ps' body' =>
      obtain ⟨rfl, _, rfl, params, _⟩ := Stmt.function.inj head
      obtain ⟨targets, rest⟩ := List.cons.inj parts
      obtain ⟨rfl, rfl⟩ := function_eq_of_head params rest
      rw [Node.expr.inj targets]
    | _ => cases head
  | returnStmt span values =>
    cases b with
    | returnStmt span' values' =>
      obtain ⟨rfl, _⟩ := Stmt.returnStmt.inj head
      rw [map_expr_inj.mp parts]
    | _ => cases head
  | ifStmt span condition thenBody elseBody =>
    cases b with
    | ifStmt span' condition' thenBody' elseBody' =>
      obtain ⟨rfl, _, size, _⟩ := Stmt.ifStmt.inj head
      obtain ⟨conditions, rest⟩ := List.cons.inj parts
      obtain ⟨thens, elses⟩ := List.append_inj rest (by simpa using blanks_inj.mp size)
      rw [Node.expr.inj conditions, map_stmt_inj.mp thens, map_stmt_inj.mp elses]
    | _ => cases head
  | numericFor span var start limit step? body =>
    cases b with
    | numericFor span' var' start' limit' step?' body' =>
      obtain ⟨rfl, rfl, _, _, given, _⟩ := Stmt.numericFor.inj head
      obtain ⟨starts, behind⟩ := List.cons.inj parts
      obtain ⟨limits, rest⟩ := List.cons.inj behind
      have size : step?.toList.length = step?'.toList.length := by
        cases step? <;> cases step?' <;> simp_all
      obtain ⟨steps, bodies⟩ := List.append_inj rest (by simpa using size)
      have step : step? = step?' := by
        have same := map_expr_inj.mp steps
        cases step? <;> cases step?' <;> simp_all
      rw [Node.expr.inj starts, Node.expr.inj limits, step, map_stmt_inj.mp bodies]
    | _ => cases head
  | genericFor span names es body =>
    cases b with
    | genericFor span' names' es' body' =>
      obtain ⟨rfl, rfl, size, _⟩ := Stmt.genericFor.inj head
      obtain ⟨exprs, bodies⟩ := List.append_inj parts (by simpa using blanks_inj.mp size)
      rw [map_expr_inj.mp exprs, map_stmt_inj.mp bodies]
    | _ => cases head

namespace Node

theorem eq_of_head {m n : Node} (head : m.head = n.head) (parts : m.parts = n.parts) : m = n := by
  cases m with
  | expr e =>
    cases n with
    | expr e' => rw [Expr.eq_of_head (Node.expr.inj head) parts]
    | _ => cases head
  | stmt s =>
    cases n with
    | stmt s' => rw [Stmt.eq_of_head (Node.stmt.inj head) parts]
    | _ => cases head
  | binder b =>
    cases n <;> cases head
    rfl

theorem mem_declares_of_part {n : Node} {b : Binder} (part : .binder b ∈ n.parts) :
    b ∈ n.declares := by
  cases n with
  | binder b => cases part
  | expr e => cases e <;> simp_all [parts, Expr.parts, declares]
  | stmt s => cases s <;> simp_all [parts, Stmt.parts, declares]

/-- Every declared name in a tree is declared by a node of it. -/
theorem exists_declares {n : Node} {b : Binder} (member : .binder b ∈ n.nodes)
    (below : n ≠ .binder b) : ∃ m ∈ n.nodes, b ∈ m.declares := by
  induction n using Node.induction with
  | step n ih =>
    rw [nodes_eq] at member ⊢
    have inside := (List.mem_cons.mp member).resolve_left (Ne.symm below)
    obtain ⟨part, among, deeper⟩ := List.mem_flatMap.mp inside
    by_cases direct : part = .binder b
    · subst direct
      exact ⟨n, List.mem_cons_self, mem_declares_of_part among⟩
    · obtain ⟨m, there, declares⟩ := ih part among deeper direct
      exact ⟨m, List.mem_cons_of_mem n (List.mem_flatMap.mpr ⟨part, among, there⟩), declares⟩

/-- The node at the address below a node. -/
def at? : Node → List Nat → Option Node
  | n, [] => some n
  | n, i :: rest => n.parts[i]?.bind (at? · rest)

theorem exists_at?_of_mem {m : Node} (n : Node) (member : m ∈ n.nodes) :
    ∃ path, n.at? path = some m := by
  induction n using Node.induction with
  | step n ih =>
    rw [nodes_eq] at member
    rcases List.mem_cons.mp member with rfl | below
    · exact ⟨[], rfl⟩
    · obtain ⟨part, inside, deeper⟩ := List.mem_flatMap.mp below
      obtain ⟨path, reached⟩ := ih part inside deeper
      obtain ⟨i, there⟩ := List.mem_iff_getElem?.mp inside
      exact ⟨i :: path, by simp [at?, there, reached]⟩

theorem mem_of_at? {n m : Node} {path : List Nat} (reached : n.at? path = some m) :
    m ∈ n.nodes := by
  induction path generalizing n with
  | nil =>
    obtain rfl := Option.some.inj reached
    rw [nodes_eq]
    exact List.mem_cons_self
  | cons i rest ih =>
    obtain ⟨part, there, deeper⟩ := Option.bind_eq_some_iff.mp reached
    rw [nodes_eq]
    apply List.mem_cons_of_mem
    exact List.mem_flatMap.mpr ⟨part, List.mem_of_getElem? there, ih deeper⟩

end Node

namespace Block

def at? (b : Block) : List Nat → Option Node
  | [] => none
  | i :: rest => b[i]?.bind fun s => (Node.stmt s).at? rest

theorem exists_at?_of_mem {b : Block} {m : Node} (member : m ∈ Nodes.stmts b) :
    ∃ path, b.at? path = some m := by
  rw [Nodes.stmts_eq_flatMap] at member
  obtain ⟨s, inside, deeper⟩ := List.mem_flatMap.mp member
  obtain ⟨path, reached⟩ := Node.exists_at?_of_mem (.stmt s) deeper
  obtain ⟨i, there⟩ := List.mem_iff_getElem?.mp inside
  exact ⟨i :: path, by simp [at?, there, reached]⟩

theorem mem_of_at? {b : Block} {m : Node} {path : List Nat} (reached : b.at? path = some m) :
    m ∈ Nodes.stmts b := by
  cases path with
  | nil => cases reached
  | cons i rest =>
    obtain ⟨s, there, deeper⟩ := Option.bind_eq_some_iff.mp reached
    rw [Nodes.stmts_eq_flatMap]
    exact List.mem_flatMap.mpr ⟨s, List.mem_of_getElem? there, Node.mem_of_at? deeper⟩

theorem exists_declares {body : Block} {b : Binder} (member : .binder b ∈ Nodes.stmts body) :
    ∃ m ∈ Nodes.stmts body, b ∈ m.declares := by
  rw [Nodes.stmts_eq_flatMap] at member ⊢
  obtain ⟨s, among, inside⟩ := List.mem_flatMap.mp member
  obtain ⟨m, there, declares⟩ := Node.exists_declares (n := .stmt s) inside (by simp)
  exact ⟨m, List.mem_flatMap.mpr ⟨s, among, there⟩, declares⟩

end Block

end LuaSearch
