import LuaSearch.Proofs.Syntax.Parts
import LuaSearch.Template

/-!
What lowering does to a tree. At every node it takes one step: a marker gives way to the wildcard of
its kind, with the span of the marker; any other node keeps its head, and its parts are lowered. So
what is lowered has no markers, without markers lowering changes nothing, and lowering twice is
lowering once. Where a marker is a whole statement, what it held is gone; no block gets deeper.
-/
namespace LuaSearch

def Node.isMarker : Node → Bool
  | .expr (.ident _ name) => (Marker.wildcard? name).isSome
  | .binder b => b.name? = some Marker.ident
  | .stmt (.localFunction _ name _ _) => name = Marker.localFunction
  | .stmt (.call _ e) => Marker.isIfCall e
  | _ => false

abbrev Unmarked (nodes : List Node) : Prop := ∀ node ∈ nodes, node.isMarker = false

namespace Node

/-- The places that may vary, each with the wildcard that takes its place. -/
inductive Marks : Node → Node → Prop
  | ident (span : Span) : Marks (expr (.ident span Marker.ident)) (expr (.wildcard span .ident))
  | string (span : Span) : Marks (expr (.ident span Marker.string)) (expr (.wildcard span .string))
  | number (span : Span) : Marks (expr (.ident span Marker.number)) (expr (.wildcard span .number))
  | function (span : Span) :
      Marks (expr (.ident span Marker.function)) (expr (.wildcard span .function))
  | binder (span : Span) : Marks (binder ⟨span, some Marker.ident⟩) (binder ⟨span, none⟩)
  | localFunction (span : Span) (ps : Params) (body : Block) :
      Marks (stmt (.localFunction span Marker.localFunction ps body))
        (stmt (.wildcard span .localFunction))
  | ifStmt (span outer place : Span) (args : List Expr) (adjusted : Bool) :
      Marks (stmt (.call span (.call outer (.ident place Marker.ifStmt) args adjusted)))
        (stmt (.wildcard span .ifStmt))

/-- The second node takes the place of the first: it has the same span and is the wildcard that the
    first one marks, or else the first one marks nothing and the two agree in all but their parts. -/
def Becomes (n m : Node) : Prop :=
  m.span = n.span ∧ (n.Marks m ∨ (∀ w, ¬ n.Marks w) ∧ m.head = n.head)

def lower : Node → Node
  | expr e => expr (Lower.expr e)
  | stmt s => stmt (Lower.stmt s)
  | binder b => binder (Lower.binder b)

theorem Marks.isMarker {n w : Node} (marks : n.Marks w) : n.isMarker = true := by
  cases marks <;> rfl

theorem marks_wildcard {name : String} {wanted : ExprWildcard} (span : Span)
    (given : Marker.wildcard? name = some wanted) :
    Marks (expr (.ident span name)) (expr (.wildcard span wanted)) := by
  unfold Marker.wildcard? at given
  split at given
  next here => cases here; cases given; exact .ident span
  split at given
  next here => cases here; cases given; exact .string span
  split at given
  next here => cases here; cases given; exact .number span
  split at given
  next here => cases here; cases given; exact .function span
  cases given

theorem marks_lower {n : Node} (marker : n.isMarker = true) : n.Marks n.lower := by
  unfold Node.isMarker at marker
  split at marker
  · rename_i span name
    obtain ⟨wanted, given⟩ := Option.isSome_iff_exists.mp marker
    simpa [lower, Lower.expr, Lower.name, given] using marks_wildcard span given
  · rename_i b
    obtain ⟨span, name?⟩ := b
    obtain rfl : name? = some Marker.ident := by simpa using marker
    exact .binder span
  · rename_i span name ps body
    obtain rfl : name = Marker.localFunction := by simpa using marker
    exact .localFunction span ps body
  · rename_i span e
    unfold Marker.isIfCall at marker
    split at marker
    · rename_i outer place name args adjusted
      obtain rfl : name = Marker.ifStmt := by simpa using marker
      exact .ifStmt span outer place args adjusted
    · cases marker
  · cases marker

theorem isMarker_eq_false_iff {n : Node} : n.isMarker = false ↔ ∀ w, ¬ n.Marks w := by
  constructor
  · intro plain w marks
    exact absurd marks.isMarker (by simp [plain])
  · intro unmarked
    cases marker : n.isMarker with
    | true => exact absurd (marks_lower marker) (unmarked n.lower)
    | false => rfl

theorem Marks.wildcard {n w : Node} (marks : n.Marks w) :
    w.span = n.span ∧ w.parts = [] ∧ w.isMarker = false := by
  cases marks <;> exact ⟨rfl, rfl, rfl⟩

end Node

namespace Lower

theorem exprs_eq_map (es : List Expr) : exprs es = es.map expr := by
  induction es with
  | nil => rfl
  | cons e es ih => simp [exprs, ih]

theorem fields_eq_map (fs : List Field) : fields fs = fs.map field := by
  induction fs with
  | nil => rfl
  | cons f fs ih => simp [fields, ih]

theorem step_eq_map (step? : Option Expr) : step step? = step?.map expr := by
  cases step? <;> rfl

theorem head_field (f : Field) : (field f).head = f.head := by
  cases f <;> rfl

theorem exprs_fields (fs : List Field) :
    (fields fs).flatMap Field.exprs = exprs (fs.flatMap Field.exprs) := by
  induction fs with
  | nil => rfl
  | cons f fs ih => cases f <;> simp [fields, field, Field.exprs, exprs, ih]

theorem toList_step (step? : Option Expr) : (step step?).toList = exprs step?.toList := by
  cases step? <;> rfl

theorem head_params (ps : Params) : (params ps).head = ps.head := by
  simp [params, Params.head]

theorem isIfCall_expr (e : Expr) (plain : Marker.isIfCall e = false) :
    Marker.isIfCall (expr e) = false := by
  cases e with
  | ident span text =>
    simp only [expr, name]
    split <;> rfl
  | call span callee args adjusted =>
    cases callee with
    | ident place text =>
      simp only [expr, name]
      split
      · rfl
      · exact plain
    | _ => rfl
  | _ => rfl

end Lower

namespace Node

theorem lower_ident {span : Span} {name : String}
    (plain : (expr (.ident span name)).isMarker = false) :
    lower (expr (.ident span name)) = expr (.ident span name) := by
  have none : Marker.wildcard? name = none := by simpa [isMarker] using plain
  simp [lower, Lower.expr, Lower.name, none]

theorem lower_binder {b : Binder} (plain : (binder b).isMarker = false) :
    lower (binder b) = binder b := by
  have other : b.name? ≠ some Marker.ident := by simpa [isMarker] using plain
  simp [lower, Lower.binder, other]

theorem lower_localFunction {span : Span} {name : String} {ps : Params} {body : Block}
    (plain : (stmt (.localFunction span name ps body)).isMarker = false) :
    lower (stmt (.localFunction span name ps body)) =
      stmt (.localFunction span name (Lower.params ps) (Lower.stmts body)) := by
  have other : name ≠ Marker.localFunction := by simpa [isMarker] using plain
  simp [lower, Lower.stmt, other]

theorem lower_call {span : Span} {e : Expr} (plain : (stmt (.call span e)).isMarker = false) :
    lower (stmt (.call span e)) = stmt (.call span (Lower.expr e)) := by
  have other : Marker.isIfCall e = false := plain
  simp [lower, Lower.stmt, other]

theorem head_lower {n : Node} (plain : n.isMarker = false) : n.lower.head = n.head := by
  cases n with
  | binder b => rw [lower_binder plain]
  | expr e =>
    cases e with
    | ident span name => rw [lower_ident plain]
    | _ =>
      simp [lower, head, Expr.head, Lower.expr, Lower.exprs_eq_map, Lower.fields_eq_map,
        Lower.stmts_eq_map, Lower.head_params, Lower.head_field]
  | stmt s =>
    cases s with
    | localFunction span name ps body =>
      rw [lower_localFunction plain]
      simp [head, Stmt.head, Lower.stmts_eq_map, Lower.head_params]
    | call span e =>
      rw [lower_call plain]
      rfl
    | _ =>
      simp [lower, head, Stmt.head, Lower.stmt, Lower.exprs_eq_map, Lower.stmts_eq_map,
        Lower.step_eq_map, Lower.head_params, Function.comp_def]

theorem map_lower_exprs (es : List Expr) :
    (Lower.exprs es).map expr = (es.map expr).map lower := by
  rw [Lower.exprs_eq_map, List.map_map, List.map_map]
  rfl

theorem map_lower_stmts (ss : List Stmt) :
    (Lower.stmts ss).map stmt = (ss.map stmt).map lower := by
  rw [Lower.stmts_eq_map, List.map_map, List.map_map]
  rfl

theorem map_lower_binders (bs : List Binder) :
    (bs.map Lower.binder).map binder = (bs.map binder).map lower := by
  rw [List.map_map, List.map_map]
  rfl

theorem parts_lower {n : Node} (plain : n.isMarker = false) :
    n.lower.parts = n.parts.map lower := by
  cases n with
  | binder b => rfl
  | expr e =>
    cases e with
    | ident span name =>
      rw [lower_ident plain]
      rfl
    | _ =>
      simp only [lower, parts, Expr.parts, Lower.expr, Lower.params, List.map_cons, List.map_nil,
        List.map_append, map_lower_exprs, map_lower_stmts, map_lower_binders, Lower.exprs_fields]
  | stmt s =>
    cases s with
    | localFunction span name ps body =>
      rw [lower_localFunction plain]
      simp only [parts, Stmt.parts, Lower.params, List.map_append, map_lower_stmts,
        map_lower_binders]
    | call span e =>
      rw [lower_call plain]
      rfl
    | _ =>
      simp only [lower, parts, Stmt.parts, Lower.stmt, Lower.params, List.map_cons, List.map_nil,
        List.map_append, map_lower_exprs, map_lower_stmts, map_lower_binders, Lower.toList_step]

theorem span_lower (n : Node) : n.lower.span = n.span := by
  cases marker : n.isMarker with
  | true => exact (marks_lower marker).wildcard.1
  | false => rw [← span_head n.lower, head_lower marker, span_head]

theorem isMarker_lower (n : Node) : n.lower.isMarker = false := by
  cases marker : n.isMarker with
  | true => exact (marks_lower marker).wildcard.2.2
  | false =>
    cases n with
    | binder b => rwa [lower_binder marker]
    | expr e =>
      cases e with
      | ident span name => rwa [lower_ident marker]
      | _ => rfl
    | stmt s =>
      cases s with
      | localFunction span name ps body => rwa [lower_localFunction marker]
      | call span e =>
        rw [lower_call marker]
        exact Lower.isIfCall_expr e marker
      | _ => rfl

theorem lower_eq_self (n : Node) (unmarked : Unmarked n.nodes) : n.lower = n := by
  induction n using Node.induction with
  | step n ih =>
    rw [nodes_eq] at unmarked
    obtain ⟨plain, below⟩ := List.forall_mem_cons.mp unmarked
    have same (part : Node) (inside : part ∈ n.parts) : part.lower = part :=
      ih part inside fun node deeper => below node (List.mem_flatMap.mpr ⟨part, inside, deeper⟩)
    apply eq_of_head (head_lower plain)
    calc n.lower.parts = n.parts.map lower := parts_lower plain
      _ = n.parts.map id := List.map_congr_left same
      _ = n.parts := List.map_id _

theorem at?_of_lower {n m' : Node} {path : List Nat} (reached : n.lower.at? path = some m') :
    ∃ m, n.at? path = some m ∧ m' = m.lower := by
  induction path generalizing n with
  | nil => exact ⟨n, rfl, (Option.some.inj reached).symm⟩
  | cons i rest ih =>
    cases marker : n.isMarker with
    | true =>
      have leaf := (marks_lower marker).wildcard.2.1
      simp [at?, leaf] at reached
    | false =>
      simp only [at?, parts_lower marker, List.getElem?_map] at reached ⊢
      obtain ⟨part', entered, deeper⟩ := Option.bind_eq_some_iff.mp reached
      obtain ⟨part, there, rfl⟩ := Option.map_eq_some_iff.mp entered
      simpa [there] using ih deeper

theorem at?_lower {n m : Node} {path : List Nat} (reached : n.at? path = some m) :
    n.lower.at? path = some m.lower ∨
      ∃ front i rest marker, path = front ++ i :: rest ∧ n.at? front = some marker ∧
        marker.isMarker = true := by
  induction path generalizing n with
  | nil => exact .inl (congrArg (some ∘ lower) (Option.some.inj reached))
  | cons i rest ih =>
    cases marker : n.isMarker with
    | true => exact .inr ⟨[], i, rest, n, rfl, rfl, marker⟩
    | false =>
      simp only [at?, parts_lower marker, List.getElem?_map] at reached ⊢
      obtain ⟨part, there, deeper⟩ := Option.bind_eq_some_iff.mp reached
      rcases ih deeper with kept | ⟨front, j, behind, found, rfl, stops, marks⟩
      · exact .inl (by simp [there, kept])
      · exact .inr ⟨i :: front, j, behind, found, rfl, by simp [at?, there, stops], marks⟩

theorem becomes_lower (n : Node) : n.Becomes n.lower := by
  refine ⟨span_lower n, ?_⟩
  cases marker : n.isMarker with
  | true => exact .inl (marks_lower marker)
  | false => exact .inr ⟨isMarker_eq_false_iff.mp marker, head_lower marker⟩

end Node

namespace Block

theorem at?_of_lower {chunk : Block} {m' : Node} {path : List Nat}
    (reached : at? (Lower.stmts chunk) path = some m') :
    ∃ m, chunk.at? path = some m ∧ m' = m.lower := by
  cases path with
  | nil => cases reached
  | cons i rest =>
    simp only [at?, Lower.stmts_eq_map, List.getElem?_map] at reached ⊢
    obtain ⟨s', entered, deeper⟩ := Option.bind_eq_some_iff.mp reached
    obtain ⟨s, there, rfl⟩ := Option.map_eq_some_iff.mp entered
    simpa [there] using Node.at?_of_lower (n := .stmt s) deeper

theorem at?_lower {chunk : Block} {m : Node} {path : List Nat}
    (reached : chunk.at? path = some m) :
    at? (Lower.stmts chunk) path = some m.lower ∨
      ∃ front i rest marker, path = front ++ i :: rest ∧ chunk.at? front = some marker ∧
        marker.isMarker = true := by
  cases path with
  | nil => cases reached
  | cons i rest =>
    simp only [at?, Lower.stmts_eq_map, List.getElem?_map] at reached ⊢
    obtain ⟨s, there, deeper⟩ := Option.bind_eq_some_iff.mp reached
    rcases Node.at?_lower deeper with kept | ⟨front, j, behind, found, rfl, stops, marks⟩
    · exact .inl (by simpa [there, Node.lower] using kept)
    · exact .inr ⟨i :: front, j, behind, found, rfl, by simp [there, stops], marks⟩

theorem exists_of_mem_lower {chunk : Block} {m' : Node}
    (member : m' ∈ Nodes.stmts (Lower.stmts chunk)) :
    ∃ m ∈ Nodes.stmts chunk, m' = m.lower := by
  obtain ⟨path, reached⟩ := exists_at?_of_mem member
  obtain ⟨m, before, lowered⟩ := at?_of_lower reached
  exact ⟨m, mem_of_at? before, lowered⟩

theorem unmarked_lower (chunk : Block) : Unmarked (Nodes.stmts (Lower.stmts chunk)) := by
  intro node member
  obtain ⟨before, _, rfl⟩ := exists_of_mem_lower member
  exact Node.isMarker_lower before

theorem lower_eq_self {chunk : Block} (unmarked : Unmarked (Nodes.stmts chunk)) :
    Lower.stmts chunk = chunk := by
  have same (s : Stmt) (member : s ∈ chunk) : Lower.stmt s = s := by
    apply Node.stmt.inj
    apply Node.lower_eq_self (.stmt s)
    intro node inside
    exact unmarked node (Nodes.stmt_subset_stmts member inside)
  calc Lower.stmts chunk = chunk.map Lower.stmt := Lower.stmts_eq_map chunk
    _ = chunk.map id := List.map_congr_left same
    _ = chunk := List.map_id _

end Block

namespace Depth

theorem expr_lower_name (span : Span) (name : String) : expr (Lower.name span name) = 0 := by
  unfold Lower.name
  split <;> rfl

mutual
theorem expr_lower_le : ∀ e : Expr, expr (Lower.expr e) ≤ expr e
  | .constant .. | .string .. | .number .. | .wildcard .. => Nat.le_refl _
  | .ident span name => Nat.le_of_eq (expr_lower_name span name)
  | .unary _ _ operand => expr_lower_le operand
  | .binary _ _ left right => by
      have := expr_lower_le left
      have := expr_lower_le right
      simp only [Lower.expr, expr]
      omega
  | .index _ object key => by
      have := expr_lower_le object
      have := expr_lower_le key
      simp only [Lower.expr, expr]
      omega
  | .table _ fs => fields_lower_le fs
  | .call _ callee args _ => by
      have := expr_lower_le callee
      have := exprs_lower_le args
      simp only [Lower.expr, expr]
      omega
  | .methodCall _ receiver _ args _ => by
      have := expr_lower_le receiver
      have := exprs_lower_le args
      simp only [Lower.expr, expr]
      omega
  | .function _ _ body => Nat.succ_le_succ (stmts_lower_le body)
termination_by structural e => e

theorem exprs_lower_le : ∀ es : List Expr, exprs (Lower.exprs es) ≤ exprs es
  | [] => Nat.le_refl _
  | e :: es => by
      have := expr_lower_le e
      have := exprs_lower_le es
      simp only [Lower.exprs, exprs]
      omega
termination_by structural es => es

theorem field_lower_le : ∀ f : Field, field (Lower.field f) ≤ field f
  | .positional value => expr_lower_le value
  | .keyed key value => by
      have := expr_lower_le key
      have := expr_lower_le value
      simp only [Lower.field, field]
      omega
termination_by structural f => f

theorem fields_lower_le : ∀ fs : List Field, fields (Lower.fields fs) ≤ fields fs
  | [] => Nat.le_refl _
  | f :: fs => by
      have := field_lower_le f
      have := fields_lower_le fs
      simp only [Lower.fields, fields]
      omega
termination_by structural fs => fs

theorem step_lower_le : ∀ step? : Option Expr, step (Lower.step step?) ≤ step step?
  | none => Nat.le_refl _
  | some e => expr_lower_le e
termination_by structural step? => step?

theorem stmt_lower_le : ∀ s : Stmt, stmt (Lower.stmt s) ≤ stmt s
  | .breakStmt _ | .continueStmt _ | .wildcard .. => Nat.le_refl _
  | .assign _ targets values => by
      have := exprs_lower_le targets
      have := exprs_lower_le values
      simp only [Lower.stmt, stmt]
      omega
  | .localVars _ _ values => exprs_lower_le values
  | .call _ call => by
      have := expr_lower_le call
      simp only [Lower.stmt]
      split <;> simp only [stmt] <;> omega
  | .doBlock _ body => Nat.succ_le_succ (stmts_lower_le body)
  | .whileLoop _ condition body => by
      have := expr_lower_le condition
      have := stmts_lower_le body
      simp only [Lower.stmt, stmt]
      omega
  | .repeatLoop _ body condition => by
      have := expr_lower_le condition
      have := stmts_lower_le body
      simp only [Lower.stmt, stmt]
      omega
  | .localFunction _ _ _ body => by
      have := stmts_lower_le body
      simp only [Lower.stmt]
      split <;> simp only [stmt] <;> omega
  | .function _ target _ _ body => by
      have := expr_lower_le target
      have := stmts_lower_le body
      simp only [Lower.stmt, stmt]
      omega
  | .returnStmt _ values => exprs_lower_le values
  | .ifStmt _ condition thenBody elseBody => by
      have := expr_lower_le condition
      have := stmts_lower_le thenBody
      have := stmts_lower_le elseBody
      simp only [Lower.stmt, stmt]
      omega
  | .numericFor _ _ start limit step? body => by
      have := expr_lower_le start
      have := expr_lower_le limit
      have := step_lower_le step?
      have := stmts_lower_le body
      simp only [Lower.stmt, stmt]
      omega
  | .genericFor _ _ es body => by
      have := exprs_lower_le es
      have := stmts_lower_le body
      simp only [Lower.stmt, stmt]
      omega
termination_by structural s => s

theorem stmts_lower_le : ∀ ss : List Stmt, stmts (Lower.stmts ss) ≤ stmts ss
  | [] => Nat.le_refl _
  | s :: ss => by
      have := stmt_lower_le s
      have := stmts_lower_le ss
      simp only [Lower.stmts, stmts]
      omega
termination_by structural ss => ss
end

end Depth

theorem depth_ofChunk_le {chunk : Block} {template : Template}
    (lowered : Template.ofChunk chunk = .ok template) : template.depth ≤ Block.depth chunk := by
  cases chunk with
  | nil => cases lowered
  | cons s ss =>
    cases lowered
    exact Nat.succ_le_succ (Depth.stmts_lower_le (s :: ss))

theorem ofChunk_eq {chunk : Block} (nonempty : chunk ≠ []) :
    ∃ kept : Lower.stmts chunk ≠ [], Template.ofChunk chunk = .ok ⟨Lower.stmts chunk, kept⟩ := by
  cases chunk with
  | nil => contradiction
  | cons s ss => exact ⟨List.cons_ne_nil _ _, rfl⟩

theorem ofChunk_eq_self {chunk : Block} (nonempty : chunk ≠ [])
    (unmarked : Unmarked (Nodes.stmts chunk)) : Template.ofChunk chunk = .ok ⟨chunk, nonempty⟩ := by
  obtain ⟨_, lowered⟩ := ofChunk_eq nonempty
  simpa only [Block.lower_eq_self unmarked] using lowered

/-- Lowering is a normalization. Every chunk that is not empty writes a template, and that template
    writes itself. No marker is left in it. It has as many statements as the chunk; at each of its
    addresses stands the wildcard of the marker that the chunk has there, or the node that the chunk
    has there with its parts lowered, in either case with the same span; and it lacks no address of
    the chunk but those below a marker. A chunk without markers is left as it is, and no template is
    deeper than its chunk. -/
theorem lowering_normalizes {chunk : Block} (nonempty : chunk ≠ []) :
    ∃ template, Template.ofChunk chunk = .ok template ∧
      Template.ofChunk template.stmts = .ok template ∧
      (∀ node ∈ Nodes.stmts template.stmts, ∀ w, ¬ node.Marks w) ∧
      template.length = chunk.length ∧
      (∀ path node', Block.at? template.stmts path = some node' →
        ∃ node, chunk.at? path = some node ∧ node.Becomes node') ∧
      (∀ path node, chunk.at? path = some node →
        (∃ node', Block.at? template.stmts path = some node') ∨
          ∃ front i rest marker w, path = front ++ i :: rest ∧
            chunk.at? front = some marker ∧ marker.Marks w) ∧
      ((∀ node ∈ Nodes.stmts chunk, ∀ w, ¬ node.Marks w) → template.stmts = chunk) ∧
      template.depth ≤ Block.depth chunk := by
  obtain ⟨kept, lowered⟩ := ofChunk_eq nonempty
  have unmarked := Block.unmarked_lower chunk
  refine ⟨_, lowered, ofChunk_eq_self kept unmarked, ?_, ?_, ?_, ?_, ?_, depth_ofChunk_le lowered⟩
  · intro node member
    exact Node.isMarker_eq_false_iff.mp (unmarked node member)
  · simp [Template.length, Lower.stmts_eq_map]
  · intro path node' reached
    obtain ⟨node, there, rfl⟩ := Block.at?_of_lower reached
    exact ⟨node, there, Node.becomes_lower node⟩
  · intro path node reached
    rcases Block.at?_lower reached with there | ⟨front, i, rest, marker, split, stops, marks⟩
    · exact .inl ⟨_, there⟩
    · exact .inr ⟨front, i, rest, marker, _, split, stops, Node.marks_lower marks⟩
  · intro plain
    apply Block.lower_eq_self
    intro node member
    exact Node.isMarker_eq_false_iff.mpr (plain node member)

/-- The text `for i = 1, 9, _NumberExpr_ do x = { [_StringExpr_] = 1 } end` before a marked function
    with a loop in it: the step and the key become wildcards, and the loop in the function is gone. -/
theorem lowering_normalizes_loop :
    let loop (step key : Expr) : Stmt :=
      .numericFor ⟨0, 60⟩ "i" (.number ⟨8, 9⟩ "1") (.number ⟨11, 12⟩ "9") (some step)
        [.assign ⟨30, 56⟩ [.ident ⟨30, 31⟩ "x"]
          [.table ⟨34, 56⟩ [.keyed key (.number ⟨53, 54⟩ "1")]]]
    let chunk : Block := [
      loop (.ident ⟨14, 26⟩ "_NumberExpr_") (.ident ⟨37, 49⟩ "_StringExpr_"),
      .localFunction ⟨61, 116⟩ "_LocalFunctionStmt_" ⟨[], false⟩
        [.whileLoop ⟨98, 112⟩ (.ident ⟨104, 105⟩ "a") []]]
    let lowered : Block := [
      loop (.wildcard ⟨14, 26⟩ .number) (.wildcard ⟨37, 49⟩ .string),
      .wildcard ⟨61, 116⟩ .localFunction]
    chunk ≠ [] ∧ Block.depth chunk = 3 ∧ Block.depth lowered = 2 ∧
      ∃ template, Template.ofChunk chunk = .ok template ∧ template.stmts = lowered ∧
        Template.ofChunk lowered = .ok template ∧
        (∀ node ∈ Nodes.stmts lowered, ∀ w, ¬ node.Marks w) ∧ template.depth ≤ 3 := by
  intro loop chunk lowered
  have nonempty : chunk ≠ [] := List.cons_ne_nil _ _
  obtain ⟨template, written, again, free, _, _, _, _, shallow⟩ := lowering_normalizes nonempty
  have stmts : template.stmts = lowered := by
    cases written
    rfl
  rw [stmts] at again free
  exact ⟨nonempty, rfl, rfl, template, written, stmts, again, free, shallow⟩

end LuaSearch
