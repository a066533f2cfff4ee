import LuaSearch.Proofs.Lowering
import LuaSearch.Proofs.Match.Exhaustive
import LuaSearch.Proofs.Parse.Formed.Statement

/-!
Code finds itself. Without markers lowering leaves a tree as it is. A tree compares with itself and
records nothing, unless it holds a wildcard or a `continue`, which nothing compares with. So a text
without markers and without `continue` is a template that occurs in the text from the first
statement to the last, and either mode finds it there.
-/
namespace LuaSearch

/-- Whether a comparison with the node itself can hold. -/
def Node.isComparable : Node → Bool
  | .expr (.wildcard ..) | .stmt (.wildcard ..) | .stmt (.continueStmt _) => false
  | _ => true

abbrev Comparable (nodes : List Node) : Prop := ∀ node ∈ nodes, node.isComparable = true

namespace Compare

@[simp] theorem yes_and (c : Comparison) : Comparison.yes.and c = c := by
  simp [Comparison.yes, Comparison.and]

@[simp] theorem test_true : Comparison.test true = .yes := rfl

@[simp] theorem recorded_empty : Comparison.recorded ∅ = .yes := rfl

@[simp] theorem sized_self {α : Type} (items : List α) (pairs : Comparison) :
    sized items items pairs = pairs := by
  simp [sized]

theorem bodies_self (body : Block) {pairs : Comparison} (same : pairs = .yes) :
    bodies body body pairs = .yes := by
  simp [bodies, same]

@[simp] theorem declared_self (bs : List Binder) : declared bs bs = ∅ := by
  induction bs with
  | nil => rfl
  | cons b bs ih => cases given : b.name? <;> simp [declared, given, ih]

theorem functions_self (ps : Params) {body : Comparison} (same : body = .yes) :
    functions ps ps body = .yes := by
  simp [functions, same]

mutual
theorem expr_self : ∀ e : Expr, Comparable (Nodes.expr e) → expr e e = .yes
  | .constant .., _ => by simp [expr, constant]
  | .string .., _ | .number .., _ | .ident .., _ | .table .., _ => by
      simp [expr, string, number, ident]
  | .unary _ _ operand, comparable => by
      simp only [Nodes.expr, List.forall_mem_cons] at comparable
      simp only [expr, expr_self operand comparable.2]
  | .binary _ _ left right, comparable => by
      simp only [Nodes.expr, List.forall_mem_cons, List.forall_mem_append] at comparable
      simp [expr, expr_self left comparable.2.1, expr_self right comparable.2.2]
  | .index _ object key, comparable => by
      simp only [Nodes.expr, List.forall_mem_cons, List.forall_mem_append] at comparable
      simp [expr, expr_self object comparable.2.1, expr_self key comparable.2.2]
  | .call _ callee args _, comparable => by
      simp only [Nodes.expr, List.forall_mem_cons, List.forall_mem_append] at comparable
      simp [expr, expr_self callee comparable.2.1, exprPairs_self args comparable.2.2]
  | .methodCall _ receiver _ args _, comparable => by
      simp only [Nodes.expr, List.forall_mem_cons, List.forall_mem_append] at comparable
      simp [expr, expr_self receiver comparable.2.1, exprPairs_self args comparable.2.2]
  | .function _ ps body, comparable => by
      simp only [Nodes.expr, List.forall_mem_cons, List.forall_mem_append] at comparable
      exact functions_self ps (bodies_self body (stmtPairs_self body comparable.2.2))
  | .wildcard .., comparable => by simp [Comparable, Nodes.expr, Node.isComparable] at comparable
termination_by structural e => e

theorem exprPairs_self : ∀ es : List Expr, Comparable (Nodes.exprs es) → exprPairs es es = .yes
  | [], _ => rfl
  | e :: es, comparable => by
      simp only [Nodes.exprs, List.forall_mem_append] at comparable
      simp [exprPairs, expr_self e comparable.1, exprPairs_self es comparable.2]
termination_by structural es => es

theorem steps_self (span : Span) :
    ∀ step? : Option Expr, Comparable (Nodes.step step?) → steps span span step? step? = .yes
  | none, _ => rfl
  | some e, comparable => expr_self e comparable
termination_by structural step? => step?

theorem stmt_self : ∀ s : Stmt, Comparable (Nodes.stmt s) → stmt s s = .yes
  | .assign _ targets values, comparable => by
      simp only [Nodes.stmt, List.forall_mem_cons, List.forall_mem_append] at comparable
      simp [stmt, exprPairs_self targets comparable.2.1, exprPairs_self values comparable.2.2]
  | .localVars _ names values, comparable => by
      simp only [Nodes.stmt, List.forall_mem_cons, List.forall_mem_append] at comparable
      simp [stmt, exprPairs_self values comparable.2.2]
  | .call _ call, comparable => by
      simp only [Nodes.stmt, List.forall_mem_cons] at comparable
      exact expr_self call comparable.2
  | .doBlock _ body, comparable => by
      simp only [Nodes.stmt, List.forall_mem_cons] at comparable
      exact bodies_self body (stmtPairs_self body comparable.2)
  | .whileLoop _ condition body, comparable => by
      simp only [Nodes.stmt, List.forall_mem_cons, List.forall_mem_append] at comparable
      simp [stmt, expr_self condition comparable.2.1,
        bodies_self body (stmtPairs_self body comparable.2.2)]
  | .repeatLoop _ body condition, comparable => by
      simp only [Nodes.stmt, List.forall_mem_cons, List.forall_mem_append] at comparable
      simp [stmt, expr_self condition comparable.2.2,
        bodies_self body (stmtPairs_self body comparable.2.1)]
  | .localFunction _ _ ps body, comparable => by
      simp only [Nodes.stmt, List.forall_mem_cons, List.forall_mem_append] at comparable
      exact functions_self ps (bodies_self body (stmtPairs_self body comparable.2.2))
  | .function _ target _ ps body, comparable => by
      simp only [Nodes.stmt, List.forall_mem_cons, List.forall_mem_append] at comparable
      simp [stmt, expr_self target comparable.2.1,
        functions_self ps (bodies_self body (stmtPairs_self body comparable.2.2.2))]
  | .returnStmt _ values, comparable => by
      simp only [Nodes.stmt, List.forall_mem_cons] at comparable
      simp [stmt, exprPairs_self values comparable.2]
  | .ifStmt _ condition thenBody elseBody, comparable => by
      simp only [Nodes.stmt, List.forall_mem_cons, List.forall_mem_append] at comparable
      simp [stmt, expr_self condition comparable.2.1,
        bodies_self thenBody (stmtPairs_self thenBody comparable.2.2.1),
        bodies_self elseBody (stmtPairs_self elseBody comparable.2.2.2)]
  | .breakStmt _, _ => rfl
  | .numericFor span _ start limit step? body, comparable => by
      simp only [Nodes.stmt, List.forall_mem_cons, List.forall_mem_append] at comparable
      simp [stmt, steps_self span step? comparable.2.2.2.1,
        bodies_self body (stmtPairs_self body comparable.2.2.2.2)]
  | .genericFor _ _ es body, comparable => by
      simp only [Nodes.stmt, List.forall_mem_cons, List.forall_mem_append] at comparable
      simp [stmt, exprPairs_self es comparable.2.1,
        bodies_self body (stmtPairs_self body comparable.2.2)]
  | .continueStmt _, comparable | .wildcard .., comparable => by
      simp [Comparable, Nodes.stmt, Node.isComparable] at comparable
termination_by structural s => s

theorem stmtPairs_self : ∀ ss : List Stmt, Comparable (Nodes.stmts ss) → stmtPairs ss ss = .yes
  | [], _ => rfl
  | s :: ss, comparable => by
      simp only [Nodes.stmts, List.forall_mem_append] at comparable
      simp [stmtPairs, stmt_self s comparable.1, stmtPairs_self ss comparable.2]
termination_by structural ss => ss
end

end Compare

section Blocks

variable {inner : Block → Outcome Verdict} {policy : CapturePolicy} {template : List Stmt}

theorem meet_self {s : Stmt} (same : Compare.stmt s s = .yes) (start : Nat) (rest : List Stmt) :
    Scan.Run.meet policy ⟨start, ∅, s :: rest⟩ s = ⟨.ok (some ⟨start, ∅, rest⟩), ∅⟩ := by
  simp [Scan.Run.meet, same, Comparison.yes]

theorem greedyFrom_run {rest : List Stmt} (nonempty : rest ≠ [])
    (same : ∀ s ∈ rest, Compare.stmt s s = .yes) (start index : Nat) :
    Scan.greedyFrom inner policy template rest index (some ⟨start, ∅, rest⟩) =
      ⟨.ok (.found start (index + rest.length)), ∅⟩ := by
  induction rest generalizing index with
  | nil => contradiction
  | cons s rest ih =>
    obtain ⟨first, others⟩ := List.forall_mem_cons.mp same
    by_cases last : rest = []
    · simp [Scan.greedyFrom, Scan.advance, meet_self first, last]
    · have behind := ih last others (index + 1)
      simp only [Scan.greedyFrom, Scan.advance, Outcome.bind_eq, meet_self first,
        Outcome.andThen_ok, Outcome.pure_eq, List.isEmpty_iff, last, if_false, behind]
      simp [Nat.add_comm, Nat.add_left_comm]

theorem greedy_itself {chunk : Block} (nonempty : chunk ≠ [])
    (same : ∀ s ∈ chunk, Compare.stmt s s = .yes) :
    Scan.greedy inner policy chunk chunk = ⟨.ok (.found 0 chunk.length), ∅⟩ := by
  have begun : Scan.greedyFrom inner policy chunk chunk 0 none =
      Scan.greedyFrom inner policy chunk chunk 0 (some ⟨0, ∅, chunk⟩) := by
    obtain ⟨s, rest, rfl⟩ := List.exists_cons_of_ne_nil nonempty
    have first := same s List.mem_cons_self
    simp [Scan.greedyFrom, Scan.advance, meet_self first]
  simp only [Scan.greedy, List.isEmpty_iff, nonempty, if_false]
  rw [begun, greedyFrom_run nonempty same, Nat.zero_add]

theorem exhaustive_itself {chunk : Block} (nonempty : chunk ≠ [])
    (same : Compare.stmtPairs chunk chunk = .yes) :
    Scan.exhaustive inner policy chunk chunk = ⟨.ok (.found 0 chunk.length), ∅⟩ := by
  obtain ⟨s, rest, rfl⟩ := List.exists_cons_of_ne_nil nonempty
  simp [Scan.exhaustive, Scan.exhaustiveFrom, Scan.window, same, Comparison.yes]

end Blocks

/-- Whatever the mode and the policy, a block in which all can be compared is found in itself, and
    nothing is recorded. -/
theorem levels_itself {chunk : Block} (nonempty : chunk ≠ [])
    (comparable : Comparable (Nodes.stmts chunk)) (options : Options) (left : Nat) :
    Scan.levels chunk options (left + 1) chunk = ⟨.ok (.found 0 chunk.length), ∅⟩ := by
  have same (s : Stmt) (member : s ∈ chunk) : Compare.stmt s s = .yes := by
    apply Compare.stmt_self
    intro node inside
    exact comparable node (Nodes.stmt_subset_stmts member inside)
  simp only [Scan.levels]
  split
  · exact greedy_itself nonempty same
  · exact exhaustive_itself nonempty (Compare.stmtPairs_self chunk comparable)

theorem comparable_of_parse {source : String} {chunk : Block} (read : parse source = .ok chunk)
    (straight : ∀ span, .stmt (.continueStmt span) ∉ Nodes.stmts chunk) :
    Comparable (Nodes.stmts chunk) := by
  obtain ⟨_, formed⟩ := formed_of_parse read
  intro node member
  have here := formed node member
  unfold Node.isComparable
  split
  · exact absurd here id
  · exact absurd here id
  · rename_i span
    exact absurd member (straight span)
  · rfl

theorem search_eq_find {source text : String} {options : Options} {pattern chunk : Block}
    {template : Template} (readTemplate : parse text = .ok pattern)
    (lowered : Template.ofChunk pattern = .ok template) (read : parse source = .ok chunk) :
    search source text options = (find chunk template options).mapError .refused := by
  unfold search
  rw [readTemplate, read]
  change (Template.ofChunk pattern).mapError SearchError.refused >>= _ = _
  rw [lowered]
  rfl

/-- Code finds itself: a text that is not empty, in which there is neither a marker nor a
    `continue`, is found in itself from the first statement to the last under all options whose
    limit is not below its depth, and nothing is captured. -/
theorem search_itself {source : String} {chunk : Block} {options : Options}
    (read : parse source = .ok chunk) (nonempty : chunk ≠ [])
    (unmarked : ∀ node ∈ Nodes.stmts chunk, node.isMarker = false)
    (straight : ∀ span, .stmt (.continueStmt span) ∉ Nodes.stmts chunk)
    (enough : Block.depth chunk ≤ options.maxDepth) :
    search source source options = .ok ⟨.found 0 chunk.length, ∅⟩ := by
  have lowered := ofChunk_eq_self nonempty unmarked
  have comparable := comparable_of_parse read straight
  have found : find chunk ⟨chunk, nonempty⟩ options = .ok ⟨.found 0 chunk.length, ∅⟩ := by
    obtain ⟨left, limit⟩ : ∃ left, options.maxDepth = left + 1 :=
      ⟨options.maxDepth - 1, by simp only [Block.depth] at enough; omega⟩
    have fits : (⟨chunk, nonempty⟩ : Template).depth ≤ options.maxDepth := enough
    have ran : scan chunk options chunk = ⟨.ok (.found 0 chunk.length), ∅⟩ := by
      rw [scan, limit]
      exact levels_itself nonempty comparable options left
    exact find_eq_of_scan fits ran
  rw [search_eq_find read lowered read, found]
  rfl

/-- A conditional and an assignment, at the least limit. -/
theorem search_itself_conditional :
    let source := "if a then f(\"s\") end x = 1"
    let chunk : Block := [.ifStmt ⟨0, 20⟩ (.ident ⟨3, 4⟩ "a")
      [.call ⟨10, 16⟩ (.call ⟨10, 16⟩ (.ident ⟨10, 11⟩ "f") [.string ⟨12, 15⟩ "s"] false)] [],
      .assign ⟨21, 26⟩ [.ident ⟨21, 22⟩ "x"] [.number ⟨25, 26⟩ "1"]]
    let options : Options := ⟨.greedy, .retain, 2⟩
    parse source = .ok chunk ∧ Block.depth chunk = 2 ∧
      search source source options = .ok ⟨.found 0 2, ∅⟩ := by
  intro source chunk options
  have read : parse source = .ok chunk := by
    rw [parse_eq_chunkReader (by decide +kernel)]
    dsimp only [source, chunk]
    rfl
  refine ⟨read, rfl, search_itself read (by simp [chunk]) (by decide) ?_ (by decide)⟩
  simp [chunk, Nodes.stmts, Nodes.stmt, Nodes.exprs, Nodes.expr]

end LuaSearch
