import LuaSearch.Proofs.Lowering
import LuaSearch.Proofs.Match.Rules
import LuaSearch.Proofs.Match.Widening

/-!
Lowering widens a template. A marker is a name, and every wildcard for expressions takes names; a
marked local function takes local functions, as a plain one does; a binder is never compared. So by
each rule of comparing, what a template takes as it is written it takes lowered. A call of the `if`
marker is the exception: as written it takes calls, and lowered it takes conditionals.
-/
namespace LuaSearch

/-- A call statement of the `if` marker. -/
def Node.isIfCall : Node → Bool
  | .stmt (.call _ e) => Marker.isIfCall e
  | _ => false

def NoIfCall (nodes : List Node) : Prop := ∀ node ∈ nodes, node.isIfCall = false

instance (nodes : List Node) : Decidable (NoIfCall nodes) :=
  inferInstanceAs (Decidable (∀ node ∈ nodes, node.isIfCall = false))

@[simp] theorem noIfCall_cons {node : Node} {nodes : List Node} :
    NoIfCall (node :: nodes) ↔ node.isIfCall = false ∧ NoIfCall nodes :=
  List.forall_mem_cons

@[simp] theorem noIfCall_append {front back : List Node} :
    NoIfCall (front ++ back) ↔ NoIfCall front ∧ NoIfCall back :=
  List.forall_mem_append

theorem noIfCall_of_mem {chunk : Block} (free : NoIfCall (Nodes.stmts chunk)) {s : Stmt}
    (member : s ∈ chunk) : NoIfCall (Nodes.stmt s) :=
  fun node inside => free node (Nodes.stmt_subset_stmts member inside)

theorem matches_lower_name (span span' : Span) (name name' : String) :
    ∃ kept, MatchesExpr (.ident span name) (Lower.name span' name') kept := by
  unfold Lower.name
  split
  · exact ⟨_, .takenName ..⟩
  · exact ⟨_, .ident ..⟩

theorem ParamsMatch.lower {p q : Params} (same : ParamsMatch p q) :
    ParamsMatch p (Lower.params q) :=
  ⟨same.hasVarargs, by simpa [Lower.params] using same.names⟩

mutual
theorem MatchesExpr.lower : ∀ {e t : Expr} {a : Captures}, MatchesExpr e t a →
    NoIfCall (Nodes.expr t) → ∃ kept, MatchesExpr e (Lower.expr t) kept
  | _, _, _, .constant .., _ => ⟨_, .constant ..⟩
  | _, _, _, .string .., _ => ⟨_, .string ..⟩
  | _, _, _, .number .., _ => ⟨_, .number ..⟩
  | _, _, _, .ident span span' name name', _ => matches_lower_name span span' name name'
  | _, _, _, .takenString .., _ => ⟨_, .takenString ..⟩
  | _, _, _, .takenNumber .., _ => ⟨_, .takenNumber ..⟩
  | _, _, _, .takenName .., _ => ⟨_, .takenName ..⟩
  | _, _, _, .takenFunction .., _ => ⟨_, .takenFunction ..⟩
  | _, _, _, .unary _ _ _ _ operand, free => by
      simp only [Nodes.expr, noIfCall_cons] at free
      obtain ⟨_, operands⟩ := operand.lower free.2
      exact ⟨_, .unary _ _ _ _ operands⟩
  | _, _, _, .binary _ _ _ left right, free => by
      simp only [Nodes.expr, noIfCall_cons, noIfCall_append] at free
      obtain ⟨_, lefts⟩ := left.lower free.2.1
      obtain ⟨_, rights⟩ := right.lower free.2.2
      exact ⟨_, .binary _ _ _ lefts rights⟩
  | _, _, _, .index _ _ object key, free => by
      simp only [Nodes.expr, noIfCall_cons, noIfCall_append] at free
      obtain ⟨_, objects⟩ := object.lower free.2.1
      obtain ⟨_, keys⟩ := key.lower free.2.2
      exact ⟨_, .index _ _ objects keys⟩
  | _, _, _, .table .., _ => ⟨_, .table ..⟩
  | _, _, _, .call _ _ _ callee args, free => by
      simp only [Nodes.expr, noIfCall_cons, noIfCall_append] at free
      obtain ⟨_, callees⟩ := callee.lower free.2.1
      obtain ⟨_, given⟩ := args.lower free.2.2
      exact ⟨_, .call _ _ _ callees given⟩
  | _, _, _, .methodCall _ _ _ _ _ receiver args, free => by
      simp only [Nodes.expr, noIfCall_cons, noIfCall_append] at free
      obtain ⟨_, receivers⟩ := receiver.lower free.2.1
      obtain ⟨_, given⟩ := args.lower free.2.2
      exact ⟨_, .methodCall _ _ _ _ _ receivers given⟩
  | _, _, _, .function _ _ params bodies, free => by
      simp only [Nodes.expr, noIfCall_cons, noIfCall_append] at free
      obtain ⟨_, inside⟩ := bodies.lower free.2.2
      exact ⟨_, .function _ _ params.lower inside⟩
termination_by structural _ _ _ h => h

theorem MatchesExprs.lower : ∀ {es ts : List Expr} {a : Captures}, MatchesExprs es ts a →
    NoIfCall (Nodes.exprs ts) → ∃ kept, MatchesExprs es (Lower.exprs ts) kept
  | _, _, _, .nil, _ => ⟨_, .nil⟩
  | _, _, _, .cons first rest, free => by
      simp only [Nodes.exprs, noIfCall_append] at free
      obtain ⟨_, firsts⟩ := first.lower free.1
      obtain ⟨_, rests⟩ := rest.lower free.2
      exact ⟨_, .cons firsts rests⟩
termination_by structural _ _ _ h => h

theorem MatchesStep.lower : ∀ {span span' : Span} {e t : Option Expr} {a : Captures},
    MatchesStep span span' e t a → NoIfCall (Nodes.step t) →
      ∃ kept, MatchesStep span span' e (Lower.step t) kept
  | _, _, _, _, _, .absent .., _ => ⟨_, .absent ..⟩
  | _, _, _, _, _, .omitted _ one, free => by
      obtain ⟨_, ones⟩ := one.lower free
      exact ⟨_, .omitted _ ones⟩
  | _, _, _, _, _, .written _ one, _ => ⟨_, .written _ one⟩
  | _, _, _, _, _, .given _ _ step, free => by
      obtain ⟨_, steps⟩ := step.lower free
      exact ⟨_, .given _ _ steps⟩
termination_by structural _ _ _ _ _ h => h

theorem MatchesStmt.lower : ∀ {s t : Stmt} {a : Captures}, MatchesStmt s t a →
    NoIfCall (Nodes.stmt t) → ∃ kept, MatchesStmt s (Lower.stmt t) kept
  | _, _, _, .assign _ _ targets values, free => by
      simp only [Nodes.stmt, noIfCall_cons, noIfCall_append] at free
      obtain ⟨_, left⟩ := targets.lower free.2.1
      obtain ⟨_, right⟩ := values.lower free.2.2
      exact ⟨_, .assign _ _ left right⟩
  | _, _, _, .localVars _ _ names values, free => by
      simp only [Nodes.stmt, noIfCall_cons, noIfCall_append] at free
      obtain ⟨_, right⟩ := values.lower free.2.2
      exact ⟨_, .localVars _ _ (by simpa using names) right⟩
  | _, _, _, .call _ _ call, free => by
      simp only [Nodes.stmt, noIfCall_cons, Node.isIfCall] at free
      obtain ⟨_, calls⟩ := call.lower free.2
      simp only [Lower.stmt, free.1]
      exact ⟨_, .call _ _ calls⟩
  | _, _, _, .doBlock _ _ bodies, free => by
      simp only [Nodes.stmt, noIfCall_cons] at free
      obtain ⟨_, inside⟩ := bodies.lower free.2
      exact ⟨_, .doBlock _ _ inside⟩
  | _, _, _, .whileLoop _ _ condition bodies, free => by
      simp only [Nodes.stmt, noIfCall_cons, noIfCall_append] at free
      obtain ⟨_, conditions⟩ := condition.lower free.2.1
      obtain ⟨_, inside⟩ := bodies.lower free.2.2
      exact ⟨_, .whileLoop _ _ conditions inside⟩
  | _, _, _, .repeatLoop _ _ condition bodies, free => by
      simp only [Nodes.stmt, noIfCall_cons, noIfCall_append] at free
      obtain ⟨_, conditions⟩ := condition.lower free.2.2
      obtain ⟨_, inside⟩ := bodies.lower free.2.1
      exact ⟨_, .repeatLoop _ _ conditions inside⟩
  | _, _, _, .takenLocalFunction .., _ => ⟨_, .takenLocalFunction ..⟩
  | _, _, _, .localFunction _ _ _ _ params bodies, free => by
      simp only [Nodes.stmt, noIfCall_cons, noIfCall_append] at free
      obtain ⟨_, inside⟩ := bodies.lower free.2.2
      unfold Lower.stmt
      split
      · exact ⟨_, .takenLocalFunction ..⟩
      · exact ⟨_, .localFunction _ _ _ _ params.lower inside⟩
  | _, _, _, .function _ _ methods target params bodies, free => by
      simp only [Nodes.stmt, noIfCall_cons, noIfCall_append] at free
      obtain ⟨_, targets⟩ := target.lower free.2.1
      obtain ⟨_, inside⟩ := bodies.lower free.2.2.2
      exact ⟨_, .function _ _ methods targets params.lower inside⟩
  | _, _, _, .returnStmt _ _ values, free => by
      simp only [Nodes.stmt, noIfCall_cons] at free
      obtain ⟨_, given⟩ := values.lower free.2
      exact ⟨_, .returnStmt _ _ given⟩
  | _, _, _, .takenIf .., _ => ⟨_, .takenIf ..⟩
  | _, _, _, .ifStmt _ _ condition thens elses, free => by
      simp only [Nodes.stmt, noIfCall_cons, noIfCall_append] at free
      obtain ⟨_, conditions⟩ := condition.lower free.2.1
      obtain ⟨_, inThen⟩ := thens.lower free.2.2.1
      obtain ⟨_, inElse⟩ := elses.lower free.2.2.2
      exact ⟨_, .ifStmt _ _ conditions inThen inElse⟩
  | _, _, _, .breakStmt .., _ => ⟨_, .breakStmt ..⟩
  | _, _, _, .numericFor _ _ _ _ _ _ _ _ step bodies, free => by
      simp only [Nodes.stmt, noIfCall_cons, noIfCall_append] at free
      obtain ⟨_, steps⟩ := step.lower free.2.2.2.1
      obtain ⟨_, inside⟩ := bodies.lower free.2.2.2.2
      exact ⟨_, .numericFor _ _ _ _ _ _ _ _ steps inside⟩
  | _, _, _, .genericFor _ _ names exprs bodies, free => by
      simp only [Nodes.stmt, noIfCall_cons, noIfCall_append] at free
      obtain ⟨_, given⟩ := exprs.lower free.2.1
      obtain ⟨_, inside⟩ := bodies.lower free.2.2
      exact ⟨_, .genericFor _ _ names given inside⟩
termination_by structural _ _ _ h => h

theorem MatchesStmts.lower : ∀ {ss ts : List Stmt} {a : Captures}, MatchesStmts ss ts a →
    NoIfCall (Nodes.stmts ts) → ∃ kept, MatchesStmts ss (Lower.stmts ts) kept
  | _, _, _, .nil, _ => ⟨_, .nil⟩
  | _, _, _, .cons first rest, free => by
      simp only [Nodes.stmts, noIfCall_append] at free
      obtain ⟨_, firsts⟩ := first.lower free.1
      obtain ⟨_, rests⟩ := rest.lower free.2
      exact ⟨_, .cons firsts rests⟩
termination_by structural _ _ _ h => h

theorem MatchesBlock.lower : ∀ {body block : Block} {a : Captures}, MatchesBlock body block a →
    NoIfCall (Nodes.stmts block) → ∃ kept, MatchesBlock body (Lower.stmts block) kept
  | _, _, _, .empty body, _ => ⟨_, .empty body⟩
  | _, _, _, .same pairs, free => by
      obtain ⟨_, both⟩ := pairs.lower free
      exact ⟨_, .same both⟩
termination_by structural _ _ _ h => h
end

namespace Compare

theorem expr_lower {c t : Expr} (free : NoIfCall (Nodes.expr t))
    (holds : (expr c t).holds = true) : (expr c (Lower.expr t)).holds = true := by
  rw [expr_holds_iff] at holds ⊢
  obtain ⟨_, held⟩ := holds
  exact held.lower free

theorem exprs_lower {cs ts : List Expr} (free : NoIfCall (Nodes.exprs ts))
    (holds : (exprs cs ts).holds = true) : (exprs cs (Lower.exprs ts)).holds = true := by
  rw [exprs_holds_iff] at holds ⊢
  obtain ⟨_, held⟩ := holds
  exact held.lower free

theorem stmt_lower {c t : Stmt} (free : NoIfCall (Nodes.stmt t))
    (holds : (stmt c t).holds = true) : (stmt c (Lower.stmt t)).holds = true := by
  rw [stmt_holds_iff] at holds ⊢
  obtain ⟨_, held⟩ := holds
  exact held.lower free

theorem stmts_lower {cs ts : Block} (free : NoIfCall (Nodes.stmts ts))
    (holds : (stmts cs ts).holds = true) : (stmts cs (Lower.stmts ts)).holds = true := by
  rw [stmts_holds_iff] at holds ⊢
  obtain ⟨_, held⟩ := holds
  exact held.lower free

end Compare

theorem widens_lower {chunk : Block} (free : NoIfCall (Nodes.stmts chunk)) :
    Widens chunk (Lower.stmts chunk) where
  length := by simp [Lower.stmts_eq_map]
  each k inside _ c holds := by
    simp only [Lower.stmts_eq_map, List.getElem_map]
    exact Compare.stmt_lower (noIfCall_of_mem free (List.getElem_mem inside)) holds

/-- Lowering only widens: whatever a statement, an expression or a list of either takes as it is
    written it takes when it is lowered, if no call statement of the `if` marker is anywhere in it.
    Hence a template of such statements is found where the exhaustive scan for them as they are
    written has a match, if the search for the template gives an answer. -/
theorem lowering_widens :
    (∀ c t, NoIfCall (Nodes.stmt t) → (Compare.stmt c t).holds = true →
      (Compare.stmt c (Lower.stmt t)).holds = true) ∧
    (∀ cs ts, NoIfCall (Nodes.stmts ts) → (Compare.stmts cs ts).holds = true →
      (Compare.stmts cs (Lower.stmts ts)).holds = true) ∧
    (∀ c t, NoIfCall (Nodes.expr t) → (Compare.expr c t).holds = true →
      (Compare.expr c (Lower.expr t)).holds = true) ∧
    (∀ cs ts, NoIfCall (Nodes.exprs ts) → (Compare.exprs cs ts).holds = true →
      (Compare.exprs cs (Lower.exprs ts)).holds = true) ∧
    ∀ (candidate chunk : Block) (template : Template) (options options' : Options)
      (verdict : Verdict) (found : Found), NoIfCall (Nodes.stmts chunk) →
      Template.ofChunk chunk = .ok template →
      options.scan = .exhaustive → options'.scan = .exhaustive →
      (scan chunk options candidate).answer = .ok verdict → verdict.isMatch = true →
      find candidate template options' = .ok found → found.verdict.isMatch = true := by
  refine ⟨?_, ?_, ?_, ?_, ?_⟩
  · intro c t free holds
    exact Compare.stmt_lower free holds
  · intro cs ts free holds
    exact Compare.stmts_lower free holds
  · intro c t free holds
    exact Compare.expr_lower free holds
  · intro cs ts free holds
    exact Compare.exprs_lower free holds
  · intro candidate chunk template options options' verdict found free written mode mode' ok isMatch
      ok'
    have nonempty : chunk ≠ [] := by
      rintro rfl
      cases written
    obtain ⟨kept, lowered⟩ := ofChunk_eq nonempty
    obtain rfl : ⟨Lower.stmts chunk, kept⟩ = template := by
      rw [lowered] at written
      exact Except.ok.inj written
    exact (widens_lower free).isMatch nonempty mode mode' ok (answer_of_find ok') isMatch

/-- The template `local function _LocalFunctionStmt_(_IdentExpr_) end f(_NumberExpr_)` in a block: the
    plain scan takes the marker in the call as a name, the search as a wildcard, and a number in its
    place is what the search takes beyond that. -/
theorem lowering_widens_function :
    let span : Span := default
    let call (e : Expr) : Stmt := .call span (.call span (.ident span "f") [e] false)
    let marked : Block :=
      [.localFunction span "_LocalFunctionStmt_" ⟨[⟨span, some "_IdentExpr_"⟩], false⟩ [],
        call (.ident span "_NumberExpr_")]
    let candidate (e : Expr) : Block := [.doBlock span
      [.localFunction span "g" ⟨[⟨span, some "a"⟩], false⟩ [.breakStmt span], call e]]
    let options : Options := ⟨.exhaustive, .discard, defaultMaxDepth⟩
    NoIfCall (Nodes.stmts marked) ∧
      (scan marked options (candidate (.ident span "y"))).answer = .ok (.nested .block) ∧
      (scan marked options (candidate (.number span "3"))).answer = .ok .noMatch ∧
      ∃ template found more, Template.ofChunk marked = .ok template ∧
        find (candidate (.ident span "y")) template options = .ok found ∧
        found.verdict.isMatch = true ∧
        find (candidate (.number span "3")) template options = .ok more ∧
        more.verdict.isMatch = true := by
  intro span call marked candidate options
  have free : NoIfCall (Nodes.stmts marked) := by decide
  have ok : (scan marked options (candidate (.ident span "y"))).answer = .ok (.nested .block) := rfl
  obtain ⟨_, _, _, _, searches⟩ := lowering_widens
  refine ⟨free, ok, rfl, _, _, _, rfl, rfl, ?_, rfl, rfl⟩
  exact searches (candidate (.ident span "y")) marked _ options options _ _ free rfl rfl rfl ok rfl
    rfl

end LuaSearch
