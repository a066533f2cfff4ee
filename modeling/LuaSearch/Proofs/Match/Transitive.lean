import LuaSearch.Proofs.Match.Rules
import LuaSearch.Proofs.Match.Widening

/-!
Matching is transitive. What matches a template also matches every template that this one matches
as a candidate: the rules compose, since a wildcard in the middle matches nothing, an empty body in
the middle matches empty bodies only, and a step that is left out counts as a number wherever it is
left out. So a more general template occurs wherever a more special one does, and the exhaustive
search, which misses no occurrence, finds it there.
-/
namespace LuaSearch

theorem MatchesExpr.ofNumber {span : Span} {text : String} {t : Expr} {kept : Captures}
    (first : MatchesExpr (.number span text) t kept) (span' : Span) (text' : String) :
    ∃ kept', MatchesExpr (.number span' text') t kept' := by
  cases first with
  | number => exact ⟨_, .number ..⟩
  | takenNumber => exact ⟨_, .takenNumber ..⟩

theorem MatchesExpr.toNumber {e : Expr} {span : Span} {text : String} {kept : Captures}
    (first : MatchesExpr e (.number span text) kept) (span' : Span) (text' : String) :
    ∃ kept', MatchesExpr e (.number span' text') kept' := by
  cases first with
  | number => exact ⟨_, .number ..⟩

theorem ParamsMatch.trans {p q r : Params} (first : ParamsMatch p q) (second : ParamsMatch q r) :
    ParamsMatch p r :=
  ⟨first.hasVarargs.trans second.hasVarargs, first.names.trans second.names⟩

mutual
theorem MatchesExpr.trans : ∀ {c t u : Expr} {a b : Captures},
    MatchesExpr c t a → MatchesExpr t u b → ∃ kept, MatchesExpr c u kept
  | _, _, _, _, _, .constant .., second => by
      cases second with
      | constant => exact ⟨_, .constant ..⟩
  | _, _, _, _, _, .string .., second => by
      cases second with
      | string => exact ⟨_, .string ..⟩
      | takenString => exact ⟨_, .takenString ..⟩
  | _, _, _, _, _, .number .., second => second.ofNumber _ _
  | _, _, _, _, _, .ident .., second => by
      cases second with
      | ident => exact ⟨_, .ident ..⟩
      | takenName => exact ⟨_, .takenName ..⟩
  | _, _, _, _, _, .takenString .., second | _, _, _, _, _, .takenNumber .., second
  | _, _, _, _, _, .takenName .., second | _, _, _, _, _, .takenFunction .., second => nomatch second
  | _, _, _, _, _, .unary _ _ _ _ operand, second => by
      cases second with
      | unary _ _ _ _ operand' =>
        obtain ⟨_, operands⟩ := operand.trans operand'
        exact ⟨_, .unary _ _ _ _ operands⟩
  | _, _, _, _, _, .binary _ _ _ left right, second => by
      cases second with
      | binary _ _ _ left' right' =>
        obtain ⟨_, lefts⟩ := left.trans left'
        obtain ⟨_, rights⟩ := right.trans right'
        exact ⟨_, .binary _ _ _ lefts rights⟩
  | _, _, _, _, _, .index _ _ object key, second => by
      cases second with
      | index _ _ object' key' =>
        obtain ⟨_, objects⟩ := object.trans object'
        obtain ⟨_, keys⟩ := key.trans key'
        exact ⟨_, .index _ _ objects keys⟩
  | _, _, _, _, _, .table .., second => by
      cases second with
      | table => exact ⟨_, .table ..⟩
  | _, _, _, _, _, .call _ _ _ callee args, second => by
      cases second with
      | call _ _ _ callee' args' =>
        obtain ⟨_, callees⟩ := callee.trans callee'
        obtain ⟨_, given⟩ := args.trans args'
        exact ⟨_, .call _ _ _ callees given⟩
  | _, _, _, _, _, .methodCall _ _ _ _ _ receiver args, second => by
      cases second with
      | methodCall _ _ _ _ _ receiver' args' =>
        obtain ⟨_, receivers⟩ := receiver.trans receiver'
        obtain ⟨_, given⟩ := args.trans args'
        exact ⟨_, .methodCall _ _ _ _ _ receivers given⟩
  | _, _, _, _, _, .function _ _ params bodies, second => by
      cases second with
      | function _ _ params' bodies' =>
        obtain ⟨_, inside⟩ := bodies.trans bodies'
        exact ⟨_, .function _ _ (params.trans params') inside⟩
      | takenFunction => exact ⟨_, .takenFunction ..⟩
termination_by structural _ _ _ _ _ h => h

theorem MatchesExprs.trans : ∀ {cs ts us : List Expr} {a b : Captures},
    MatchesExprs cs ts a → MatchesExprs ts us b → ∃ kept, MatchesExprs cs us kept
  | _, _, _, _, _, .nil, second => by
      cases second with
      | nil => exact ⟨_, .nil⟩
  | _, _, _, _, _, .cons first rest, second => by
      cases second with
      | cons first' rest' =>
        obtain ⟨_, firsts⟩ := first.trans first'
        obtain ⟨_, rests⟩ := rest.trans rest'
        exact ⟨_, .cons firsts rests⟩
termination_by structural _ _ _ _ _ h => h

theorem MatchesStep.trans : ∀ {span span' span'' : Span} {c t u : Option Expr} {a b : Captures},
    MatchesStep span span' c t a → MatchesStep span' span'' t u b →
      ∃ kept, MatchesStep span span'' c u kept
  | span, _, _, _, _, _, _, _, .absent .., second => by
      cases second with
      | absent => exact ⟨_, .absent ..⟩
      | omitted _ one =>
        obtain ⟨_, other⟩ := one.ofNumber span "1"
        exact ⟨_, .omitted _ other⟩
  | _, _, _, _, _, _, _, _, .omitted _ one, second => by
      cases second with
      | written => exact ⟨_, .absent ..⟩
      | given _ _ step =>
        obtain ⟨_, steps⟩ := one.trans step
        exact ⟨_, .omitted _ steps⟩
  | _, _, span'', _, _, _, _, _, .written _ one, second => by
      cases second with
      | absent =>
        obtain ⟨_, other⟩ := one.toNumber span'' "1"
        exact ⟨_, .written _ other⟩
      | omitted _ one' =>
        obtain ⟨_, steps⟩ := one.trans one'
        exact ⟨_, .given _ _ steps⟩
  | _, _, _, _, _, _, _, _, .given _ _ step, second => by
      cases second with
      | written _ one =>
        obtain ⟨_, steps⟩ := step.trans one
        exact ⟨_, .written _ steps⟩
      | given _ _ step' =>
        obtain ⟨_, steps⟩ := step.trans step'
        exact ⟨_, .given _ _ steps⟩
termination_by structural _ _ _ _ _ _ _ _ h => h

theorem MatchesStmt.trans : ∀ {c t u : Stmt} {a b : Captures},
    MatchesStmt c t a → MatchesStmt t u b → ∃ kept, MatchesStmt c u kept
  | _, _, _, _, _, .assign _ _ targets values, second => by
      cases second with
      | assign _ _ targets' values' =>
        obtain ⟨_, left⟩ := targets.trans targets'
        obtain ⟨_, right⟩ := values.trans values'
        exact ⟨_, .assign _ _ left right⟩
  | _, _, _, _, _, .localVars _ _ names values, second => by
      cases second with
      | localVars _ _ names' values' =>
        obtain ⟨_, right⟩ := values.trans values'
        exact ⟨_, .localVars _ _ (names.trans names') right⟩
  | _, _, _, _, _, .call _ _ call, second => by
      cases second with
      | call _ _ call' =>
        obtain ⟨_, calls⟩ := call.trans call'
        exact ⟨_, .call _ _ calls⟩
  | _, _, _, _, _, .doBlock _ _ bodies, second => by
      cases second with
      | doBlock _ _ bodies' =>
        obtain ⟨_, inside⟩ := bodies.trans bodies'
        exact ⟨_, .doBlock _ _ inside⟩
  | _, _, _, _, _, .whileLoop _ _ condition bodies, second => by
      cases second with
      | whileLoop _ _ condition' bodies' =>
        obtain ⟨_, conditions⟩ := condition.trans condition'
        obtain ⟨_, inside⟩ := bodies.trans bodies'
        exact ⟨_, .whileLoop _ _ conditions inside⟩
  | _, _, _, _, _, .repeatLoop _ _ condition bodies, second => by
      cases second with
      | repeatLoop _ _ condition' bodies' =>
        obtain ⟨_, conditions⟩ := condition.trans condition'
        obtain ⟨_, inside⟩ := bodies.trans bodies'
        exact ⟨_, .repeatLoop _ _ conditions inside⟩
  | _, _, _, _, _, .takenLocalFunction .., second | _, _, _, _, _, .takenIf .., second =>
      nomatch second
  | _, _, _, _, _, .localFunction _ _ _ _ params bodies, second => by
      cases second with
      | takenLocalFunction => exact ⟨_, .takenLocalFunction ..⟩
      | localFunction _ _ _ _ params' bodies' =>
        obtain ⟨_, inside⟩ := bodies.trans bodies'
        exact ⟨_, .localFunction _ _ _ _ (params.trans params') inside⟩
  | _, _, _, _, _, .function _ _ methods target params bodies, second => by
      cases second with
      | function _ _ methods' target' params' bodies' =>
        obtain ⟨_, targets⟩ := target.trans target'
        obtain ⟨_, inside⟩ := bodies.trans bodies'
        exact ⟨_, .function _ _ (methods.trans methods') targets (params.trans params') inside⟩
  | _, _, _, _, _, .returnStmt _ _ values, second => by
      cases second with
      | returnStmt _ _ values' =>
        obtain ⟨_, given⟩ := values.trans values'
        exact ⟨_, .returnStmt _ _ given⟩
  | _, _, _, _, _, .ifStmt _ _ condition thens elses, second => by
      cases second with
      | takenIf => exact ⟨_, .takenIf ..⟩
      | ifStmt _ _ condition' thens' elses' =>
        obtain ⟨_, conditions⟩ := condition.trans condition'
        obtain ⟨_, inThen⟩ := thens.trans thens'
        obtain ⟨_, inElse⟩ := elses.trans elses'
        exact ⟨_, .ifStmt _ _ conditions inThen inElse⟩
  | _, _, _, _, _, .breakStmt .., second => by
      cases second with
      | breakStmt => exact ⟨_, .breakStmt ..⟩
  | _, _, _, _, _, .numericFor _ _ _ _ _ _ _ _ step bodies, second => by
      cases second with
      | numericFor _ _ _ _ _ _ _ _ step' bodies' =>
        obtain ⟨_, steps⟩ := step.trans step'
        obtain ⟨_, inside⟩ := bodies.trans bodies'
        exact ⟨_, .numericFor _ _ _ _ _ _ _ _ steps inside⟩
  | _, _, _, _, _, .genericFor _ _ names exprs bodies, second => by
      cases second with
      | genericFor _ _ names' exprs' bodies' =>
        obtain ⟨_, given⟩ := exprs.trans exprs'
        obtain ⟨_, inside⟩ := bodies.trans bodies'
        exact ⟨_, .genericFor _ _ (names.trans names') given inside⟩
termination_by structural _ _ _ _ _ h => h

theorem MatchesStmts.trans : ∀ {cs ts us : List Stmt} {a b : Captures},
    MatchesStmts cs ts a → MatchesStmts ts us b → ∃ kept, MatchesStmts cs us kept
  | _, _, _, _, _, .nil, second => by
      cases second with
      | nil => exact ⟨_, .nil⟩
  | _, _, _, _, _, .cons first rest, second => by
      cases second with
      | cons first' rest' =>
        obtain ⟨_, firsts⟩ := first.trans first'
        obtain ⟨_, rests⟩ := rest.trans rest'
        exact ⟨_, .cons firsts rests⟩
termination_by structural _ _ _ _ _ h => h

theorem MatchesBlock.trans : ∀ {body block other : Block} {a b : Captures},
    MatchesBlock body block a → MatchesBlock block other b → ∃ kept, MatchesBlock body other kept
  -- Only an empty template comes behind an empty one.
  | _, _, _, _, _, .empty body, second => by
      cases second with
      | empty => exact ⟨_, .empty body⟩
      | same pairs =>
        cases pairs with
        | nil => exact ⟨_, .empty body⟩
  | _, _, _, _, _, .same pairs, second => by
      cases second with
      | empty => exact ⟨_, .empty _⟩
      | same pairs' =>
        obtain ⟨_, both⟩ := pairs.trans pairs'
        exact ⟨_, .same both⟩
termination_by structural _ _ _ _ _ h => h
end

namespace Compare

theorem expr_trans {c t u : Expr} (first : (expr c t).holds = true)
    (second : (expr t u).holds = true) : (expr c u).holds = true := by
  rw [expr_holds_iff] at first second ⊢
  obtain ⟨_, first⟩ := first
  obtain ⟨_, second⟩ := second
  exact first.trans second

theorem exprs_trans {cs ts us : List Expr} (first : (exprs cs ts).holds = true)
    (second : (exprs ts us).holds = true) : (exprs cs us).holds = true := by
  rw [exprs_holds_iff] at first second ⊢
  obtain ⟨_, first⟩ := first
  obtain ⟨_, second⟩ := second
  exact first.trans second

theorem stmt_trans {c t u : Stmt} (first : (stmt c t).holds = true)
    (second : (stmt t u).holds = true) : (stmt c u).holds = true := by
  rw [stmt_holds_iff] at first second ⊢
  obtain ⟨_, first⟩ := first
  obtain ⟨_, second⟩ := second
  exact first.trans second

theorem stmts_trans {cs ts us : Block} (first : (stmts cs ts).holds = true)
    (second : (stmts ts us).holds = true) : (stmts cs us).holds = true := by
  rw [stmts_holds_iff] at first second ⊢
  obtain ⟨_, first⟩ := first
  obtain ⟨_, second⟩ := second
  exact first.trans second

end Compare

/-- Each statement of the first template matches the statement of the second at its place. -/
structure Specializes (special general : List Stmt) : Prop where
  length : special.length = general.length
  each : ∀ k, (inside : k < special.length) → (inside' : k < general.length) →
    (Compare.stmt special[k] general[k]).holds = true

theorem Specializes.widens {special general : List Stmt} (specializes : Specializes special general) :
    Widens special general where
  length := specializes.length
  each k inside inside' _ holds := Compare.stmt_trans holds (specializes.each k inside inside')

theorem Specializes.isMatch {candidate : Block} {special general : Template}
    (specializes : Specializes special.stmts general.stmts) {options options' : Options}
    (mode : options.scan = .exhaustive) (mode' : options'.scan = .exhaustive) {found found' : Found}
    (ok : find candidate special options = .ok found)
    (ok' : find candidate general options' = .ok found')
    (isMatch : found.verdict.isMatch = true) : found'.verdict.isMatch = true :=
  specializes.widens.isMatch special.nonempty mode mode' (answer_of_find ok) (answer_of_find ok')
    isMatch

/-- Comparisons compose, of expressions, statements and lists of either. Hence a template whose
    statements match those of another one finds no more than the other: where an exhaustive search
    for it has a match, an exhaustive search for the other has one too, if it gives an answer. -/
theorem matching_transitive :
    (∀ c t u, (Compare.stmt c t).holds = true → (Compare.stmt t u).holds = true →
      (Compare.stmt c u).holds = true) ∧
    (∀ c t u, (Compare.expr c t).holds = true → (Compare.expr t u).holds = true →
      (Compare.expr c u).holds = true) ∧
    (∀ cs ts us, (Compare.exprs cs ts).holds = true → (Compare.exprs ts us).holds = true →
      (Compare.exprs cs us).holds = true) ∧
    (∀ cs ts us, (Compare.stmts cs ts).holds = true → (Compare.stmts ts us).holds = true →
      (Compare.stmts cs us).holds = true) ∧
    ∀ (candidate : Block) (special general : Template) (options options' : Options)
      (found found' : Found), Specializes special.stmts general.stmts →
      options.scan = .exhaustive → options'.scan = .exhaustive →
      find candidate special options = .ok found → found.verdict.isMatch = true →
      find candidate general options' = .ok found' → found'.verdict.isMatch = true := by
  refine ⟨?_, ?_, ?_, ?_, ?_⟩
  · intro c t u first second
    exact Compare.stmt_trans first second
  · intro c t u first second
    exact Compare.expr_trans first second
  · intro cs ts us first second
    exact Compare.exprs_trans first second
  · intro cs ts us first second
    exact Compare.stmts_trans first second
  · intro candidate special general options options' found found' specializes mode mode' ok
      isMatch ok'
    exact specializes.isMatch mode mode' ok ok' isMatch

/-- A loop in a block that leaves its step out: the special template writes a number for the step
    and asks for a `break`, the general one has a wildcard for the step and takes any body. -/
theorem matching_transitive_loop :
    let span : Span := default
    let loop (step? : Option Expr) (body : Block) : Stmt :=
      .numericFor span "i" (.number span "1") (.ident span "n") step? body
    let inner : Stmt := loop none [.breakStmt span]
    let special : Template := ⟨[loop (some (.number span "3")) [.breakStmt span]], by simp⟩
    let general : Template := ⟨[loop (some (.wildcard span .number)) []], by simp⟩
    let candidate : Block := [.doBlock span [inner]]
    let options : Options := ⟨.exhaustive, .retain, defaultMaxDepth⟩
    Specializes special.stmts general.stmts ∧
      find candidate special options = .ok ⟨.nested .block, ∅⟩ ∧
      (Compare.stmt inner (loop (some (.wildcard span .number)) [])).holds = true ∧
      ∃ found, find candidate general options = .ok found ∧ found.verdict.isMatch = true := by
  intro span loop inner special general candidate options
  have specializes : Specializes special.stmts general.stmts := by
    refine ⟨rfl, ?_⟩
    intro k inside _
    obtain rfl : k = 0 := Nat.lt_one_iff.mp inside
    rfl
  have ok : find candidate special options = .ok ⟨.nested .block, ∅⟩ := rfl
  obtain ⟨stmts, _, _, _, searches⟩ := matching_transitive
  refine ⟨specializes, ok, ?_, _, rfl, ?_⟩
  · exact stmts _ (loop (some (.number span "3")) [.breakStmt span]) _ rfl rfl
  · exact searches candidate special general options options _ _ specializes rfl rfl ok rfl rfl

end LuaSearch
