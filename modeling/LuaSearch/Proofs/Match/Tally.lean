import LuaSearch.Proofs.Match.Halt
import LuaSearch.Proofs.Match.Independence
import LuaSearch.Proofs.Match.Rules
import LuaSearch.Proofs.Syntax.Node

/-!
How much a match records. A template is compared at all its places but those in the fields of a
table and in the start and the limit of a numeric loop. Of the wildcards at places that are compared
each records once, whatever rule it is reached by; only a name that stands where the template has a
wildcard for a string or for a number is passed over. So the number of captures of a comparison, and
of a search that discards failures, is read off the template and those names.
-/
namespace LuaSearch

namespace Node

def wanted? : Node → Option ExprWildcard
  | expr (.wildcard _ wanted) => some wanted
  | _ => none

end Node

abbrev Plain (nodes : List Node) : Prop := ∀ node ∈ nodes, node.isWildcard = false

namespace Compared

mutual
def expr : Expr → List Node
  | .constant span value => [.expr (.constant span value)]
  | .string span value => [.expr (.string span value)]
  | .number span text => [.expr (.number span text)]
  | .ident span name => [.expr (.ident span name)]
  | .wildcard span wanted => [.expr (.wildcard span wanted)]
  | .unary span op operand => .expr (.unary span op operand) :: expr operand
  | .binary span op left right =>
      .expr (.binary span op left right) :: (expr left ++ expr right)
  | .index span object key => .expr (.index span object key) :: (expr object ++ expr key)
  -- Fields are not compared.
  | .table span fs => [.expr (.table span fs)]
  | .call span callee args adjusted =>
      .expr (.call span callee args adjusted) :: (expr callee ++ exprs args)
  | .methodCall span receiver method args adjusted =>
      .expr (.methodCall span receiver method args adjusted) :: (expr receiver ++ exprs args)
  | .function span ps body =>
      .expr (.function span ps body) :: (Nodes.binders ps.names ++ stmts body)
termination_by structural e => e

def exprs : List Expr → List Node
  | [] => []
  | e :: es => expr e ++ exprs es
termination_by structural es => es

def step : Option Expr → List Node
  | none => []
  | some e => expr e
termination_by structural e => e

def stmt : Stmt → List Node
  | .assign span targets values =>
      .stmt (.assign span targets values) :: (exprs targets ++ exprs values)
  | .localVars span names values =>
      .stmt (.localVars span names values) :: (Nodes.binders names ++ exprs values)
  | .call span call => .stmt (.call span call) :: expr call
  | .doBlock span body => .stmt (.doBlock span body) :: stmts body
  | .whileLoop span condition body =>
      .stmt (.whileLoop span condition body) :: (expr condition ++ stmts body)
  | .repeatLoop span body condition =>
      .stmt (.repeatLoop span body condition) :: (stmts body ++ expr condition)
  | .localFunction span name ps body =>
      .stmt (.localFunction span name ps body) :: (Nodes.binders ps.names ++ stmts body)
  | .function span target method? ps body =>
      .stmt (.function span target method? ps body) ::
        (expr target ++ (Nodes.binders ps.names ++ stmts body))
  | .returnStmt span values => .stmt (.returnStmt span values) :: exprs values
  | .ifStmt span condition thenBody elseBody =>
      .stmt (.ifStmt span condition thenBody elseBody) ::
        (expr condition ++ (stmts thenBody ++ stmts elseBody))
  | .breakStmt span => [.stmt (.breakStmt span)]
  | .continueStmt span => [.stmt (.continueStmt span)]
  -- Start and limit are not compared.
  | .numericFor span var start limit step? body =>
      .stmt (.numericFor span var start limit step? body) :: (step step? ++ stmts body)
  | .genericFor span names es body =>
      .stmt (.genericFor span names es body) :: (exprs es ++ stmts body)
  | .wildcard span wanted => [.stmt (.wildcard span wanted)]
termination_by structural s => s

def stmts : List Stmt → List Node
  | [] => []
  | s :: ss => stmt s ++ stmts ss
termination_by structural ss => ss
end

end Compared

namespace Counterparts

mutual
/-- The wildcards for expressions at places of the template that are compared, each with what the
    candidate has at its place. -/
def expr : Expr → Expr → List (Expr × ExprWildcard)
  | e, .wildcard _ wanted => [(e, wanted)]
  | .unary _ _ operand, .unary _ _ other => expr operand other
  | .binary _ _ left right, .binary _ _ otherLeft otherRight =>
      expr left otherLeft ++ expr right otherRight
  | .index _ object key, .index _ otherObject otherKey =>
      expr object otherObject ++ expr key otherKey
  | .call _ callee args _, .call _ otherCallee otherArgs _ =>
      expr callee otherCallee ++ exprs args otherArgs
  | .methodCall _ receiver _ args _, .methodCall _ otherReceiver _ otherArgs _ =>
      expr receiver otherReceiver ++ exprs args otherArgs
  | .function _ _ body, .function _ _ other => stmts body other
  | _, _ => []
termination_by structural _ t => t

def exprs : List Expr → List Expr → List (Expr × ExprWildcard)
  | e :: es, t :: ts => expr e t ++ exprs es ts
  | _, _ => []
termination_by structural _ ts => ts

def step (span : Span) : Option Expr → Option Expr → List (Expr × ExprWildcard)
  | some e, some t => expr e t
  | none, some t => expr (Compare.unitStep span) t
  | _, none => []
termination_by structural _ t => t

def stmt : Stmt → Stmt → List (Expr × ExprWildcard)
  | .assign _ targets values, .assign _ otherTargets otherValues =>
      exprs targets otherTargets ++ exprs values otherValues
  | .localVars _ _ values, .localVars _ _ otherValues => exprs values otherValues
  | .call _ call, .call _ other => expr call other
  | .doBlock _ body, .doBlock _ other => stmts body other
  | .whileLoop _ condition body, .whileLoop _ otherCondition otherBody =>
      expr condition otherCondition ++ stmts body otherBody
  | .repeatLoop _ body condition, .repeatLoop _ otherBody otherCondition =>
      stmts body otherBody ++ expr condition otherCondition
  | .localFunction _ _ _ body, .localFunction _ _ _ other => stmts body other
  | .function _ target _ _ body, .function _ otherTarget _ _ otherBody =>
      expr target otherTarget ++ stmts body otherBody
  | .returnStmt _ values, .returnStmt _ others => exprs values others
  | .ifStmt _ condition thenBody elseBody, .ifStmt _ otherCondition otherThen otherElse =>
      expr condition otherCondition ++ (stmts thenBody otherThen ++ stmts elseBody otherElse)
  | .numericFor span _ _ _ step? body, .numericFor _ _ _ _ otherStep? otherBody =>
      step span step? otherStep? ++ stmts body otherBody
  | .genericFor _ _ es body, .genericFor _ _ otherExprs otherBody =>
      exprs es otherExprs ++ stmts body otherBody
  | _, _ => []
termination_by structural _ t => t

def stmts : List Stmt → List Stmt → List (Expr × ExprWildcard)
  | s :: ss, t :: ts => stmt s t ++ stmts ss ts
  | _, _ => []
termination_by structural _ ts => ts
end

def isPassedOver : Expr × ExprWildcard → Bool
  | (.ident .., .string) | (.ident .., .number) => true
  | _ => false

end Counterparts

/-- The captures are as many as the wildcards among the nodes, those left out that a name is passed
    over at; and the wildcards for expressions are those that have a counterpart. -/
structure Tally (kept : Captures) (counterparts : List (Expr × ExprWildcard))
    (compared : List Node) : Prop where
  stmts : kept.stmts.length = compared.countP Node.isStmtWildcard
  exprs : kept.exprs.length + counterparts.countP Counterparts.isPassedOver =
    compared.countP Node.isExprWildcard
  wildcards : counterparts.map Prod.snd = compared.filterMap Node.wanted?

namespace Tally

variable {a b : Captures} {p q : List (Expr × ExprWildcard)} {m n : List Node}

theorem nothing : Tally ∅ [] [] := ⟨rfl, rfl, rfl⟩

theorem append (first : Tally a p m) (second : Tally b q n) :
    Tally (a ++ b) (p ++ q) (m ++ n) where
  stmts := by simp [first.stmts, second.stmts]
  exprs := by
    have left := first.exprs
    have right := second.exprs
    simp only [Captures.exprs_append, List.length_append, List.countP_append]
    omega
  wildcards := by simp [first.wildcards, second.wildcards]

theorem swap (tally : Tally (a ++ b) p m) : Tally (b ++ a) p m where
  stmts := by simpa [Nat.add_comm] using tally.stmts
  exprs := by
    have both := tally.exprs
    simp only [Captures.exprs_append, List.length_append] at both ⊢
    omega
  wildcards := tally.wildcards

theorem under {node : Node} (plain : node.isWildcard = false) (tally : Tally a p m) :
    Tally a p (node :: m) := by
  simp only [Node.isWildcard, Bool.or_eq_false_iff] at plain
  have unwanted : node.wanted? = none := by
    cases node with
    | expr e => cases e <;> simp_all [Node.isExprWildcard, Node.wanted?]
    | _ => rfl
  exact ⟨by simp [plain.1, tally.stmts], by simp [plain.2, tally.exprs],
    by simp [unwanted, tally.wildcards]⟩

theorem declared {bs ts : List Binder} (plain : Plain (Nodes.binders bs))
    (size : bs.length = ts.length) : Tally (Compare.declared bs ts) [] (Nodes.binders ts) := by
  induction bs generalizing ts with
  | nil =>
    obtain rfl := List.eq_nil_of_length_eq_zero size.symm
    exact nothing
  | cons b bs ih =>
    cases ts with
    | nil => cases size
    | cons t ts =>
      obtain ⟨first, rest⟩ := List.forall_mem_cons.mp plain
      have later := ih rest (Nat.succ.inj size)
      obtain ⟨span, _ | name⟩ := b
      · simp [Node.isWildcard, Node.isExprWildcard] at first
      · obtain ⟨span', _ | name'⟩ := t
        · have taken : Tally (.ofExpr (.ident span name)) [] [.binder ⟨span', none⟩] :=
            ⟨rfl, rfl, rfl⟩
          exact taken.append later
        · exact later.under rfl

theorem declaring {bs ts : List Binder} (plain : Plain (Nodes.binders bs))
    (size : bs.length = ts.length) (rest : Tally a p m) :
    Tally (a ++ Compare.declared bs ts) p (Nodes.binders ts ++ m) :=
  ((declared plain size).append rest).swap

end Tally

mutual
theorem MatchesExpr.tally : ∀ {e t : Expr} {kept : Captures}, MatchesExpr e t kept →
    Plain (Nodes.expr e) → Tally kept (Counterparts.expr e t) (Compared.expr t)
  | _, _, _, .constant .., _ | _, _, _, .string .., _ | _, _, _, .number .., _
  | _, _, _, .ident .., _ | _, _, _, .table .., _ => Tally.nothing.under rfl
  | _, _, _, .takenString .., _ | _, _, _, .takenNumber .., _
  | _, _, _, .takenFunction .., _ => ⟨rfl, rfl, rfl⟩
  | _, _, _, .takenName _ _ _ wanted, _ => by cases wanted <;> exact ⟨rfl, rfl, rfl⟩
  | _, _, _, .unary _ _ _ _ operand, plain => by
      simp only [Nodes.expr, List.forall_mem_cons] at plain
      exact (operand.tally plain.2).under rfl
  | _, _, _, .binary _ _ _ left right, plain => by
      simp only [Nodes.expr, List.forall_mem_cons, List.forall_mem_append] at plain
      exact ((left.tally plain.2.1).append (right.tally plain.2.2)).under rfl
  | _, _, _, .index _ _ object key, plain => by
      simp only [Nodes.expr, List.forall_mem_cons, List.forall_mem_append] at plain
      exact ((object.tally plain.2.1).append (key.tally plain.2.2)).under rfl
  | _, _, _, .call _ _ _ callee args, plain => by
      simp only [Nodes.expr, List.forall_mem_cons, List.forall_mem_append] at plain
      exact ((callee.tally plain.2.1).append (args.tally plain.2.2)).under rfl
  | _, _, _, .methodCall _ _ _ _ _ receiver args, plain => by
      simp only [Nodes.expr, List.forall_mem_cons, List.forall_mem_append] at plain
      exact ((receiver.tally plain.2.1).append (args.tally plain.2.2)).under rfl
  | _, _, _, .function _ _ params bodies, plain => by
      simp only [Nodes.expr, List.forall_mem_cons, List.forall_mem_append] at plain
      exact (Tally.declaring plain.2.1 params.names (bodies.tally plain.2.2)).under rfl
termination_by structural _ _ _ h => h

theorem MatchesExprs.tally : ∀ {es ts : List Expr} {kept : Captures}, MatchesExprs es ts kept →
    Plain (Nodes.exprs es) → Tally kept (Counterparts.exprs es ts) (Compared.exprs ts)
  | _, _, _, .nil, _ => .nothing
  | _, _, _, .cons first rest, plain => by
      simp only [Nodes.exprs, List.forall_mem_append] at plain
      exact (first.tally plain.1).append (rest.tally plain.2)
termination_by structural _ _ _ h => h

theorem MatchesStep.tally : ∀ {span span' : Span} {e t : Option Expr} {kept : Captures},
    MatchesStep span span' e t kept → Plain (Nodes.step e) →
      Tally kept (Counterparts.step span e t) (Compared.step t)
  | _, _, _, _, _, .absent .., _ => .nothing
  | _, _, _, _, _, .omitted _ one, _ => one.tally (List.forall_mem_singleton.mpr rfl)
  | _, _, _, _, _, .written _ one, _ => by
      cases one with
      | number => exact .nothing
  | _, _, _, _, _, .given _ _ step, plain => step.tally plain
termination_by structural _ _ _ _ _ h => h

theorem MatchesStmt.tally : ∀ {s t : Stmt} {kept : Captures}, MatchesStmt s t kept →
    Plain (Nodes.stmt s) → Tally kept (Counterparts.stmt s t) (Compared.stmt t)
  | _, _, _, .takenLocalFunction .., _ | _, _, _, .takenIf .., _ => ⟨rfl, rfl, rfl⟩
  | _, _, _, .breakStmt .., _ => Tally.nothing.under rfl
  | _, _, _, .assign _ _ targets values, plain => by
      simp only [Nodes.stmt, List.forall_mem_cons, List.forall_mem_append] at plain
      exact ((targets.tally plain.2.1).append (values.tally plain.2.2)).under rfl
  | _, _, _, .localVars _ _ names values, plain => by
      simp only [Nodes.stmt, List.forall_mem_cons, List.forall_mem_append] at plain
      exact (Tally.declaring plain.2.1 names (values.tally plain.2.2)).under rfl
  | _, _, _, .call _ _ call, plain => by
      simp only [Nodes.stmt, List.forall_mem_cons] at plain
      exact (call.tally plain.2).under rfl
  | _, _, _, .doBlock _ _ bodies, plain => by
      simp only [Nodes.stmt, List.forall_mem_cons] at plain
      exact (bodies.tally plain.2).under rfl
  | _, _, _, .whileLoop _ _ condition bodies, plain => by
      simp only [Nodes.stmt, List.forall_mem_cons, List.forall_mem_append] at plain
      exact ((condition.tally plain.2.1).append (bodies.tally plain.2.2)).under rfl
  | _, _, _, .repeatLoop _ _ condition bodies, plain => by
      simp only [Nodes.stmt, List.forall_mem_cons, List.forall_mem_append] at plain
      exact ((bodies.tally plain.2.1).append (condition.tally plain.2.2)).swap.under rfl
  | _, _, _, .localFunction _ _ _ _ params bodies, plain => by
      simp only [Nodes.stmt, List.forall_mem_cons, List.forall_mem_append] at plain
      exact (Tally.declaring plain.2.1 params.names (bodies.tally plain.2.2)).under rfl
  | _, _, _, .function _ _ _ target params bodies, plain => by
      simp only [Nodes.stmt, List.forall_mem_cons, List.forall_mem_append] at plain
      have function := Tally.declaring plain.2.2.1 params.names (bodies.tally plain.2.2.2)
      exact ((target.tally plain.2.1).append function).under rfl
  | _, _, _, .returnStmt _ _ values, plain => by
      simp only [Nodes.stmt, List.forall_mem_cons] at plain
      exact (values.tally plain.2).under rfl
  | _, _, _, .ifStmt _ _ condition thens elses, plain => by
      simp only [Nodes.stmt, List.forall_mem_cons, List.forall_mem_append] at plain
      have bodies := (thens.tally plain.2.2.1).append (elses.tally plain.2.2.2)
      exact ((condition.tally plain.2.1).append bodies).under rfl
  | _, _, _, .numericFor _ _ _ _ _ _ _ _ step bodies, plain => by
      simp only [Nodes.stmt, List.forall_mem_cons, List.forall_mem_append] at plain
      exact ((step.tally plain.2.2.2.1).append (bodies.tally plain.2.2.2.2)).under rfl
  | _, _, _, .genericFor _ _ _ exprs bodies, plain => by
      simp only [Nodes.stmt, List.forall_mem_cons, List.forall_mem_append] at plain
      exact ((exprs.tally plain.2.1).append (bodies.tally plain.2.2)).under rfl
termination_by structural _ _ _ h => h

theorem MatchesStmts.tally : ∀ {ss ts : List Stmt} {kept : Captures}, MatchesStmts ss ts kept →
    Plain (Nodes.stmts ss) → Tally kept (Counterparts.stmts ss ts) (Compared.stmts ts)
  | _, _, _, .nil, _ => .nothing
  | _, _, _, .cons first rest, plain => by
      simp only [Nodes.stmts, List.forall_mem_append] at plain
      exact (first.tally plain.1).append (rest.tally plain.2)
termination_by structural _ _ _ h => h

theorem MatchesBlock.tally : ∀ {body other : Block} {kept : Captures},
    MatchesBlock body other kept → Plain (Nodes.stmts body) →
      Tally kept (Counterparts.stmts body other) (Compared.stmts other)
  | _, _, _, .empty body, _ => by cases body <;> exact .nothing
  | _, _, _, .same pairs, plain => pairs.tally plain
termination_by structural _ _ _ h => h
end

theorem Compare.stmt_tally {s t : Stmt} (holds : (stmt s t).holds = true)
    (plain : Plain (Nodes.stmt s)) :
    Tally (stmt s t).captures (Counterparts.stmt s t) (Compared.stmt t) := by
  obtain ⟨kept, held⟩ := Comparison.holds_iff_recorded.mp holds
  have tally := (matches_of_stmt held).tally plain
  rwa [held]

theorem alignment_tally {ss ts : List Stmt} (fits : ts.length ≤ ss.length)
    (holds : ∀ c ∈ List.zipWith Compare.stmt ss ts, c.holds = true) (plain : Plain (Nodes.stmts ss)) :
    Tally (.join ((List.zipWith Compare.stmt ss ts).map Comparison.captures))
      (Counterparts.stmts ss ts) (Compared.stmts ts) := by
  induction ts generalizing ss with
  | nil => cases ss <;> exact .nothing
  | cons t ts ih =>
    cases ss with
    | nil => simp at fits
    | cons s ss =>
      simp only [Nodes.stmts, List.forall_mem_append] at plain
      simp only [List.zipWith_cons_cons, List.forall_mem_cons] at holds
      have first := Compare.stmt_tally holds.1 plain.1
      exact first.append (ih (Nat.le_of_succ_le_succ fits) holds.2 plain.2)

theorem plain_of_reached {chunk block : Block} {path : List Scope} (plain : Plain (Nodes.stmts chunk))
    (reached : Reached chunk path block) : Plain (Nodes.stmts block) := by
  cases reached with
  | itself => exact plain
  | nested member nested =>
    intro node inside
    exact plain node (Nodes.stmt_subset_stmts member (Nodes.nested_subset nested inside))

theorem plain_drop {block : Block} (plain : Plain (Nodes.stmts block)) (start : Nat) :
    Plain (Nodes.stmts (block.drop start)) := by
  intro node inside
  rw [Nodes.stmts_eq_flatMap, List.mem_flatMap] at inside
  obtain ⟨s, member, inside⟩ := inside
  exact plain node (Nodes.stmt_subset_stmts (List.mem_of_mem_drop member) inside)

theorem alignedCaptures_tally {template : List Stmt} {block : Block} {start : Nat}
    (occurs : OccursAt template block start) (plain : Plain (Nodes.stmts block)) :
    Tally (alignedCaptures template block start)
      (Counterparts.stmts (block.drop start) template) (Compared.stmts template) := by
  obtain ⟨fits, holds⟩ := (occursAt_iff_alignment template block start).mp occurs
  exact alignment_tally (by rw [List.length_drop]; omega) holds (plain_drop plain start)

/-- Each wildcard records once. A comparison of a candidate without wildcards that holds adds to the
    session as many statements as the template has wildcards for statements, and as many expressions
    as it has wildcards for expressions and declared names, less the names that stand where it has a
    wildcard for a string or for a number; only places that are compared count, and each wildcard
    for an expression there has one counterpart. A match of a search that discards failures has as
    many captures as the statements of the template record at the place where the search halts. -/
theorem wildcards_record_once :
    (∀ (session after : Session) (c t : Stmt), Plain (Nodes.stmt c) →
      session.ask (.stmtEqual c t) = (.ok (.flag true), after) →
      ∃ added, after = session.record added ∧
        added.stmts.length = (Compared.stmt t).countP Node.isStmtWildcard ∧
        added.exprs.length + (Counterparts.stmt c t).countP Counterparts.isPassedOver =
          (Compared.stmt t).countP Node.isExprWildcard ∧
        (Counterparts.stmt c t).map Prod.snd = (Compared.stmt t).filterMap Node.wanted?) ∧
    ∀ (candidate : Block) (template : Template) (options : Options) (found : Found),
      Plain (Nodes.stmts candidate) → options.captures = .discard →
      find candidate template options = .ok found → found.verdict.isMatch = true →
      ∃ path block start,
        Halts template.stmts options options.maxDepth candidate path block start ∧
        OccursAt template.stmts block start ∧
        found.verdict = Verdict.ofSite path start template.length ∧
        found.captures.stmts.length =
          (Compared.stmts template.stmts).countP Node.isStmtWildcard ∧
        found.captures.exprs.length +
            (Counterparts.stmts (block.drop start) template.stmts).countP
              Counterparts.isPassedOver =
          (Compared.stmts template.stmts).countP Node.isExprWildcard := by
  constructor
  · intro session after c t plain asked
    simp only [ask_eq, Session.outcome, Question.outcome, Outcome.ofComparison, Outcome.bind_eq,
      Outcome.andThen_ok, Outcome.pure_eq, Captures.append_empty, Prod.mk.injEq, Except.ok.injEq,
      Answer.flag.injEq] at asked
    have tally := Compare.stmt_tally asked.1 plain
    exact ⟨_, asked.2.symm, tally.stmts, tally.exprs, tally.wildcards⟩
  · intro candidate template options found plain discard ok isMatch
    have reports := levels_halts template.stmts options options.maxDepth candidate
    have ran := scan_of_find ok
    rw [scan] at ran
    rw [ran] at reports
    obtain ⟨verdict, captures⟩ := found
    cases reports with
    | missed => cases isMatch
    | @matched path block start _ site recorded =>
      obtain ⟨reached, occurs⟩ := halts_reached site
      have tally := alignedCaptures_tally occurs (plain_of_reached plain reached)
      rw [← recorded discard] at tally
      exact ⟨path, block, start, site, occurs, rfl, tally.stmts, tally.exprs⟩

/-- A local and a loop. The wildcards in the field of the table and at the start of the loop are not
    compared; the one for a number that meets the name `x` passes it over; the one at the step takes
    the step that is left out. -/
theorem wildcards_record_once_loop :
    let span : Span := default
    let declares (name? : Option String) (field value : Expr) : Stmt :=
      .localVars span [⟨span, name?⟩] [.table span [.positional field], value]
    let loop (start : Expr) (step? : Option Expr) (inner : Stmt) : Stmt :=
      .numericFor span "i" start (.ident span "n") step? [inner]
    let wild (wanted : ExprWildcard) : Expr := .wildcard span wanted
    let candidate : Block :=
      [declares (some "v") (.string span "s") (.ident span "x"),
        loop (.number span "2") none (.ifStmt span (.ident span "x") [] [])]
    let template : Template :=
      ⟨[declares none (wild .string) (wild .number),
        loop (wild .number) (some (wild .number)) (.wildcard span .ifStmt)], by simp⟩
    let options : Options := ⟨.greedy, .discard, defaultMaxDepth⟩
    Plain (Nodes.stmts candidate) ∧
      ∃ found, find candidate template options = .ok found ∧ found.verdict = .found 0 2 ∧
        found.captures.stmts.length = 1 ∧ found.captures.exprs.length + 1 = 3 := by
  intro span declares loop wild candidate template options
  have plain : Plain (Nodes.stmts candidate) := by decide
  refine ⟨plain, _, rfl, rfl, ?_⟩
  obtain ⟨path, block, start, halts, _, verdict, stmts, exprs⟩ :=
    wildcards_record_once.2 candidate template options _ plain rfl rfl rfl
  cases halts with
  | inside => cases verdict
  | here =>
    cases verdict
    exact ⟨stmts, exprs⟩

end LuaSearch
