import LuaSearch.Parse.Chunk

/-!
Nesting without the counter. Readers that know how many levels are free nest as those do that count
the levels they entered: wherever the counter stands, both end alike, and the counter stands there
again afterwards. So what is read from a new parser is read with all levels free.
-/
namespace LuaSearch

open Parse

namespace Parse

/-- With the counter at the depth, the first reader ends as the second does with the counter at
    zero, and neither leaves it elsewhere. -/
def Counts {α : Type} (depth : Nat) (p q : Parse α) : Prop :=
  ∀ c : Cursor, c.depth = 0 → ∃ result c', q.runOn c = (result, c') ∧ c'.depth = 0 ∧
    p.runOn (c.atDepth depth) = (result, c'.atDepth depth)

variable {depth : Nat}

namespace Counts

variable {α β : Type}

theorem pure (a : α) : Counts depth (Pure.pure a) (Pure.pure a : Parse α) :=
  fun c here => ⟨.ok a, c, rfl, here, rfl⟩

theorem fail (fault : Fault) (span : Span) :
    Counts depth (Parse.fail fault span) (Parse.fail fault span : Parse α) :=
  fun c here => ⟨.error ⟨fault, span⟩, c, rfl, here, rfl⟩

theorem bind {p q : Parse α} {next next' : α → Parse β} (first : Counts depth p q)
    (later : ∀ a, Counts depth (next a) (next' a)) :
    Counts depth (p >>= next) (q >>= next') := by
  intro c here
  obtain ⟨result, c', ran, there, again⟩ := first c here
  cases result with
  | error e =>
    rw [Machine.runOn_bind_error next' ran, Machine.runOn_bind_error next again]
    exact ⟨.error e, c', rfl, there, rfl⟩
  | ok a =>
    rw [Machine.runOn_bind_ok next' ran, Machine.runOn_bind_ok next again]
    exact later a c' there

theorem ite {condition : Prop} [Decidable condition] {p q p' q' : Parse α}
    (yes : Counts depth p q) (no : Counts depth p' q') :
    Counts depth (if condition then p else p') (if condition then q else q') := by
  split
  · exact yes
  · exact no

theorem seen {look : Parse α} (value : Cursor → α)
    (ran : ∀ c, look.runOn c = (.ok (value c), c))
    (blind : ∀ c depth, value (c.atDepth depth) = value c) : Counts depth look look := by
  intro c here
  refine ⟨.ok (value c), c, ran c, here, ?_⟩
  rw [ran, blind]

theorem nested {p q : Parse α} (free : depth < maxNesting) (counts : Counts (depth + 1) p q) :
    Counts depth (Parse.nested p) q := by
  intro c here
  obtain ⟨result, c', ran, there, again⟩ := counts c here
  refine ⟨result, c', ran, there, ?_⟩
  rw [runOn_nested, if_neg (by simpa using free)]
  change ((p.runOn (c.atDepth (depth + 1))).1, (p.runOn (c.atDepth (depth + 1))).2.leave) = _
  rw [again]
  rfl

theorem nested_full {p : Parse α} (full : maxNesting ≤ depth) :
    Counts depth (Parse.nested p) (currentSpan >>= Parse.fail .tooDeep) := by
  intro c here
  refine ⟨.error ⟨.tooDeep, c.current.span⟩, c, rfl, here, ?_⟩
  rw [runOn_nested, if_pos (by simpa using full)]
  rfl

theorem runOn_atDepth {p q : Parse α} {c : Cursor} (counts : Counts c.depth p q) :
    p.runOn c =
      ((q.runOn (c.atDepth 0)).1, (q.runOn (c.atDepth 0)).2.atDepth c.depth) := by
  obtain ⟨result, c', ran, _, again⟩ := counts (c.atDepth 0) rfl
  rw [ran]
  exact again

theorem runOn_congr {p p' q : Parse α} {c : Cursor} (counts : Counts c.depth p q)
    (counts' : Counts c.depth p' q) : p.runOn c = p'.runOn c :=
  counts.runOn_atDepth.trans counts'.runOn_atDepth.symm

theorem runOn_eq {p q : Parse α} (counts : Counts 0 p q) {c : Cursor} (start : c.depth = 0) :
    p.runOn c = q.runOn c := by
  obtain ⟨result, c', ran, there, again⟩ := counts c start
  rw [Cursor.atDepth_of_depth start, Cursor.atDepth_of_depth there] at again
  exact again.trans ran.symm

end Counts

theorem peek_counts : Counts depth peek peek :=
  .seen (fun c => c.current.kind) (fun _ => rfl) fun _ _ => rfl

theorem peekSecond_counts : Counts depth peekSecond peekSecond :=
  .seen Cursor.second (fun _ => rfl) fun _ _ => rfl

theorem currentSpan_counts : Counts depth currentSpan currentSpan :=
  .seen (fun c => c.current.span) (fun _ => rfl) fun _ _ => rfl

theorem isAt_counts (kind : Kind) : Counts depth (isAt kind) (isAt kind) :=
  .seen (fun c => decide (c.current.kind = kind)) (fun _ => rfl) fun _ _ => rfl

theorem advance_counts : Counts depth advance advance := by
  intro c here
  refine ⟨.ok c.current, c.advance, rfl, (Cursor.depth_advance c).trans here, ?_⟩
  rw [← Cursor.advance_atDepth]
  rfl

theorem finish_counts (start : Span) : Counts depth (finish start) (finish start) := by
  rintro ⟨_ | last, rest, left, final, _, counted⟩ here
  · exact ⟨.ok start, _, rfl, here, rfl⟩
  · exact ⟨.ok (start.merge last), _, rfl, here, rfl⟩

theorem eatSymbol_counts (sign : Symbol) : Counts depth (eatSymbol sign) (eatSymbol sign) := by
  refine .bind (isAt_counts _) fun here => .ite ?_ (.pure _)
  exact .bind advance_counts fun _ => .pure _

theorem expect_counts (kind : Kind) : Counts depth (expect kind) (expect kind) := by
  refine .bind (isAt_counts kind) fun here => .ite advance_counts ?_
  refine .bind peek_counts fun seen => ?_
  exact .bind currentSpan_counts fun span => .fail _ _

theorem keyword_counts (word : Keyword) : Counts depth (keyword word) (keyword word) :=
  .bind (expect_counts _) fun _ => .pure _

theorem symbol_counts (sign : Symbol) : Counts depth (symbol sign) (symbol sign) :=
  .bind (expect_counts _) fun _ => .pure _

section

variable {α σ β : Type}

theorem spanned_counts {p q : Parse (Span → α)} (counts : Counts depth p q) :
    Counts depth (spanned p) (spanned q) := by
  refine .bind currentSpan_counts fun start => ?_
  refine .bind counts fun build => ?_
  exact .bind (finish_counts start) fun span => .pure _

theorem rounds_counts {round round' : σ → Parse (Round σ β)}
    (each : ∀ s, Counts depth (round s) (round' s)) (fuel : Nat) (s : σ) :
    Counts depth (rounds round fuel s) (rounds round' fuel s) := by
  induction fuel generalizing s with
  | zero => exact .bind currentSpan_counts fun span => .fail _ _
  | succ fuel ih =>
    refine .bind (each s) fun next => ?_
    cases next with
    | again s => exact ih s
    | done value => exact .pure value

theorem iterate_counts {round round' : σ → Parse (Round σ β)}
    (each : ∀ s, Counts depth (round s) (round' s)) (s : σ) :
    Counts depth (iterate round s) (iterate round' s) :=
  fun c here => rounds_counts each (c.left + 1) s c here

theorem many_counts {item item' : Parse (Option α)} (each : Counts depth item item') :
    Counts depth (many item) (many item') := by
  refine iterate_counts (fun items => .bind each fun a? => ?_) _
  cases a? with
  | none => exact .pure _
  | some a => exact .pure _

theorem series_counts {item item' : Parse (α × Bool)} (each : Counts depth item item') :
    Counts depth (series item) (series item') := by
  refine iterate_counts (fun items => .bind each fun (a, more) => ?_) _
  exact .ite (.pure _) (.pure _)

theorem commaSeparated_counts {item item' : Parse α} (each : Counts depth item item') :
    Counts depth (commaSeparated item) (commaSeparated item') := by
  refine series_counts (.bind each fun a => ?_)
  exact .bind (eatSymbol_counts .comma) fun more => .pure _

theorem chain_counts {step step' : α → Parse (Option α)}
    (each : ∀ a, Counts depth (step a) (step' a)) (a : α) :
    Counts depth (chain step a) (chain step' a) := by
  refine iterate_counts (fun a => .bind (each a) fun next? => ?_) a
  cases next? with
  | none => exact .pure _
  | some next => exact .pure _

end

end Parse

namespace Grammar

structure Level.Counts (depth : Nat) (inner plain : Level) : Prop where
  operators (limit : Nat) : Parse.Counts depth (inner.operators limit) (plain.operators limit)
  block : Parse.Counts depth inner.block plain.block
  elseif : Parse.Counts depth inner.elseif plain.elseif

variable {depth : Nat} {inner plain : Level}

theorem ident_counts : Counts depth ident ident := expect_counts .ident

theorem binder_counts : Counts depth binder binder :=
  .bind ident_counts fun _ => .pure _

theorem params_counts : Counts depth params params := by
  have param_counts : Counts depth param param := by
    refine .bind (eatSymbol_counts .ellipsis) fun dots => .ite (.pure _) ?_
    refine .bind binder_counts fun name => ?_
    exact .bind (eatSymbol_counts .comma) fun more => .pure _
  refine .bind (isAt_counts _) fun none => .ite (.pure _) ?_
  exact .bind (series_counts param_counts) fun given => .pure _

theorem fieldSeparator_counts : Counts depth fieldSeparator fieldSeparator := by
  refine .bind (eatSymbol_counts .comma) fun comma => .ite (.pure _) ?_
  exact eatSymbol_counts .semicolon

section

variable (counts : Level.Counts depth inner plain)

include counts

theorem expr_counts : Counts depth (expr inner) (expr plain) := counts.operators 0

theorem exprs_counts : Counts depth (exprs inner) (exprs plain) :=
  commaSeparated_counts (expr_counts counts)

theorem functionBody_counts : Counts depth (functionBody inner) (functionBody plain) := by
  refine .bind (symbol_counts .lparen) fun _ => ?_
  refine .bind params_counts fun params => ?_
  refine .bind (symbol_counts .rparen) fun _ => ?_
  refine .bind counts.block fun body => ?_
  exact .bind (keyword_counts .end_) fun _ => .pure _

theorem field_counts : Counts depth (field inner) (field plain) := by
  have positional : Counts depth (do return Field.positional (← expr inner))
      (do return Field.positional (← expr plain)) :=
    .bind (expr_counts counts) fun _ => .pure _
  refine .bind peek_counts fun kind => ?_
  split
  · refine .bind advance_counts fun _ => ?_
    refine .bind (expr_counts counts) fun key => ?_
    refine .bind (symbol_counts .rbracket) fun _ => ?_
    refine .bind (symbol_counts .eq) fun _ => ?_
    exact .bind (expr_counts counts) fun value => .pure _
  · refine .bind peekSecond_counts fun second => .ite ?_ positional
    refine .bind ident_counts fun name => ?_
    refine .bind (symbol_counts .eq) fun _ => ?_
    exact .bind (expr_counts counts) fun value => .pure _
  · exact positional

theorem tableFields_counts : Counts depth (tableFields inner) (tableFields plain) := by
  refine .bind (isAt_counts _) fun none => .ite (.pure _) (series_counts ?_)
  refine .bind (field_counts counts) fun one => ?_
  refine .bind fieldSeparator_counts fun separated => .ite ?_ (.pure _)
  exact .bind (isAt_counts _) fun last => .pure _

theorem table_counts : Counts depth (table inner) (table plain) := by
  refine .bind (symbol_counts .lbrace) fun _ => ?_
  refine .bind (tableFields_counts counts) fun fields => ?_
  exact .bind (symbol_counts .rbrace) fun _ => .pure _

theorem tableExpr_counts : Counts depth (spanned do return (Expr.table · (← table inner)))
    (spanned do return (Expr.table · (← table plain))) :=
  spanned_counts (.bind (table_counts counts) fun _ => .pure _)

theorem args_counts : Counts depth (args inner) (args plain) := by
  refine .bind peek_counts fun kind => ?_
  split
  · refine .bind advance_counts fun _ => ?_
    refine .bind (isAt_counts _) fun none => ?_
    have behind (given : List Expr) : Counts depth (do symbol .rparen; return given)
        (do symbol .rparen; return given) :=
      .bind (symbol_counts .rparen) fun _ => .pure _
    exact .ite (behind []) (.bind (exprs_counts counts) behind)
  · exact .bind (tableExpr_counts counts) fun e => .pure _
  · exact .bind advance_counts fun token => .pure _
  · exact .bind advance_counts fun token => .pure _
  · exact .bind currentSpan_counts fun span => .fail _ _

theorem primary_counts : Counts depth (primary inner) (primary plain) := by
  refine .bind peek_counts fun kind => ?_
  split
  · exact .bind ident_counts fun name => .pure _
  · refine .bind currentSpan_counts fun start => ?_
    refine .bind advance_counts fun _ => ?_
    refine .bind (expr_counts counts) fun inside => ?_
    refine .bind (symbol_counts .rparen) fun _ => ?_
    exact .bind (finish_counts start) fun span => .pure _
  · exact .bind currentSpan_counts fun span => .fail _ _
  · exact .bind currentSpan_counts fun span => .fail _ _

theorem suffix_counts (start : Span) (object : Expr) :
    Counts depth (suffix inner start object) (suffix plain start object) := by
  have called : Counts depth
      (do
        let given ← args inner
        return some (Expr.call (← finish start) object given false))
      (do
        let given ← args plain
        return some (Expr.call (← finish start) object given false)) := by
    refine .bind (args_counts counts) fun given => ?_
    exact .bind (finish_counts start) fun span => .pure _
  refine .bind peek_counts fun kind => ?_
  split
  · refine .bind advance_counts fun _ => ?_
    exact .bind ident_counts fun name => .pure _
  · refine .bind advance_counts fun _ => ?_
    refine .bind (expr_counts counts) fun key => ?_
    refine .bind (symbol_counts .rbracket) fun _ => ?_
    exact .bind (finish_counts start) fun span => .pure _
  · refine .bind advance_counts fun _ => ?_
    refine .bind ident_counts fun method => ?_
    refine .bind (args_counts counts) fun given => ?_
    exact .bind (finish_counts start) fun span => .pure _
  · exact called
  · exact called
  · exact called
  · exact called
  · exact .pure _

theorem suffixed_counts : Counts depth (suffixed inner) (suffixed plain) := by
  refine .bind currentSpan_counts fun start => ?_
  refine .bind (primary_counts counts) fun object => ?_
  exact chain_counts (suffix_counts counts start) object

theorem simple_counts : Counts depth (simple inner) (simple plain) := by
  have single {build : Token → Span → Expr} : Counts depth
      (spanned do return build (← advance)) (spanned do return build (← advance)) :=
    spanned_counts (.bind advance_counts fun token => .pure _)
  refine .bind peek_counts fun kind => ?_
  split
  · exact single
  · exact single
  · exact single
  · exact single
  · exact single
  · exact single
  · exact single
  · exact tableExpr_counts counts
  · refine spanned_counts (.bind advance_counts fun _ => ?_)
    exact .bind (functionBody_counts counts) fun given => .pure _
  · exact suffixed_counts counts

theorem operand_counts : Counts depth (operand inner) (operand plain) := by
  refine .bind peek_counts fun kind => ?_
  split
  · refine .bind advance_counts fun sign => ?_
    exact .bind (counts.operators _) fun value => .pure _
  · exact simple_counts counts

theorem operators_counts (limit : Nat) :
    Counts depth (operators inner limit) (operators plain limit) := by
  refine .bind (operand_counts counts) fun first => chain_counts (fun left => ?_) first
  refine .bind peek_counts fun kind => ?_
  split
  · refine .ite (.pure _) (.bind advance_counts fun _ => ?_)
    exact .bind (counts.operators _) fun right => .pure _
  · exact .pure _

theorem ending_counts (word : Keyword) : Counts depth (ending inner word) (ending plain word) := by
  refine .bind counts.block fun body => ?_
  exact .bind (keyword_counts word) fun _ => .pure _

theorem whileLoop_counts : Counts depth (whileLoop inner) (whileLoop plain) := by
  refine .bind (keyword_counts .while_) fun _ => ?_
  refine .bind (expr_counts counts) fun condition => ?_
  refine .bind (keyword_counts .do_) fun _ => ?_
  exact .bind (ending_counts counts .end_) fun body => .pure _

theorem repeatLoop_counts : Counts depth (repeatLoop inner) (repeatLoop plain) := by
  refine .bind (keyword_counts .repeat_) fun _ => ?_
  refine .bind (ending_counts counts .until_) fun body => ?_
  exact .bind (expr_counts counts) fun condition => .pure _

theorem elseBody_counts : Counts depth (elseBody inner) (elseBody plain) := by
  refine .bind peek_counts fun kind => ?_
  split
  · exact .bind counts.elseif fun s => .pure _
  · exact .bind advance_counts fun _ => ending_counts counts .end_
  · exact .bind (keyword_counts .end_) fun _ => .pure _

theorem conditional_counts : Counts depth (conditional inner) (conditional plain) := by
  refine .bind advance_counts fun _ => ?_
  refine .bind (expr_counts counts) fun condition => ?_
  refine .bind (keyword_counts .then_) fun _ => ?_
  refine .bind counts.block fun thenBody => ?_
  exact .bind (elseBody_counts counts) fun elseBody => .pure _

theorem numericFor_counts (var : String) :
    Counts depth (numericFor inner var) (numericFor plain var) := by
  refine .bind (expr_counts counts) fun start => ?_
  refine .bind (symbol_counts .comma) fun _ => ?_
  refine .bind (expr_counts counts) fun limit => ?_
  have behind (step? : Option Expr) : Counts depth
      (do
        keyword .do_
        let body ← ending inner .end_
        return (Stmt.numericFor · var start limit step? body))
      (do
        keyword .do_
        let body ← ending plain .end_
        return (Stmt.numericFor · var start limit step? body)) := by
    refine .bind (keyword_counts .do_) fun _ => ?_
    exact .bind (ending_counts counts .end_) fun body => .pure _
  have stepped : Counts depth (some <$> expr inner) (some <$> expr plain) := by
    rw [map_eq_pure_bind, map_eq_pure_bind]
    exact .bind (expr_counts counts) fun step => .pure _
  exact .bind (eatSymbol_counts .comma) fun further => .ite (.bind stepped behind) (behind none)

theorem genericFor_counts (first : String) :
    Counts depth (genericFor inner first) (genericFor plain first) := by
  have behind (more : List Token) : Counts depth
      (do
        keyword .in_
        let values ← exprs inner
        keyword .do_
        let body ← ending inner .end_
        return (Stmt.genericFor · (first :: more.map Token.text) values body))
      (do
        keyword .in_
        let values ← exprs plain
        keyword .do_
        let body ← ending plain .end_
        return (Stmt.genericFor · (first :: more.map Token.text) values body)) := by
    refine .bind (keyword_counts .in_) fun _ => ?_
    refine .bind (exprs_counts counts) fun values => ?_
    refine .bind (keyword_counts .do_) fun _ => ?_
    exact .bind (ending_counts counts .end_) fun body => .pure _
  have names : Counts depth (commaSeparated ident) (commaSeparated ident) :=
    commaSeparated_counts ident_counts
  exact .bind (eatSymbol_counts .comma) fun further => .ite (.bind names behind) (behind [])

theorem forLoop_counts : Counts depth (forLoop inner) (forLoop plain) := by
  refine .bind (keyword_counts .for_) fun _ => ?_
  refine .bind ident_counts fun first => ?_
  refine .bind (eatSymbol_counts .eq) fun numeric => ?_
  exact .ite (numericFor_counts counts _) (genericFor_counts counts _)

omit counts in
theorem functionPath_counts : Counts depth functionPath functionPath := by
  refine .bind ident_counts fun name => chain_counts (fun path => ?_) _
  refine .bind (eatSymbol_counts .dot) fun dotted => .ite ?_ (.pure _)
  exact .bind ident_counts fun field => .pure _

theorem function_counts : Counts depth (function inner) (function plain) := by
  refine .bind (keyword_counts .function_) fun _ => ?_
  refine .bind functionPath_counts fun target => ?_
  refine .bind (eatSymbol_counts .colon) fun isMethod => .ite ?_ ?_
  · refine .bind ident_counts fun method => ?_
    exact .bind (functionBody_counts counts) fun (params, body) => .pure _
  · exact .bind (functionBody_counts counts) fun (params, body) => .pure _

theorem localFunction_counts : Counts depth (localFunction inner) (localFunction plain) := by
  refine .bind (keyword_counts .local_) fun _ => ?_
  refine .bind (keyword_counts .function_) fun _ => ?_
  refine .bind ident_counts fun name => ?_
  exact .bind (functionBody_counts counts) fun (params, body) => .pure _

theorem localVars_counts : Counts depth (localVars inner) (localVars plain) := by
  refine .bind (keyword_counts .local_) fun _ => ?_
  refine .bind (commaSeparated_counts binder_counts) fun names => ?_
  refine .bind (eatSymbol_counts .eq) fun given => ?_
  exact .ite (.bind (exprs_counts counts) fun values => .pure _) (.pure _)

theorem returnStmt_counts : Counts depth (returnStmt inner) (returnStmt plain) := by
  refine spanned_counts (.bind (keyword_counts .return_) fun _ => ?_)
  refine .bind peek_counts fun next => ?_
  refine .bind (isAt_counts _) fun semicolon => ?_
  exact .ite (.pure _) (.bind (exprs_counts counts) fun values => .pure _)

omit counts in
theorem checkAssignable_counts (target : Expr) :
    Counts depth (checkAssignable target) (checkAssignable target) :=
  .ite (.pure _) (.fail _ _)

theorem compound_counts (op : BinaryOp) (target : Expr) :
    Counts depth (compound inner op target) (compound plain op target) := by
  refine .bind advance_counts fun _ => ?_
  refine .bind (checkAssignable_counts target) fun _ => ?_
  exact .bind (expr_counts counts) fun value => .pure _

theorem assignment_counts (first : Expr) :
    Counts depth (assignment inner first) (assignment plain first) := by
  have checked (targets : List Expr) :
      Counts depth (targets.forM checkAssignable) (targets.forM checkAssignable) := by
    induction targets with
    | nil => exact .pure _
    | cons target targets ih => exact .bind (checkAssignable_counts target) fun _ => ih
  have behind (more : List Expr) : Counts depth
      (do
        (first :: more).forM checkAssignable
        symbol .eq
        let values ← exprs inner
        return (Stmt.assign · (first :: more) values))
      (do
        (first :: more).forM checkAssignable
        symbol .eq
        let values ← exprs plain
        return (Stmt.assign · (first :: more) values)) := by
    refine .bind (checked _) fun _ => ?_
    refine .bind (symbol_counts .eq) fun _ => ?_
    exact .bind (exprs_counts counts) fun values => .pure _
  refine .bind (eatSymbol_counts .comma) fun further => .ite (.bind ?_ behind) (behind [])
  exact commaSeparated_counts (suffixed_counts counts)

theorem exprStmt_counts : Counts depth (exprStmt inner) (exprStmt plain) := by
  refine .bind (suffixed_counts counts) fun first => ?_
  refine .bind peek_counts fun next => ?_
  split
  · exact compound_counts counts _ first
  · exact .ite (assignment_counts counts first) (.ite (.pure _) (.fail _ _))

theorem statement_counts : Counts depth (statement inner) (statement plain) := by
  refine spanned_counts (.bind peek_counts fun kind => ?_)
  split
  · refine .bind (keyword_counts .do_) fun _ => ?_
    exact .bind (ending_counts counts .end_) fun body => .pure _
  · exact whileLoop_counts counts
  · exact repeatLoop_counts counts
  · exact conditional_counts counts
  · exact forLoop_counts counts
  · exact function_counts counts
  · refine .bind peekSecond_counts fun second => ?_
    exact .ite (localFunction_counts counts) (localVars_counts counts)
  · exact .bind advance_counts fun _ => .pure _
  · exact .bind advance_counts fun _ => .pure _
  · exact exprStmt_counts counts

theorem block_counts : Counts depth (block inner) (block plain) := by
  have semicolons_counts : Counts depth semicolons semicolons := by
    refine iterate_counts (fun _ => ?_) ()
    exact .bind (eatSymbol_counts .semicolon) fun more => .ite (.pure _) (.pure _)
  have next : Counts depth (nextStatement inner) (nextStatement plain) := by
    refine .bind semicolons_counts fun _ => ?_
    refine .bind peek_counts fun kind => .ite (.pure _) ?_
    exact .bind (statement_counts counts) fun s => .pure _
  refine .bind (many_counts next) fun body => ?_
  refine .bind (isAt_counts _) fun returns => .ite ?_ (.pure _)
  refine .bind (returnStmt_counts counts) fun last => ?_
  exact .bind (eatSymbol_counts .semicolon) fun _ => .pure _

theorem chunk_counts : Counts depth (chunk inner) (chunk plain) := by
  refine .bind counts.block fun body => ?_
  exact .bind (expect_counts .eof) fun _ => .pure _

end

namespace Level

def above (inner : Level) : Level where
  operators := Grammar.operators inner
  block := Grammar.block inner
  elseif := spanned (conditional inner)

/-- The readers with the given number of levels free. -/
def free : Nat → Level
  | 0 => exhausted
  | levels + 1 => above (free levels)

/-- As many levels are free as the limit is above the counter, and no more than there are. -/
theorem counts_ofNat (levels depth : Nat) :
    Level.Counts depth (ofNat levels) (free (min levels (maxNesting - depth))) := by
  induction levels generalizing depth with
  | zero =>
    rw [Nat.zero_min]
    refine ⟨fun _ => ?_, ?_, ?_⟩ <;>
    exact .bind currentSpan_counts fun span => .fail _ _
  | succ levels ih =>
    rcases Nat.lt_or_ge depth maxNesting with below | full
    · -- What nests is read with the counter one higher, and with one level less.
      have inner := ih (depth + 1)
      have left : min (levels + 1) (maxNesting - depth) =
          min levels (maxNesting - (depth + 1)) + 1 := by omega
      rw [left]
      exact {
        operators := fun limit => .nested below (operators_counts inner limit)
        block := .nested below (block_counts inner)
        elseif := spanned_counts (.nested below (conditional_counts inner)) }
    · rw [Nat.sub_eq_zero_of_le full, Nat.min_zero]
      exact {
        operators := fun limit => .nested_full full
        block := .nested_full full
        elseif := spanned_counts (.nested_full full) }

/-- The outermost readers read what nests in them by themselves: the limit is met before the levels
    that there are run out, wherever the counter stands. -/
theorem outermost_unfolds (c : Cursor) :
    (∀ limit, (outermost.operators limit).runOn c =
      (Parse.nested (Grammar.operators outermost limit)).runOn c) ∧
    outermost.block.runOn c = (Parse.nested (Grammar.block outermost)).runOn c ∧
    outermost.elseif.runOn c = (spanned (Parse.nested (conditional outermost))).runOn c := by
  have counts := counts_ofNat (maxNesting + 1) c.depth
  have inside := counts_ofNat (maxNesting + 2) c.depth
  have same : min (maxNesting + 2) (maxNesting - c.depth) =
      min (maxNesting + 1) (maxNesting - c.depth) := by omega
  rw [same] at inside
  exact ⟨fun limit => (counts.operators limit).runOn_congr (inside.operators limit),
    counts.block.runOn_congr inside.block, counts.elseif.runOn_congr inside.elseif⟩

theorem counts_outermost : Level.Counts 0 outermost (free maxNesting) :=
  counts_ofNat (maxNesting + 1) 0

end Level

end Grammar

namespace Parser

def exprReader : Parse Expr := Grammar.expr (.free maxNesting)

def chunkReader : Parse Block := Grammar.chunk (.free maxNesting)

theorem expr_eq_run {p : Parser} (start : p.depth = 0) : p.expr = p.run exprReader := by
  simp only [expr, run, exprReader]
  rw [(Grammar.expr_counts Grammar.Level.counts_outermost).runOn_eq start]

theorem chunk_eq_run {p : Parser} (start : p.depth = 0)
    (noError : p.tokens.find? (·.kind = .error) = none) : p.chunk = p.run chunkReader := by
  simp only [chunk, noError, run, chunkReader]
  rw [(Grammar.chunk_counts Grammar.Level.counts_outermost).runOn_eq start]

end Parser

theorem parse_eq_chunkReader {source : String}
    (noError : (tokenize source).find? (·.kind = .error) = none) :
    parse source = (Parser.chunkReader.runOn (Parser.ofSource source).cursor).1 := by
  rw [parse, Parser.chunk_eq_run rfl noError]
  rfl

theorem parse_eq_error {source : String} {bad : Token}
    (found : (tokenize source).find? (·.kind = .error) = some bad) :
    parse source = .error ⟨.invalidToken, bad.span⟩ := by
  simp only [parse, Parser.chunk, Parser.ofSource, Parser.ofTokens, found]

theorem chunkReader_of_parse {source : String} {chunk : Block} (read : parse source = .ok chunk) :
    (tokenize source).find? (·.kind = .error) = none ∧
      ∃ after, Parser.chunkReader.runOn (Parser.ofSource source).cursor = (.ok chunk, after) := by
  cases found : (tokenize source).find? (·.kind = .error) with
  | some bad =>
    rw [parse_eq_error found] at read
    cases read
  | none =>
    rw [parse_eq_chunkReader found] at read
    exact ⟨rfl, _, Prod.ext read rfl⟩

end LuaSearch
