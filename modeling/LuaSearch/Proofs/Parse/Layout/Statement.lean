import LuaSearch.Proofs.Parse.Levels
import LuaSearch.Proofs.Parse.Layout.Expression

/-!
Layout does not reach statements, blocks and whole texts. The readers of all levels follow by
induction on the number of levels left.
-/
namespace LuaSearch

open Parse Relabeling

namespace Grammar

section

variable {inner : Level} (agrees : inner.Agrees)

include agrees

theorem ending_agree (word : Keyword) :
    Agree SameBlock (ending inner word) (ending inner word) := by
  apply agrees.block.bind
  intro body body' same
  apply (keyword_agree word).bind_eq
  intro _
  exact .pure same

theorem doBlock_agree : Agree (Builds SameStmt) (doBlock inner) (doBlock inner) := by
  apply (keyword_agree .do_).bind_eq
  intro _
  apply (ending_agree agrees .end_).bind
  intro body body' same
  apply Agree.pure
  intro span span'
  simp only [SameStmt, Relabeling.stmt, same]
  rfl

theorem whileLoop_agree : Agree (Builds SameStmt) (whileLoop inner) (whileLoop inner) := by
  apply (keyword_agree .while_).bind_eq
  intro _
  apply (expr_agree agrees).bind
  intro condition condition' sameCondition
  apply (keyword_agree .do_).bind_eq
  intro _
  apply (ending_agree agrees .end_).bind
  intro body body' sameBody
  apply Agree.pure
  intro span span'
  simp only [SameStmt, Relabeling.stmt, sameCondition, sameBody]
  rfl

theorem repeatLoop_agree : Agree (Builds SameStmt) (repeatLoop inner) (repeatLoop inner) := by
  apply (keyword_agree .repeat_).bind_eq
  intro _
  apply (ending_agree agrees .until_).bind
  intro body body' sameBody
  apply (expr_agree agrees).bind
  intro condition condition' sameCondition
  apply Agree.pure
  intro span span'
  simp only [SameStmt, Relabeling.stmt, sameCondition, sameBody]
  rfl

theorem elseBody_agree : Agree SameBlock (elseBody inner) (elseBody inner) := by
  apply peek_agree.bind_eq
  intro kind
  split
  · apply agrees.elseif.bind
    intro s s' same
    exact .pure (congrArg (fun s => [s]) same)
  · apply advance_agree.bind
    intro _ _ _
    exact ending_agree agrees .end_
  · apply (keyword_agree .end_).bind_eq
    intro _
    exact .pure rfl

theorem conditional_agree : Agree (Builds SameStmt) (conditional inner) (conditional inner) := by
  apply advance_agree.bind
  intro _ _ _
  apply (expr_agree agrees).bind
  intro condition condition' sameCondition
  apply (keyword_agree .then_).bind_eq
  intro _
  apply agrees.block.bind
  intro thenBody thenBody' sameThen
  apply (elseBody_agree agrees).bind
  intro elseBody elseBody' sameElse
  apply Agree.pure
  intro span span'
  simp only [SameStmt, Relabeling.stmt, sameCondition, sameThen, sameElse]
  rfl

theorem numericFor_agree (var : String) :
    Agree (Builds SameStmt) (numericFor inner var) (numericFor inner var) := by
  apply (expr_agree agrees).bind
  intro start start' sameStart
  apply (symbol_agree .comma).bind_eq
  intro _
  apply (expr_agree agrees).bind
  intro limit limit' sameLimit
  have stepped : Agree (fun e e' => e.map eraseSpans.expr = e'.map eraseSpans.expr)
      (some <$> Grammar.expr inner) (some <$> Grammar.expr inner) := by
    rw [map_eq_pure_bind]
    apply (expr_agree agrees).bind
    intro step step' same
    exact .pure (congrArg some same)
  apply (eatSymbol_agree .comma).bind_eq
  intro further
  apply stepped.optional rfl
  intro step? step?' sameStep
  apply (keyword_agree .do_).bind_eq
  intro _
  apply (ending_agree agrees .end_).bind
  intro body body' sameBody
  apply Agree.pure
  intro span span'
  have steps : eraseSpans.step span step? = eraseSpans.step span' step?' := by
    cases step? <;> cases step?' <;> simp_all [Relabeling.step, absentStep, eraseSpans]
  simp only [SameStmt, Relabeling.stmt, sameStart, sameLimit, steps, sameBody]
  rfl

theorem genericFor_agree (first : String) :
    Agree (Builds SameStmt) (genericFor inner first) (genericFor inner first) := by
  have names : Agree (fun a b => Token.text a = Token.text b) ident ident :=
    ident_agree.mono fun _ _ alike => alike.text
  apply (eatSymbol_agree .comma).bind_eq
  intro further
  apply (commaSeparated_agree names).optional rfl
  intro more more' sameNames
  apply (keyword_agree .in_).bind_eq
  intro _
  apply (exprs_agree agrees).bind
  intro values values' sameValues
  apply (keyword_agree .do_).bind_eq
  intro _
  apply (ending_agree agrees .end_).bind
  intro body body' sameBody
  apply Agree.pure
  intro span span'
  simp only [SameStmt, Relabeling.stmt, sameNames, sameValues, sameBody]
  rfl

theorem forLoop_agree : Agree (Builds SameStmt) (forLoop inner) (forLoop inner) := by
  apply (keyword_agree .for_).bind_eq
  intro _
  apply ident_agree.bind
  intro first first' alike
  apply (eatSymbol_agree .eq).bind_eq
  intro numeric
  rw [alike.text]
  apply Agree.ite
  · intro _
    exact numericFor_agree agrees first'.text
  · intro _
    exact genericFor_agree agrees first'.text

omit agrees in
theorem functionPath_agree : Agree SameExpr functionPath functionPath := by
  apply ident_agree.bind
  intro name name' alike
  have start : SameExpr (.ident name.span name.text) (.ident name'.span name'.text) := by
    simp only [SameExpr, Relabeling.expr, alike.text]
    rfl
  refine chain_agree ?_ start
  intro path path' same
  apply (eatSymbol_agree .dot).bind_eq
  intro dotted
  apply Agree.ite
  · intro _
    apply ident_agree.bind
    intro field field' alikeField
    exact .pure (congrArg some (SameExpr.ofField same alikeField))
  · intro _
    exact .pure rfl

theorem function_agree : Agree (Builds SameStmt) (function inner) (function inner) := by
  refine (keyword_agree .function_).bind_eq ?_
  intro _
  refine functionPath_agree.bind ?_
  intro target target' sameTarget
  apply (eatSymbol_agree .colon).bind_eq
  intro isMethod
  apply Agree.ite
  · intro _
    apply ident_agree.bind
    intro method method' alike
    refine (functionBody_agree agrees).bind ?_
    rintro ⟨ps, body⟩ ⟨ps', body'⟩ ⟨sameParams, sameBody⟩
    apply Agree.pure
    intro span span'
    simp only [Relabeling.params, Params.mk.injEq] at sameParams
    simp only [SameStmt, Relabeling.stmt, Relabeling.params, List.map_cons, sameTarget, alike.text,
      sameParams, sameBody]
    rfl
  · intro _
    refine (functionBody_agree agrees).bind ?_
    rintro ⟨ps, body⟩ ⟨ps', body'⟩ ⟨sameParams, sameBody⟩
    apply Agree.pure
    intro span span'
    simp only [SameStmt, Relabeling.stmt, sameTarget, sameParams, sameBody]
    rfl

theorem localFunction_agree :
    Agree (Builds SameStmt) (localFunction inner) (localFunction inner) := by
  apply (keyword_agree .local_).bind_eq
  intro _
  refine (keyword_agree .function_).bind_eq ?_
  intro _
  apply ident_agree.bind
  intro name name' alike
  refine (functionBody_agree agrees).bind ?_
  rintro ⟨ps, body⟩ ⟨ps', body'⟩ ⟨sameParams, sameBody⟩
  apply Agree.pure
  intro span span'
  simp only [SameStmt, Relabeling.stmt, alike.text, sameParams, sameBody]
  rfl

theorem localVars_agree : Agree (Builds SameStmt) (localVars inner) (localVars inner) := by
  apply (keyword_agree .local_).bind_eq
  intro _
  apply (commaSeparated_agree binder_agree).bind
  intro names names' sameNames
  apply (eatSymbol_agree .eq).bind_eq
  intro given
  apply (exprs_agree agrees).optional rfl
  intro values values' sameValues
  apply Agree.pure
  intro span span'
  simp only [SameStmt, Relabeling.stmt, sameNames, sameValues]
  rfl

theorem returnStmt_agree : Agree SameStmt (returnStmt inner) (returnStmt inner) := by
  apply spanned_agree
  apply (keyword_agree .return_).bind_eq
  intro _
  apply peek_agree.bind_eq
  intro kind
  apply (isAt_agree _).bind_eq
  intro closed
  apply (exprs_agree agrees).ruledOut rfl
  intro values values' same
  apply Agree.pure
  intro span span'
  simp only [SameStmt, Relabeling.stmt, same]
  rfl

omit agrees in
theorem checkAssignable_agree {target target' : Expr} (same : SameExpr target target') :
    Agree Eq (checkAssignable target) (checkAssignable target') := by
  unfold checkAssignable
  rw [SameExpr.isAssignable same]
  apply Agree.ite
  · intro _
    exact .pure rfl
  · intro _
    exact .fail _ _ _

omit agrees in
theorem checkAll_agree (targets : List Expr) :
    ∀ targets' : List Expr, targets.map eraseSpans.expr = targets'.map eraseSpans.expr →
      Agree Eq (targets.forM checkAssignable) (targets'.forM checkAssignable) := by
  induction targets with
  | nil =>
    intro targets' same
    cases targets' with
    | nil => exact .pure rfl
    | cons target' rest' => cases same
  | cons target rest ih =>
    intro targets' same
    cases targets' with
    | nil => cases same
    | cons target' rest' =>
      obtain ⟨sameTarget, sameRest⟩ := List.cons.inj same
      apply (checkAssignable_agree sameTarget).bind_eq
      intro _
      exact ih rest' sameRest

theorem compound_agree (op : BinaryOp) {target target' : Expr} (same : SameExpr target target') :
    Agree (Builds SameStmt) (compound inner op target) (compound inner op target') := by
  apply advance_agree.bind
  intro _ _ _
  apply (checkAssignable_agree same).bind_eq
  intro _
  apply (expr_agree agrees).bind
  intro value value' sameValue
  apply Agree.pure
  intro span span'
  have applied := SameExpr.ofBinary same op sameValue
  simp only [SameStmt, Relabeling.stmt, Relabeling.exprs, applied, same]
  rfl

theorem assignment_agree {first first' : Expr} (same : SameExpr first first') :
    Agree (Builds SameStmt) (assignment inner first) (assignment inner first') := by
  apply (eatSymbol_agree .comma).bind_eq
  intro further
  apply (commaSeparated_agree (suffixed_agree agrees)).optional rfl
  intro more more' sameMore
  -- The check fails at the first target that cannot be assigned to, the same in both lists.
  have targets : (first :: more).map eraseSpans.expr = (first' :: more').map eraseSpans.expr := by
    simp only [List.map_cons, same, sameMore]
  apply (checkAll_agree _ _ targets).bind_eq
  intro _
  apply (symbol_agree .eq).bind_eq
  intro _
  apply (exprs_agree agrees).bind
  intro values values' sameValues
  apply Agree.pure
  intro span span'
  simp only [SameStmt, Relabeling.stmt, exprs_eq_map eraseSpans (_ :: _), targets, sameValues]
  rfl

theorem exprStmt_agree : Agree (Builds SameStmt) (exprStmt inner) (exprStmt inner) := by
  apply (suffixed_agree agrees).bind
  intro first first' same
  apply peek_agree.bind_eq
  intro next
  split
  · rename_i op _
    exact compound_agree agrees op same
  · apply Agree.ite
    · intro _
      exact assignment_agree agrees same
    · intro _
      rw [SameExpr.isCall same]
      apply Agree.ite
      · intro _
        apply Agree.pure
        intro span span'
        simp only [SameStmt, Relabeling.stmt, same]
        rfl
      · intro _
        exact .fail _ _ _

theorem statement_agree : Agree SameStmt (statement inner) (statement inner) := by
  apply spanned_agree
  apply peek_agree.bind_eq
  intro kind
  split
  · exact doBlock_agree agrees
  · exact whileLoop_agree agrees
  · exact repeatLoop_agree agrees
  · exact conditional_agree agrees
  · exact forLoop_agree agrees
  · exact function_agree agrees
  · apply peekSecond_agree.bind_eq
    intro second
    apply Agree.ite
    · intro _
      exact localFunction_agree agrees
    · intro _
      exact localVars_agree agrees
  · apply advance_agree.bind
    intro _ _ _
    exact .pure fun _ _ => rfl
  · apply advance_agree.bind
    intro _ _ _
    exact .pure fun _ _ => rfl
  · exact exprStmt_agree agrees

omit agrees in
theorem semicolons_agree : Agree Eq semicolons semicolons := by
  refine iterate_agree (S := Eq) ?_ rfl
  intro _ _ _
  apply (eatSymbol_agree .semicolon).bind_eq
  intro eaten
  apply Agree.ite
  · intro _
    exact .pure (.again rfl)
  · intro _
    exact .pure (.done rfl)

theorem nextStatement_agree :
    Agree (fun s s' => s.map eraseSpans.stmt = s'.map eraseSpans.stmt) (nextStatement inner)
      (nextStatement inner) := by
  apply semicolons_agree.bind_eq
  intro _
  apply peek_agree.bind_eq
  intro next
  apply Agree.ite
  · intro _
    exact .pure rfl
  · intro _
    apply (statement_agree agrees).bind
    intro s s' same
    exact .pure (congrArg some same)

theorem block_agree : Agree SameBlock (block inner) (block inner) := by
  apply (many_agree (nextStatement_agree agrees)).bind
  intro body body' sameBody
  apply (isAt_agree _).bind_eq
  intro returns
  apply Agree.ite
  · intro _
    apply (returnStmt_agree agrees).bind
    intro last last' sameLast
    apply (eatSymbol_agree .semicolon).bind_eq
    intro _
    apply Agree.pure
    simp only [SameBlock, stmts_eq_map, List.map_append, List.map_cons, sameBody, sameLast]
  · intro _
    apply Agree.pure
    simpa only [SameBlock, stmts_eq_map] using sameBody

theorem Level.Agrees.above : (Level.above inner).Agrees where
  operators := operators_agree agrees
  block := block_agree agrees
  elseif := spanned_agree (conditional_agree agrees)

end

theorem Level.agrees_free (levels : Nat) : (Level.free levels).Agrees := by
  induction levels with
  | zero =>
    exact ⟨fun _ => .fail_here .tooDeep, .fail_here .tooDeep, .fail_here .tooDeep⟩
  | succ levels ih => exact ih.above

end Grammar

end LuaSearch
