import LuaSearch.Parse.Chunk
import LuaSearch.Proofs.Parse.Steps.Expression

/-!
The readers of statements and blocks step. A statement takes a token and a block may be empty; the
readers of all levels follow by induction on the number of levels left.
-/
namespace LuaSearch

open Parse

namespace Grammar

variable {inner : Level} {c d : Cursor}

theorem functionPath_steps : Consumes c d functionPath := by
  apply ident_steps.after
  intro name c
  refine chain_steps ?_ _
  intro path c d
  apply (eatSymbol_steps .dot).bind
  · intro dotted c _
    apply Steps.ite
    · apply ident_steps.next
      intro field c
      exact .pure id
    · exact .pure id
  · intro dotted notDotted
    rw [if_neg notDotted]
    exact .pure (by simp)

theorem checkAssignable_steps (target : Expr) : Proceeds c c (checkAssignable target) :=
  .ite (.pure id) (.fail (by simp) _)

theorem checkAll_steps (targets : List Expr) : Proceeds c c (targets.forM checkAssignable) := by
  induction targets generalizing c with
  | nil => exact .pure id
  | cons target targets ih =>
    apply (checkAssignable_steps target).next
    intro _ c
    exact ih

theorem semicolons_steps : Proceeds c d semicolons := by
  refine iterate_steps ?_ _
  intro _ c d
  apply (eatSymbol_steps .semicolon).bind
  · intro eaten c _
    exact .ite (.pure id) (.pure id)
  · intro eaten notEaten
    rw [if_neg notEaten]
    exact .pure (by simp [Round.goesOn])

section

variable (steps : inner.Steps)

include steps

theorem ending_steps (word : Keyword) : Consumes c c (ending inner word) := by
  apply steps.block.bind
  · intro body c _
    apply (keyword_steps word).next
    intro _ c
    exact .pure id
  · intro body _
    apply (keyword_steps word).after
    intro _ c
    exact .pure id

theorem doBlock_steps : Consumes c d (doBlock inner) := by
  apply (keyword_steps .do_).after
  intro _ c
  apply (ending_steps steps .end_).next
  intro body c
  exact .pure id

theorem whileLoop_steps : Consumes c d (whileLoop inner) := by
  apply (keyword_steps .while_).after
  intro _ c
  apply (expr_steps steps).next
  intro condition c
  apply (keyword_steps .do_).next
  intro _ c
  apply (ending_steps steps .end_).next
  intro body c
  exact .pure id

theorem repeatLoop_steps : Consumes c d (repeatLoop inner) := by
  apply (keyword_steps .repeat_).after
  intro _ c
  apply (ending_steps steps .until_).next
  intro body c
  apply (expr_steps steps).next
  intro condition c
  exact .pure id

theorem elseBody_steps : Proceeds c c (elseBody inner) := by
  apply peek_steps
  split
  · rename_i seen
    apply (steps.elseif (by simp [seen])).next
    intro s c
    exact .pure id
  · rename_i seen
    apply (advance_steps (by simp [seen])).next
    intro _ c
    exact (ending_steps steps .end_).proceeds
  · apply (keyword_steps .end_).next
    intro _ c
    exact .pure id

theorem conditional_steps (notEnd : c.current.kind ≠ .eof) : Consumes c d (conditional inner) := by
  apply (advance_steps notEnd).after
  intro _ c
  apply (expr_steps steps).next
  intro condition c
  apply (keyword_steps .then_).next
  intro _ c
  apply steps.block.next
  intro thenBody c
  apply (elseBody_steps steps).next
  intro elseBody c
  exact .pure id

theorem numericFor_steps (var : String) : Proceeds c c (numericFor inner var) := by
  apply (expr_steps steps).next
  intro start c
  apply (symbol_steps .comma).next
  intro _ c
  apply (expr_steps steps).next
  intro limit c
  have stepped {c : Cursor} : Proceeds c c (some <$> expr inner) := by
    rw [map_eq_pure_bind]
    apply (expr_steps steps).next
    intro step c
    exact .pure id
  apply (eatSymbol_steps .comma).next
  intro further c
  apply stepped.optional
  intro step? c
  apply (keyword_steps .do_).next
  intro _ c
  apply (ending_steps steps .end_).next
  intro body c
  exact .pure id

theorem genericFor_steps (first : String) : Proceeds c c (genericFor inner first) := by
  apply (eatSymbol_steps .comma).next
  intro further c
  apply (commaSeparated_steps ident_steps).optional
  intro more c
  apply (keyword_steps .in_).next
  intro _ c
  apply (exprs_steps steps).next
  intro values c
  apply (keyword_steps .do_).next
  intro _ c
  apply (ending_steps steps .end_).next
  intro body c
  exact .pure id

theorem forLoop_steps : Consumes c d (forLoop inner) := by
  apply (keyword_steps .for_).after
  intro _ c
  apply ident_steps.next
  intro first c
  apply (eatSymbol_steps .eq).next
  intro numeric c
  exact .ite (numericFor_steps steps _) (genericFor_steps steps _)

theorem function_steps : Consumes c d (function inner) := by
  refine (keyword_steps .function_).after ?_
  intro _ c
  refine functionPath_steps.next ?_
  intro target c
  apply (eatSymbol_steps .colon).next
  intro isMethod c
  apply Steps.ite
  · apply ident_steps.next
    intro method c
    refine (functionBody_steps steps).next ?_
    intro given c
    exact .pure id
  · refine (functionBody_steps steps).next ?_
    intro given c
    exact .pure id

theorem localFunction_steps : Consumes c d (localFunction inner) := by
  apply (keyword_steps .local_).after
  intro _ c
  refine (keyword_steps .function_).next ?_
  intro _ c
  apply ident_steps.next
  intro name c
  refine (functionBody_steps steps).next ?_
  intro given c
  exact .pure id

theorem localVars_steps : Consumes c d (localVars inner) := by
  apply (keyword_steps .local_).after
  intro _ c
  apply (commaSeparated_steps binder_steps).next
  intro names c
  apply (eatSymbol_steps .eq).next
  intro given c
  apply (exprs_steps steps).optional
  intro values c
  exact .pure id

theorem returnStmt_steps : Consumes c d (returnStmt inner) := by
  apply spanned_steps
  apply (keyword_steps .return_).after
  intro _ c
  apply peek_steps
  apply isAt_steps
  apply (exprs_steps steps).ruledOut
  intro values c
  exact .pure id

theorem compound_steps {op : BinaryOp} (seen : BinaryOp.ofCompound? c.current.kind = some op)
    (target : Expr) : Proceeds c c (compound inner op target) := by
  have notEnd : c.current.kind ≠ .eof := by
    intro ends
    rw [ends] at seen
    cases seen
  apply (advance_steps notEnd).next
  intro _ c
  apply (checkAssignable_steps target).next
  intro _ c
  apply (expr_steps steps).next
  intro value c
  exact .pure id

theorem assignment_steps (first : Expr) : Proceeds c c (assignment inner first) := by
  apply (eatSymbol_steps .comma).next
  intro further c
  apply (commaSeparated_steps (suffixed_steps steps)).optional
  intro more c
  apply (checkAll_steps _).next
  intro _ c
  apply (symbol_steps .eq).next
  intro _ c
  apply (exprs_steps steps).next
  intro values c
  exact .pure id

theorem exprStmt_steps : Consumes c d (exprStmt inner) := by
  apply (suffixed_steps steps).after
  intro first c
  apply peek_steps
  split
  · rename_i op seen
    exact compound_steps steps seen first
  · apply Steps.ite
    · exact assignment_steps steps first
    · exact .ite (.pure id) (.fail (by simp) _)

theorem statement_steps : Consumes c d (statement inner) := by
  apply spanned_steps
  apply peek_steps
  split
  · exact doBlock_steps steps
  · exact whileLoop_steps steps
  · exact repeatLoop_steps steps
  · rename_i seen
    exact conditional_steps steps (by simp [seen])
  · exact forLoop_steps steps
  · exact function_steps steps
  · apply peekSecond_steps
    exact .ite (localFunction_steps steps) (localVars_steps steps)
  · rename_i seen
    exact token_steps (by simp [seen]) _
  · rename_i seen
    exact token_steps (by simp [seen]) _
  · exact exprStmt_steps steps

/-- Semicolons alone are no statement, and with a statement more than semicolons is taken. -/
theorem nextStatement_steps : Steps c d (fun s? => s?.isSome) (nextStatement inner) := by
  apply semicolons_steps.anywhere
  intro _ c d
  apply peek_steps
  apply Steps.ite
  · exact .pure (by simp)
  · apply (statement_steps steps).after
    intro s c
    exact .pure id

theorem block_steps : Proceeds c d (block inner) := by
  apply (many_steps (nextStatement_steps steps)).anywhere
  intro body c d
  apply isAt_steps
  apply Steps.ite
  · apply (returnStmt_steps steps).after
    intro last c
    apply (eatSymbol_steps .semicolon).next
    intro _ c
    exact .pure id
  · exact .pure id

end

theorem Level.steps_ofNat (levels : Nat) : (Level.ofNat levels).Steps := by
  induction levels with
  | zero =>
    have tooDeep : Fault.tooDeep ≠ .stalled := by simp
    exact ⟨fun _ => .fail_here tooDeep, .fail_here tooDeep, fun _ => .fail_here tooDeep⟩
  | succ levels ih =>
    exact {
      operators := fun limit => nested_steps (operators_steps ih limit)
      block := nested_steps (block_steps ih)
      elseif := fun notEnd => spanned_steps (nested_steps (conditional_steps ih notEnd)) }

end Grammar

end LuaSearch
