import LuaSearch.Parse.Expression
import LuaSearch.Proofs.Parse.Steps

/-!
The readers of expressions step, if the readers for one level further in do. An expression takes a
token; a suffix or an operation that is there takes one; parameters and the fields of a table may be
absent.
-/
namespace LuaSearch

open Parse

namespace Grammar

/-- The readers of a level step. A block may be empty, and an `elseif` is read only where there is
    one. -/
structure Level.Steps (inner : Level) : Prop where
  operators {c d : Cursor} (limit : Nat) : Consumes c d (inner.operators limit)
  block {c d : Cursor} : Proceeds c d inner.block
  elseif {c d : Cursor} (notEnd : c.current.kind ≠ .eof) : Consumes c d inner.elseif

variable {inner : Level} {c d : Cursor}

theorem ident_steps : Consumes c d ident := expect_steps (by simp)

theorem binder_steps : Consumes c d binder := by
  apply ident_steps.after
  intro name c
  exact .pure id

theorem param_steps : Consumes c d param := by
  apply (eatSymbol_steps .ellipsis).bind
  · intro dots c _
    apply Steps.ite
    · exact .pure id
    · apply binder_steps.next
      intro name c
      apply (eatSymbol_steps .comma).next
      intro more c
      exact .pure id
  · -- Without the dots a name has to follow.
    intro dots notDots
    rw [if_neg notDots]
    apply binder_steps.after
    intro name c
    apply (eatSymbol_steps .comma).next
    intro more c
    exact .pure id

theorem params_steps : Proceeds c d params := by
  apply isAt_steps
  apply Steps.ite
  · exact .pure id
  · apply (series_steps param_steps).after
    intro given c
    exact .pure id

theorem single_steps (notEnd : c.current.kind ≠ .eof) (build : Token → Span → Expr) :
    Consumes c d (spanned do return build (← advance)) := by
  apply spanned_steps
  exact token_steps notEnd _

theorem fieldSeparator_steps : Steps c d (· = true) fieldSeparator := by
  apply (eatSymbol_steps .comma).bind
  · intro comma c _
    apply Steps.ite
    · exact .pure id
    · exact (eatSymbol_steps .semicolon).proceeds
  · intro comma notComma
    rw [if_neg notComma]
    exact eatSymbol_steps .semicolon

section

variable (steps : inner.Steps)

include steps

theorem expr_steps : Consumes c d (expr inner) := steps.operators 0

theorem exprs_steps : Consumes c d (exprs inner) := commaSeparated_steps (expr_steps steps)

theorem functionBody_steps : Consumes c d (functionBody inner) := by
  apply (symbol_steps .lparen).after
  intro _ c
  apply params_steps.next
  intro params c
  apply (symbol_steps .rparen).next
  intro _ c
  apply steps.block.next
  intro body c
  apply (keyword_steps .end_).next
  intro _ c
  exact .pure id

theorem field_steps : Consumes c d (field inner) := by
  have positional : Consumes c d (do return Field.positional (← expr inner)) := by
    apply (expr_steps steps).after
    intro value c
    exact .pure id
  apply peek_steps
  split
  · rename_i seen
    apply (advance_steps (by simp [seen])).after
    intro _ c
    apply (expr_steps steps).next
    intro key c
    apply (symbol_steps .rbracket).next
    intro _ c
    apply (symbol_steps .eq).next
    intro _ c
    apply (expr_steps steps).next
    intro value c
    exact .pure id
  · apply peekSecond_steps
    apply Steps.ite
    · apply ident_steps.after
      intro name c
      apply (symbol_steps .eq).next
      intro _ c
      apply (expr_steps steps).next
      intro value c
      exact .pure id
    · exact positional
  · exact positional

theorem tableItem_steps :
    Consumes c d (do
      let one ← field inner
      if ← fieldSeparator then return (one, !(← isAt (.symbol .rbrace)))
      else return (one, false)) := by
  apply (field_steps steps).after
  intro one c
  apply fieldSeparator_steps.next
  intro separated c
  apply Steps.ite
  · apply isAt_steps
    exact .pure id
  · exact .pure id

theorem tableFields_steps : Proceeds c d (tableFields inner) := by
  apply isAt_steps
  apply Steps.ite
  · exact .pure id
  · exact (series_steps (tableItem_steps steps)).proceeds

theorem table_steps : Consumes c d (table inner) := by
  apply (symbol_steps .lbrace).after
  intro _ c
  apply (tableFields_steps steps).next
  intro fields c
  apply (symbol_steps .rbrace).next
  intro _ c
  exact .pure id

theorem tableExpr_steps :
    Consumes c d (spanned do return (Expr.table · (← table inner))) := by
  apply spanned_steps
  apply (table_steps steps).after
  intro fields c
  exact .pure id

theorem args_steps : Consumes c d (args inner) := by
  apply peek_steps
  split
  · rename_i seen
    apply (advance_steps (by simp [seen])).after
    intro _ c
    apply isAt_steps
    apply (exprs_steps steps).ruledOut
    intro given c
    apply (symbol_steps .rparen).next
    intro _ c
    exact .pure id
  · apply (tableExpr_steps steps).after
    intro e c
    exact .pure id
  · rename_i seen
    exact token_steps (by simp [seen]) _
  · rename_i seen
    exact token_steps (by simp [seen]) _
  · exact .fail_here (by simp)

theorem primary_steps : Consumes c d (primary inner) := by
  apply peek_steps
  split
  · apply ident_steps.after
    intro name c
    exact .pure id
  · rename_i seen
    apply currentSpan_steps
    apply (advance_steps (by simp [seen])).after
    intro _ c
    apply (expr_steps steps).next
    intro inside c
    apply (symbol_steps .rparen).next
    intro _ c
    apply (finish_steps _).next
    intro span c
    exact .pure id
  · exact .fail_here (by simp)
  · exact .fail_here (by simp)

theorem suffix_steps (start : Span) (object : Expr) :
    Steps c d (fun e? => e?.isSome) (suffix inner start object) := by
  have called : Steps c d (fun e? => e?.isSome) (do
      let given ← args inner
      return some (Expr.call (← finish start) object given false)) := by
    apply (args_steps steps).after
    intro given c
    apply (finish_steps start).next
    intro span c
    exact .pure id
  apply peek_steps
  split
  · rename_i seen
    apply (advance_steps (by simp [seen])).after
    intro _ c
    apply ident_steps.next
    intro name c
    exact .pure id
  · rename_i seen
    apply (advance_steps (by simp [seen])).after
    intro _ c
    apply (expr_steps steps).next
    intro key c
    apply (symbol_steps .rbracket).next
    intro _ c
    apply (finish_steps start).next
    intro span c
    exact .pure id
  · rename_i seen
    apply (advance_steps (by simp [seen])).after
    intro _ c
    apply ident_steps.next
    intro method c
    apply (args_steps steps).next
    intro given c
    apply (finish_steps start).next
    intro span c
    exact .pure id
  · exact called
  · exact called
  · exact called
  · exact called
  · exact .pure (by simp)

/-- The start of what stands behind the primary is seen before any token is taken, so it is the same
    from both cursors. -/
theorem suffixed_steps : Consumes c d (suffixed inner) := by
  apply currentSpan_steps
  apply (primary_steps steps).after
  intro object c
  exact chain_steps (fun object => suffix_steps steps _ object) object

theorem simple_steps : Consumes c d (simple inner) := by
  apply peek_steps
  split
  · rename_i seen
    exact single_steps (by simp [seen]) _
  · rename_i seen
    exact single_steps (by simp [seen]) _
  · rename_i seen
    exact single_steps (by simp [seen]) _
  · rename_i seen
    exact single_steps (by simp [seen]) _
  · rename_i seen
    exact single_steps (by simp [seen]) _
  · rename_i seen
    exact single_steps (by simp [seen]) _
  · rename_i seen
    exact single_steps (by simp [seen]) _
  · exact tableExpr_steps steps
  · rename_i seen
    apply spanned_steps
    apply (advance_steps (by simp [seen])).after
    intro _ c
    apply (functionBody_steps steps).next
    intro given c
    exact .pure id
  · exact suffixed_steps steps

theorem operand_steps : Consumes c d (operand inner) := by
  apply peek_steps
  split
  · rename_i op operator
    have notEnd : c.current.kind ≠ .eof := by
      intro ends
      rw [ends] at operator
      cases operator
    apply (advance_steps notEnd).after
    intro sign c
    apply (steps.operators _).next
    intro value c
    exact .pure id
  · exact simple_steps steps

theorem operation_steps (limit : Nat) (left : Expr) :
    Steps c d (fun e? => e?.isSome) (operation inner limit left) := by
  apply peek_steps
  split
  · rename_i op operator
    have notEnd : c.current.kind ≠ .eof := by
      intro ends
      rw [ends] at operator
      cases operator
    apply Steps.ite
    · exact .pure (by simp)
    · apply (advance_steps notEnd).after
      intro _ c
      apply (steps.operators _).next
      intro right c
      exact .pure id
  · exact .pure (by simp)

theorem operators_steps (limit : Nat) : Consumes c d (operators inner limit) := by
  apply (operand_steps steps).after
  intro first c
  exact chain_steps (fun left => operation_steps steps limit left) first

end

end Grammar

end LuaSearch
