import LuaSearch.Parse.Expression
import LuaSearch.Proofs.Parse.Agree
import LuaSearch.Proofs.Syntax.Relabel

/-!
Layout does not reach expressions. Before alike cursors every reader of expressions reads trees
that differ in their spans only, or fails with the same fault, if the readers for one level
further in do.
-/
namespace LuaSearch

open Parse Relabeling

abbrev SameExpr (e e' : Expr) : Prop := eraseSpans.expr e = eraseSpans.expr e'

abbrev SameExprs (es es' : List Expr) : Prop := eraseSpans.exprs es = eraseSpans.exprs es'

abbrev SameStmt (s s' : Stmt) : Prop := eraseSpans.stmt s = eraseSpans.stmt s'

abbrev SameBlock (b b' : Block) : Prop := eraseSpans.stmts b = eraseSpans.stmts b'

theorem isCall_expr (r : Relabeling) (e : Expr) : (r.expr e).isCall = e.isCall := by
  cases e <;> rfl

theorem isAssignable_expr (r : Relabeling) (e : Expr) :
    (r.expr e).isAssignable = e.isAssignable := by
  cases e <;> rfl

theorem expr_parenthesized (r : Relabeling) (outer : Span) (e : Expr) :
    r.expr (e.parenthesized outer) = (r.expr e).parenthesized (r.span outer) := by
  cases e <;> rfl

namespace SameExpr

variable {e e' : Expr} (same : SameExpr e e')

include same

theorem isCall : e.isCall = e'.isCall := by
  rw [← isCall_expr eraseSpans e, same, isCall_expr]

theorem isAssignable : e.isAssignable = e'.isAssignable := by
  rw [← isAssignable_expr eraseSpans e, same, isAssignable_expr]

theorem parenthesized (outer outer' : Span) :
    SameExpr (e.parenthesized outer) (e'.parenthesized outer') := by
  unfold SameExpr
  rw [expr_parenthesized, expr_parenthesized, same]
  rfl

theorem parenthesized_of_not_isCall (noCall : e'.isCall = false) (outer : Span) :
    SameExpr (e.parenthesized outer) e' := by
  have unchanged : SameExpr (e'.parenthesized outer) e' := by
    cases e' <;> first | rfl | cases noCall
  exact (SameExpr.parenthesized same outer outer).trans unchanged

theorem ofField {name name' : Token} (alike : name.Alike name') :
    SameExpr (e.ofField name.span name.text) (e'.ofField name'.span name'.text) := by
  unfold SameExpr at same ⊢
  simp only [Expr.ofField, expr, same, alike.text]
  rfl

theorem ofBinary (op : BinaryOp) {right right' : Expr} (sameRight : SameExpr right right') :
    SameExpr (.ofBinary op e right) (.ofBinary op e' right') := by
  unfold SameExpr at same sameRight ⊢
  simp only [Expr.ofBinary, expr, same, sameRight]
  rfl

end SameExpr

theorem Token.Alike.stringValue {a b : Token} (alike : a.Alike b) :
    a.stringValue = b.stringValue := by
  unfold Token.stringValue
  rw [alike.kind, alike.text]

namespace Grammar

/-- The readers of a level do not see layout. -/
structure Level.Agrees (inner : Level) : Prop where
  operators (limit : Nat) : Agree SameExpr (inner.operators limit) (inner.operators limit)
  block : Agree SameBlock inner.block inner.block
  elseif : Agree SameStmt inner.elseif inner.elseif

variable {inner : Level}

theorem ident_agree : Agree Token.Alike ident ident := expect_agree .ident

theorem binder_agree :
    Agree (fun b b' => eraseSpans.binder b = eraseSpans.binder b') binder binder := by
  apply ident_agree.bind
  intro name name' alike
  apply Agree.pure
  simp only [Relabeling.binder, alike.text]
  rfl

theorem param_agree :
    Agree (fun given given' => given.1.map eraseSpans.binder = given'.1.map eraseSpans.binder ∧
      given.2 = given'.2) param param := by
  apply (eatSymbol_agree .ellipsis).bind_eq
  intro dots
  apply Agree.ite
  · intro _
    exact .pure ⟨rfl, rfl⟩
  · intro _
    apply binder_agree.bind
    intro name name' same
    apply (eatSymbol_agree .comma).bind_eq
    intro more
    exact .pure ⟨congrArg some same, rfl⟩

theorem eraseSpans_given (given : List (Option Binder)) :
    eraseSpans.params ⟨given.filterMap id, given.contains none⟩ =
      ⟨(given.map (Option.map eraseSpans.binder)).filterMap id,
        (given.map (Option.map eraseSpans.binder)).contains none⟩ := by
  have names : (given.filterMap id).map eraseSpans.binder =
      (given.map (Option.map eraseSpans.binder)).filterMap id := by
    simp [List.map_filterMap, List.filterMap_map]
  have dots : given.contains none = (given.map (Option.map eraseSpans.binder)).contains none := by
    rw [Bool.eq_iff_iff]
    simp
  simp only [Relabeling.params, names, dots]

theorem params_agree :
    Agree (fun ps ps' => eraseSpans.params ps = eraseSpans.params ps') params params := by
  apply (isAt_agree _).bind_eq
  intro closed
  apply Agree.ite
  · intro _
    exact .pure rfl
  · intro _
    apply (series_agree param_agree).bind
    intro given given' same
    apply Agree.pure
    rw [eraseSpans_given, eraseSpans_given, same]

theorem fieldSeparator_agree : Agree Eq fieldSeparator fieldSeparator := by
  apply (eatSymbol_agree .comma).bind_eq
  intro comma
  apply Agree.ite
  · intro _
    exact .pure rfl
  · intro _
    exact eatSymbol_agree .semicolon

section

variable (agrees : inner.Agrees)

include agrees

theorem expr_agree : Agree SameExpr (Grammar.expr inner) (Grammar.expr inner) :=
  agrees.operators 0

theorem exprs_agree : Agree SameExprs (Grammar.exprs inner) (Grammar.exprs inner) := by
  apply (commaSeparated_agree (expr_agree agrees)).mono
  intro es es' same
  simpa only [SameExprs, exprs_eq_map] using same

theorem functionBody_agree :
    Agree (fun f f' => eraseSpans.params f.1 = eraseSpans.params f'.1 ∧ SameBlock f.2 f'.2)
      (functionBody inner) (functionBody inner) := by
  apply (symbol_agree .lparen).bind_eq
  intro _
  apply params_agree.bind
  intro ps ps' sameParams
  apply (symbol_agree .rparen).bind_eq
  intro _
  apply agrees.block.bind
  intro body body' sameBody
  apply (keyword_agree .end_).bind_eq
  intro _
  exact .pure ⟨sameParams, sameBody⟩

theorem field_agree :
    Agree (fun f f' => eraseSpans.field f = eraseSpans.field f') (Grammar.field inner)
      (Grammar.field inner) := by
  have positional : Agree (fun f f' => eraseSpans.field f = eraseSpans.field f')
      (do return .positional (← Grammar.expr inner))
      (do return .positional (← Grammar.expr inner)) := by
    apply (expr_agree agrees).bind
    intro value value' same
    exact .pure (congrArg Field.positional same)
  apply peek_agree.bind_eq
  intro kind
  split
  · -- A key in brackets.
    apply advance_agree.bind
    intro _ _ _
    apply (expr_agree agrees).bind
    intro key key' sameKey
    apply (symbol_agree .rbracket).bind_eq
    intro _
    apply (symbol_agree .eq).bind_eq
    intro _
    apply (expr_agree agrees).bind
    intro value value' sameValue
    apply Agree.pure
    simp only [Relabeling.field, sameKey, sameValue]
  · -- A name is a key only before `=`; the token after it is the same in both.
    apply peekSecond_agree.bind_eq
    intro second
    apply Agree.ite
    · intro _
      apply ident_agree.bind
      intro name name' alike
      apply (symbol_agree .eq).bind_eq
      intro _
      apply (expr_agree agrees).bind
      intro value value' sameValue
      apply Agree.pure
      simp only [Relabeling.field, Relabeling.expr, alike.text, sameValue]
      rfl
    · intro _
      exact positional
  · exact positional

theorem tableItem_agree :
    Agree (fun f f' => eraseSpans.field f.1 = eraseSpans.field f'.1 ∧ f.2 = f'.2)
      (do
        let one ← Grammar.field inner
        if ← fieldSeparator then return (one, !(← isAt (.symbol .rbrace)))
        else return (one, false))
      (do
        let one ← Grammar.field inner
        if ← fieldSeparator then return (one, !(← isAt (.symbol .rbrace)))
        else return (one, false)) := by
  apply (field_agree agrees).bind
  intro one one' same
  apply fieldSeparator_agree.bind_eq
  intro separated
  apply Agree.ite
  · intro _
    apply (isAt_agree _).bind_eq
    intro last
    exact .pure ⟨same, rfl⟩
  · intro _
    exact .pure ⟨same, rfl⟩

theorem tableFields_agree :
    Agree (fun fs fs' => eraseSpans.fields fs = eraseSpans.fields fs') (tableFields inner)
      (tableFields inner) := by
  apply (isAt_agree _).bind_eq
  intro closed
  apply Agree.ite
  · intro _
    exact .pure rfl
  · intro _
    apply (series_agree (tableItem_agree agrees)).mono
    intro fs fs' same
    simpa only [fields_eq_map] using same

theorem table_agree :
    Agree (fun fs fs' => eraseSpans.fields fs = eraseSpans.fields fs') (table inner)
      (table inner) := by
  apply (symbol_agree .lbrace).bind_eq
  intro _
  apply (tableFields_agree agrees).bind
  intro fs fs' same
  apply (symbol_agree .rbrace).bind_eq
  intro _
  exact .pure same

theorem tableExpr_agree :
    Agree SameExpr (spanned do return (Expr.table · (← table inner)))
      (spanned do return (Expr.table · (← table inner))) := by
  apply spanned_agree
  apply (table_agree agrees).bind
  intro fs fs' same
  apply Agree.pure
  intro span span'
  simp only [SameExpr, Relabeling.expr, same]
  rfl

theorem args_agree : Agree SameExprs (args inner) (args inner) := by
  apply peek_agree.bind_eq
  intro kind
  split
  · -- A list in parentheses, which may be empty.
    apply advance_agree.bind
    intro _ _ _
    apply (isAt_agree _).bind_eq
    intro closed
    apply (exprs_agree agrees).ruledOut rfl
    intro es es' same
    apply (symbol_agree .rparen).bind_eq
    intro _
    exact .pure same
  · apply (tableExpr_agree agrees).bind
    intro e e' same
    exact .pure (congrArg (fun e => [e]) same)
  · apply advance_agree.bind
    intro token token' alike
    apply Agree.pure
    simp only [SameExprs, Relabeling.exprs, Relabeling.expr, alike.stringValue]
    rfl
  · apply advance_agree.bind
    intro token token' alike
    apply Agree.pure
    simp only [SameExprs, Relabeling.exprs, Relabeling.expr, alike.stringValue]
    rfl
  · exact .fail_here _

theorem primary_agree : Agree SameExpr (primary inner) (primary inner) := by
  apply peek_agree.bind_eq
  intro kind
  split
  · apply ident_agree.bind
    intro name name' alike
    apply Agree.pure
    simp only [SameExpr, Relabeling.expr, alike.text]
    rfl
  · apply currentSpan_agree.bind
    intro start start' _
    apply advance_agree.bind
    intro _ _ _
    apply (expr_agree agrees).bind
    intro inside inside' same
    apply (symbol_agree .rparen).bind_eq
    intro _
    apply (finish_agree start start').bind
    intro span span' _
    exact .pure (SameExpr.parenthesized same span span')
  · exact .fail_here _
  · exact .fail_here _

theorem suffix_agree (start start' : Span) (object object' : Expr)
    (same : SameExpr object object') :
    Agree (fun e e' => e.map eraseSpans.expr = e'.map eraseSpans.expr)
      (suffix inner start object) (suffix inner start' object') := by
  apply peek_agree.bind_eq
  intro kind
  have called : Agree (fun e e' => e.map eraseSpans.expr = e'.map eraseSpans.expr)
      (do
        let given ← args inner
        return some (.call (← finish start) object given false))
      (do
        let given ← args inner
        return some (.call (← finish start') object' given false)) := by
    apply (args_agree agrees).bind
    intro given given' sameGiven
    apply (finish_agree start start').bind
    intro span span' _
    apply Agree.pure
    simp only [Option.map_some, Relabeling.expr, same, sameGiven]
    rfl
  split
  · -- A field.
    apply advance_agree.bind
    intro _ _ _
    apply ident_agree.bind
    intro name name' alike
    exact .pure (congrArg some (SameExpr.ofField same alike))
  · -- An index.
    apply advance_agree.bind
    intro _ _ _
    apply (expr_agree agrees).bind
    intro key key' sameKey
    apply (symbol_agree .rbracket).bind_eq
    intro _
    apply (finish_agree start start').bind
    intro span span' _
    apply Agree.pure
    simp only [Option.map_some, Relabeling.expr, same, sameKey]
    rfl
  · -- A method call.
    apply advance_agree.bind
    intro _ _ _
    apply ident_agree.bind
    intro method method' alike
    apply (args_agree agrees).bind
    intro given given' sameGiven
    apply (finish_agree start start').bind
    intro span span' _
    apply Agree.pure
    simp only [Option.map_some, Relabeling.expr, same, sameGiven, alike.text]
    rfl
  · exact called
  · exact called
  · exact called
  · exact called
  · exact .pure rfl

theorem suffixed_agree : Agree SameExpr (suffixed inner) (suffixed inner) := by
  apply currentSpan_agree.bind
  intro start start' _
  apply (primary_agree agrees).bind
  intro object object' same
  exact chain_agree (suffix_agree agrees start start') same

theorem simple_agree : Agree SameExpr (simple inner) (simple inner) := by
  have constants (value : Constant) : Agree SameExpr (constant value) (constant value) := by
    apply spanned_agree
    apply advance_agree.bind
    intro _ _ _
    exact .pure fun _ _ => rfl
  have strings : Agree SameExpr
      (spanned do
        let token ← advance
        return (.string · token.stringValue))
      (spanned do
        let token ← advance
        return (.string · token.stringValue)) := by
    apply spanned_agree
    apply advance_agree.bind
    intro token token' alike
    apply Agree.pure
    intro span span'
    simp only [SameExpr, Relabeling.expr, alike.stringValue]
    rfl
  apply peek_agree.bind_eq
  intro kind
  split
  · apply spanned_agree
    apply advance_agree.bind
    intro token token' alike
    apply Agree.pure
    intro span span'
    simp only [SameExpr, Relabeling.expr, alike.text]
    rfl
  · exact strings
  · exact strings
  · exact constants .nil
  · exact constants .true
  · exact constants .false
  · exact constants .vararg
  · exact tableExpr_agree agrees
  · apply spanned_agree
    apply advance_agree.bind
    intro _ _ _
    refine (functionBody_agree agrees).bind ?_
    rintro ⟨ps, body⟩ ⟨ps', body'⟩ ⟨sameParams, sameBody⟩
    apply Agree.pure
    intro span span'
    simp only [SameExpr, Relabeling.expr, sameParams, sameBody]
    rfl
  · exact suffixed_agree agrees

theorem operand_agree : Agree SameExpr (operand inner) (operand inner) := by
  apply peek_agree.bind_eq
  intro kind
  split
  · apply advance_agree.bind
    intro sign sign' _
    apply (agrees.operators _).bind
    intro value value' same
    apply Agree.pure
    simp only [SameExpr, Relabeling.expr, same]
    rfl
  · exact simple_agree agrees

theorem operation_agree (limit : Nat) (left left' : Expr) (same : SameExpr left left') :
    Agree (fun e e' => e.map eraseSpans.expr = e'.map eraseSpans.expr)
      (operation inner limit left) (operation inner limit left') := by
  apply peek_agree.bind_eq
  intro kind
  split
  · -- The priorities are those of the operator, so both readers stop or both go on.
    rename_i op _
    apply Agree.ite
    · intro _
      exact .pure rfl
    · intro _
      apply advance_agree.bind
      intro _ _ _
      apply (agrees.operators _).bind
      intro right right' sameRight
      exact .pure (congrArg some (SameExpr.ofBinary same op sameRight))
  · exact .pure rfl

theorem operators_agree (limit : Nat) :
    Agree SameExpr (operators inner limit) (operators inner limit) := by
  apply (operand_agree agrees).bind
  intro first first' same
  exact chain_agree (operation_agree agrees limit) same

end

end Grammar

end LuaSearch
