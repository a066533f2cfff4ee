import LuaSearch.Parse.Expression
import LuaSearch.Proofs.Parse.Unended

/-!
The readers of expressions on tokens without an end marker, given what the readers for one level
further in do. An expression is content with a last token that is one by itself; whatever opens with
a bracket or a word asks for another token to close it, and so is never content.
-/
namespace LuaSearch

open Parse

def Kind.isAtom : Kind → Bool
  | .ident | .number | .string | .longString | .keyword .nil_ | .keyword .true_ | .keyword .false_
  | .symbol .ellipsis => true
  | _ => false

theorem isAtom_of_unary {kind : Kind} {op : UnaryOp} (operator : UnaryOp.ofKind? kind = some op) :
    kind.isAtom = false := by
  unfold UnaryOp.ofKind? at operator
  split at operator
  all_goals first | rfl | cases operator

theorem isAtom_of_binary {kind : Kind} {op : BinaryOp}
    (operator : BinaryOp.ofKind? kind = some op) : kind.isAtom = false := by
  unfold BinaryOp.ofKind? at operator
  split at operator
  all_goals first | rfl | cases operator

namespace Grammar

/-- What the readers of a level do. An `elseif` is read only where there is one. -/
structure Level.Settles (inner : Level) : Prop where
  operators (c : Cursor) (limit : Nat) : Rests c (·.isAtom = true) (inner.operators limit)
  block (c : Cursor) : Finishes c inner.block
  elseif (c : Cursor) : Advances c inner.elseif

variable {inner : Level} {c : Cursor}

theorem ident_settles : Rests c (· = .ident) ident := expect_settles _

theorem binder_settles : Rests c (· = .ident) binder :=
  ident_settles.after fun _ _ => .pure trivial

theorem param_settles : Settles c
    (fun x => c.Past (fun k => k = .ident ∨ k = .symbol .ellipsis) ∧ x.2 = false) param := by
  apply (eatSymbol_settles .ellipsis).bind
  · intro dots c' _
    apply Settles.ite
    · exact .pure trivial
    · exact (commaItem_settles (by simp) some binder_settles).finishes
  · rintro (_ | _) seen
    · refine (commaItem_settles (by simp) some binder_settles).mono ?_
      rintro x ⟨past, last⟩
      exact ⟨past.mono fun _ => .inl, last⟩
    · exact .pure ⟨(seen rfl).mono fun _ => .inr, rfl⟩

theorem params_finishes : Finishes c params := by
  apply isAt_settles
  apply Settles.ite
  · exact .pure trivial
  · apply (series_settles fun _ => param_settles).finishes.after
    intro given c
    exact .pure trivial

theorem single_settles {kind : Kind} (here : c.current.kind = kind) (build : Token → Span → Expr) :
    Rests c (· = kind) (spanned do return build (← advance)) :=
  spanned_settles (token_settles here _)

theorem fieldSeparator_settles :
    Settles c (fun separated => separated = true →
      c.Past (fun k => k = .symbol .comma ∨ k = .symbol .semicolon)) fieldSeparator := by
  apply (eatSymbol_settles .comma).bind
  · intro comma c' _
    exact .ite (.pure trivial) (eatSymbol_settles _).finishes
  · rintro (_ | _) comma
    · refine (eatSymbol_settles .semicolon).mono ?_
      intro semicolon seen separated
      exact (seen separated).mono fun _ => .inr
    · exact .pure fun _ => (comma rfl).mono fun _ => .inl

section

variable (settles : inner.Settles)

include settles

theorem expr_settles : Rests c (·.isAtom = true) (expr inner) := settles.operators c 0

theorem exprs_settles : Rests c (·.isAtom = true) (exprs inner) :=
  commaSeparated_settles (by simp [Kind.isAtom]) fun c => settles.operators c 0

theorem functionBody_settles : Advances c (functionBody inner) := by
  refine (symbol_settles .lparen).clash (L := (· = .symbol .rparen)) ?_ (by simp)
  intro _ c
  apply params_finishes.anyway
  intro params c
  apply (symbol_settles .rparen).after
  intro _ c
  apply (settles.block c).after
  intro body c
  apply (keyword_settles .end_).finishes.after
  intro _ c
  exact .pure trivial

theorem field_settles : Rests c (·.isAtom = true) (field inner) := by
  have positional : Rests c (·.isAtom = true) (do return Field.positional (← expr inner)) :=
    (expr_settles settles).after fun _ _ => .pure trivial
  apply peek_settles
  split
  · rename_i seen
    apply Settles.advances
    refine (advance_settles seen).clash (L := (·.isAtom = true)) ?_ (by simp [Kind.isAtom])
    intro _ c
    apply (expr_settles settles).after
    intro key c
    apply (symbol_settles .rbracket).finishes.after
    intro _ c
    apply (symbol_settles .eq).finishes.after
    intro _ c
    apply (expr_settles settles).finishes.after
    intro value c
    exact .pure trivial
  · apply peekSecond_settles
    apply Settles.ite
    · apply Settles.advances
      refine ident_settles.clash (L := (· = .symbol .eq)) ?_ (by simp)
      intro name c
      apply (symbol_settles .eq).after
      intro _ c
      apply (expr_settles settles).finishes.after
      intro value c
      exact .pure trivial
    · exact positional
  · exact positional

theorem tableItem_settles :
    Settles c (fun x => c.Past (·.isAtom = true) ∧ x.2 = false) (do
      let one ← field inner
      if ← fieldSeparator then return (one, !(← isAt (.symbol .rbrace)))
      else return (one, false)) := by
  apply (field_settles settles).bind
  · intro one c' _
    apply fieldSeparator_settles.finishes.after
    intro separated c
    apply Settles.ite
    · exact isAt_settles (.pure trivial)
    · exact .pure trivial
  · intro one past
    apply fieldSeparator_settles.bind
    · intro separated c' _
      apply Settles.ite
      · exact isAt_settles (.pure trivial)
      · exact .pure trivial
    · rintro (_ | _) seen
      · exact .pure ⟨past, rfl⟩
      · refine (past.absurd (seen rfl) ?_).elim
        rintro k atom (rfl | rfl) <;> simp [Kind.isAtom] at atom

theorem table_settles : Advances c (table inner) := by
  refine (symbol_settles .lbrace).clash (L := (· = .symbol .rbrace)) ?_ (by simp)
  intro _ c
  have fields : Finishes c (tableFields inner) := by
    apply isAt_settles
    apply Settles.ite
    · exact .pure trivial
    · exact (series_settles fun _ => tableItem_settles settles).finishes
  apply fields.anyway
  intro fields c
  apply (symbol_settles .rbrace).after
  intro _ c
  exact .pure trivial

theorem tableExpr_settles : Advances c (spanned do return (Expr.table · (← table inner))) :=
  spanned_settles ((table_settles settles).after fun _ _ => .pure trivial)

theorem args_settles : Rests c (fun k => k = .string ∨ k = .longString) (args inner) := by
  apply peek_settles
  split
  · rename_i seen
    apply Settles.advances
    refine (advance_settles seen).clash (L := (· = .symbol .rparen)) ?_ (by simp)
    intro _ c
    apply isAt_settles
    refine (exprs_settles settles).ruledOut (R := fun c _ => c.Past (· = .symbol .rparen)) ?_
    intro given c
    apply (symbol_settles .rparen).after
    intro _ c
    exact .pure trivial
  · exact ((tableExpr_settles settles).after fun _ _ => .pure trivial).advances
  · rename_i seen
    exact (token_settles seen _).mono fun _ past => past.mono fun _ => .inl
  · rename_i seen
    exact (token_settles seen _).mono fun _ past => past.mono fun _ => .inr
  · exact .fail_here (by simp)

theorem primary_settles :
    Settles c (fun e => c.Past (· = .ident) ∧ e.isCall = false) (primary inner) := by
  apply peek_settles
  split
  · apply ident_settles.bind
    · intro name c' _
      exact .pure trivial
    · intro name past
      exact .pure ⟨past, rfl⟩
  · rename_i seen
    apply Settles.advances
    apply currentSpan_settles
    refine (advance_settles seen).clash (L := (·.isAtom = true)) ?_ (by simp [Kind.isAtom])
    intro _ c
    apply (expr_settles settles).after
    intro inside c
    apply (symbol_settles .rparen).finishes.after
    intro _ c
    apply (finish_settles _).after
    intro span c
    exact .pure trivial
  · exact .fail_here (by simp)
  · exact .fail_here (by simp)

theorem suffix_settles (start : Span) (object : Expr) : Fades c (suffix inner start object) := by
  have called : Fades c (do
      let given ← args inner
      return some (Expr.call (← finish start) object given false)) := by
    apply (args_settles settles).bind
    · intro given c' _
      apply (finish_settles start).after
      intro span c
      exact .pure trivial
    · intro given past
      refine ((finish_settles start).after fun span c => .pure trivial).mono ?_
      intro e _ _
      exact past.mono (by rintro k (rfl | rfl) <;> rfl)
  apply peek_settles
  split
  · rename_i seen
    apply Settles.advances
    refine (advance_settles seen).clash (L := (· = .ident)) ?_ (by simp)
    intro _ c
    apply ident_settles.after
    intro name c
    exact .pure trivial
  · rename_i seen
    apply Settles.advances
    refine (advance_settles seen).clash (L := (·.isAtom = true)) ?_ (by simp [Kind.isAtom])
    intro _ c
    apply (expr_settles settles).after
    intro key c
    apply (symbol_settles .rbracket).finishes.after
    intro _ c
    apply (finish_settles start).after
    intro span c
    exact .pure trivial
  · rename_i seen
    apply Settles.advances
    refine (advance_settles seen).clash (L := (· = .ident)) ?_ (by simp)
    intro _ c
    apply ident_settles.after
    intro method c
    apply (args_settles settles).finishes.after
    intro given c
    apply (finish_settles start).after
    intro span c
    exact .pure trivial
  · exact called
  · exact called
  · exact called
  · exact called
  · exact .pure nofun

/-- Behind a name that is the last token nothing is seen but the name. -/
theorem suffixed_settles :
    Settles c (fun e => c.Past (· = .ident) ∧ e.isCall = false) (suffixed inner) := by
  apply currentSpan_settles
  apply (primary_settles settles).bind
  · intro object c' _
    exact chain_settles (fun object c => suffix_settles settles _ object) object
  · rintro object ⟨past, notCall⟩
    refine (chain_settles_of_none (fun object c => suffix_settles settles _ object) ?_).mono ?_
    · apply peek_settles
      rw [past.kind]
      exact .pure rfl
    · rintro _ rfl
      exact ⟨past, notCall⟩

theorem simple_settles : Rests c (·.isAtom = true) (simple inner) := by
  have single {kind : Kind} (here : c.current.kind = kind) (atom : kind.isAtom = true)
      (build : Token → Span → Expr) :
      Rests c (·.isAtom = true) (spanned do return build (← advance)) :=
    (single_settles here build).mono fun _ past => past.mono (by rintro _ rfl; exact atom)
  apply peek_settles
  split
  · rename_i seen
    exact single seen rfl _
  · rename_i seen
    exact single seen rfl _
  · rename_i seen
    exact single seen rfl _
  · rename_i seen
    exact single seen rfl _
  · rename_i seen
    exact single seen rfl _
  · rename_i seen
    exact single seen rfl _
  · rename_i seen
    exact single seen rfl _
  · exact (tableExpr_settles settles).advances
  · rename_i seen
    apply Settles.advances
    apply spanned_settles
    refine (advance_settles seen).anyway (R := fun _ _ => False) ?_
    intro _ c
    apply (functionBody_settles settles).after
    intro given c
    exact .pure trivial
  · refine (suffixed_settles settles).mono ?_
    rintro e ⟨past, -⟩
    exact past.mono (by rintro _ rfl; rfl)

theorem operand_settles : Rests c (·.isAtom = true) (operand inner) := by
  apply peek_settles
  split
  · rename_i op operator
    apply Settles.advances
    refine (advance_settles rfl).clash (L := (·.isAtom = true)) ?_ ?_
    · intro sign c
      apply (settles.operators c _).after
      intro value c
      exact .pure trivial
    · rintro _ rfl
      simp [isAtom_of_unary operator]
  · exact simple_settles settles

theorem operation_settles (limit : Nat) (left : Expr) : Fades c (operation inner limit left) := by
  apply peek_settles
  split
  · rename_i op operator
    apply Settles.ite
    · exact .pure nofun
    · apply Settles.advances
      refine (advance_settles rfl).clash (L := (·.isAtom = true)) ?_ ?_
      · intro _ c
        apply (settles.operators c _).after
        intro right c
        exact .pure trivial
      · rintro _ rfl
        simp [isAtom_of_binary operator]
  · exact .pure nofun

theorem operators_settles (limit : Nat) : Rests c (·.isAtom = true) (operators inner limit) :=
  (operand_settles settles).after fun first _ =>
    chain_settles (fun left _ => operation_settles settles limit left) first

end

end Grammar

end LuaSearch
