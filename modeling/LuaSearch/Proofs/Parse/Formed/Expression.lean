import LuaSearch.Proofs.Parse.Levels
import LuaSearch.Proofs.Parse.Yields
import LuaSearch.Proofs.Syntax.Formed

/-!
The readers of expressions give well-formed trees, provided that the readers of the next level do.
-/
namespace LuaSearch

open Parse

namespace Grammar

variable {tokens : List Token}

structure Level.Forms (tokens : List Token) (inner : Level) : Prop where
  operators (limit : Nat) :
    Yields tokens (ExprFormed tokens) (inner.operators limit)
  block : Yields tokens (BlockFormed tokens) inner.block
  elseif : Yields tokens (fun s => Formed tokens (Nodes.stmt s)) inner.elseif

theorem ident_forms :
    Yields tokens (fun token => Spelled tokens .ident token.text) ident := by
  apply (expect_yields .ident).mono
  rintro token ⟨member, kind⟩
  exact ⟨token, member, kind, rfl⟩

theorem binder_forms : Yields tokens (Binder.Written tokens) binder := by
  apply (expect_yields .ident).bind
  rintro name ⟨member, kind⟩
  exact .pure ⟨name, member, kind, rfl⟩

theorem params_forms :
    Yields tokens (fun ps : Params => ∀ b ∈ ps.names, b.Written tokens) params := by
  have each : Yields tokens (fun p : Option Binder × Bool => ∀ b ∈ p.1, b.Written tokens)
      param := by
    apply (eatSymbol_keeps _).next
    intro dots
    apply Yields.ite
    · exact .pure (by simp)
    · apply binder_forms.bind
      intro name written
      apply (eatSymbol_keeps _).next
      intro more
      exact .pure (by simpa using written)
  apply (isAt_keeps _).next
  intro closed
  apply Yields.ite
  · exact .pure (by simp)
  · apply (series_yields (P := fun b? : Option Binder => ∀ b ∈ b?, b.Written tokens) each).bind
    rintro given ⟨_, written⟩
    refine .pure fun b member => ?_
    obtain ⟨b?, member, rfl⟩ := List.mem_filterMap.mp member
    exact written _ member b rfl

section

variable {inner : Level} (forms : inner.Forms tokens)

include forms

theorem expr_forms : Yields tokens (ExprFormed tokens) (Grammar.expr inner) :=
  forms.operators 0

theorem exprs_forms :
    Yields tokens (fun es => es ≠ [] ∧ Formed tokens (Nodes.exprs es)) (Grammar.exprs inner) := by
  apply (commaSeparated_yields (expr_forms forms)).mono
  rintro es ⟨some, formed⟩
  exact ⟨some, formed_exprs.mpr formed⟩

theorem functionBody_forms :
    Yields tokens
      (fun f => (∀ b ∈ f.1.names, b.Written tokens) ∧ BlockFormed tokens f.2)
      (functionBody inner) := by
  apply (symbol_keeps _).next
  intro _
  apply params_forms.bind
  intro ps written
  apply (symbol_keeps _).next
  intro _
  apply forms.block.bind
  intro body formed
  apply (keyword_keeps _).next
  intro _
  exact .pure ⟨written, formed⟩

theorem field_forms :
    Yields tokens (fun f => Formed tokens (Nodes.field f)) (Grammar.field inner) := by
  have positional : Yields tokens (fun f => Formed tokens (Nodes.field f))
      (do return .positional (← Grammar.expr inner)) := by
    apply (expr_forms forms).bind
    intro value formed
    exact .pure formed
  apply peek_keeps.next
  intro kind
  split
  · apply advance_keeps.next
    intro _
    apply (expr_forms forms).bind
    intro key formed
    apply (symbol_keeps _).next
    intro _
    apply (symbol_keeps _).next
    intro _
    apply (expr_forms forms).bind
    intro value formed'
    exact .pure (formed_append.mpr ⟨formed, formed'⟩)
  · apply peekSecond_keeps.next
    intro second
    apply Yields.ite
    · apply ident_forms.bind
      intro name _
      apply (symbol_keeps _).next
      intro _
      apply (expr_forms forms).bind
      intro value formed
      exact .pure (by simpa [Nodes.field, Nodes.expr] using formed)
    · exact positional
  · exact positional

theorem table_forms : Yields tokens (fun fs => Formed tokens (Nodes.fields fs)) (table inner) := by
  have fields : Yields tokens (fun fs => Formed tokens (Nodes.fields fs)) (tableFields inner) := by
    apply (isAt_keeps _).next
    intro closed
    apply Yields.ite
    · exact .pure (by simp [Nodes.fields])
    · have separator : Keeps tokens fieldSeparator := by
        apply (eatSymbol_keeps _).next
        intro comma
        exact .ite (.pure trivial) (eatSymbol_keeps _)
      have each : Yields tokens (fun f : Field × Bool => Formed tokens (Nodes.field f.1)) (do
          let one ← Grammar.field inner
          if ← fieldSeparator then return (one, !(← isAt (.symbol .rbrace)))
          else return (one, false)) := by
        apply (field_forms forms).bind
        intro one formed
        apply separator.next
        intro separated
        apply Yields.ite
        · apply (isAt_keeps _).next
          intro last
          exact .pure formed
        · exact .pure formed
      apply (series_yields (P := fun f => Formed tokens (Nodes.field f)) each).mono
      rintro fs ⟨_, formed⟩
      exact formed_fields.mpr formed
  apply (symbol_keeps _).next
  intro _
  apply fields.bind
  intro fs formed
  apply (symbol_keeps _).next
  intro _
  exact .pure formed

theorem tableExpr_forms :
    Yields tokens (ExprFormed tokens)
      (spanned do return (Expr.table · (← table inner))) := by
  apply spanned_yields
  apply (table_forms forms).bind
  intro fs formed
  exact .pure fun _ => formed_cons.mpr ⟨trivial, formed⟩

theorem args_forms : Yields tokens (fun es => Formed tokens (Nodes.exprs es)) (args inner) := by
  have string : Yields tokens (fun es => Formed tokens (Nodes.exprs es)) (do
      let token ← advance
      return [.string token.span token.stringValue]) := by
    apply advance_keeps.next
    intro token
    exact .pure (by simp [Nodes.exprs, Nodes.expr])
  apply peek_keeps.next
  intro kind
  split
  · apply advance_keeps.next
    intro _
    apply (isAt_keeps _).next
    intro closed
    have given := (exprs_forms forms).mono fun _ formed => formed.2
    refine given.ruledOut (a := []) (by simp [Nodes.exprs]) ?_
    intro es formed
    apply (symbol_keeps _).next
    intro _
    exact .pure formed
  · apply (tableExpr_forms forms).bind
    intro e formed
    exact .pure (by simpa [Nodes.exprs] using formed)
  · exact string
  · exact string
  · apply currentSpan_keeps.next
    intro span
    exact .fail _ _

theorem primary_forms :
    Yields tokens (ExprFormed tokens) (primary inner) := by
  apply peek_keeps.next
  intro kind
  split
  · apply ident_forms.bind
    intro name spelled
    exact .pure (by simpa [Nodes.expr] using spelled)
  · apply currentSpan_keeps.next
    intro start
    apply advance_keeps.next
    intro _
    apply (expr_forms forms).bind
    intro inside formed
    apply (symbol_keeps _).next
    intro _
    apply (finish_keeps start).next
    intro span
    exact .pure (formed_parenthesized span formed)
  · exact currentSpan_keeps.next fun _ => .fail _ _
  · exact currentSpan_keeps.next fun _ => .fail _ _

theorem suffix_forms (start : Span) (object : Expr) (formed : ExprFormed tokens object) :
    Yields tokens (fun e? => ∀ e ∈ e?, ExprFormed tokens e)
      (suffix inner start object) := by
  have called : Yields tokens (fun e? => ∀ e ∈ e?, ExprFormed tokens e) (do
      let given ← args inner
      return some (.call (← finish start) object given false)) := by
    apply (args_forms forms).bind
    intro given formed'
    apply (finish_keeps start).next
    intro span
    exact .some (by simp [Nodes.expr, formed, formed'])
  apply peek_keeps.next
  intro kind
  split
  · apply advance_keeps.next
    intro _
    apply ident_forms.bind
    intro name _
    exact .some (formed_ofField _ _ formed)
  · apply advance_keeps.next
    intro _
    apply (expr_forms forms).bind
    intro key formed'
    apply (symbol_keeps _).next
    intro _
    apply (finish_keeps start).next
    intro span
    exact .some (by simp [Nodes.expr, formed, formed'])
  · apply advance_keeps.next
    intro _
    apply ident_forms.bind
    intro method spelled
    apply (args_forms forms).bind
    intro given formed'
    apply (finish_keeps start).next
    intro span
    exact .some (by simp [Nodes.expr, formed, formed', spelled])
  · exact called
  · exact called
  · exact called
  · exact called
  · exact .none

theorem suffixed_forms :
    Yields tokens (ExprFormed tokens) (suffixed inner) := by
  apply currentSpan_keeps.next
  intro start
  apply (primary_forms forms).bind
  intro object formed
  exact chain_yields (suffix_forms forms start) formed

theorem simple_forms :
    Yields tokens (ExprFormed tokens) (simple inner) := by
  have constants (value : Constant) :
      Yields tokens (ExprFormed tokens) (constant value) := by
    apply spanned_yields
    apply advance_keeps.next
    intro _
    exact .pure fun _ => by simp [Nodes.expr]
  have strings : Yields tokens (ExprFormed tokens) (spanned do
      let token ← advance
      return (.string · token.stringValue)) := by
    apply spanned_yields
    apply advance_keeps.next
    intro _
    exact .pure fun _ => by simp [Nodes.expr]
  constructor
  intro c e c' among ran
  have peeked : peek.runOn c = (.ok c.current.kind, c) := rfl
  rw [simple, Machine.runOn_bind_ok _ peeked] at ran
  split at ran
  · rename_i isNumber
    obtain ⟨span, taken⟩ :=
      runOn_spanned_advance (fun token span => Expr.number span token.text) c
    rw [taken] at ran
    cases ran
    have spelled : Spelled tokens .number c.current.text := ⟨_, among.current, isNumber, rfl⟩
    exact ⟨by simpa [Nodes.expr] using spelled, among.advance⟩
  · exact strings.holds among ran
  · exact strings.holds among ran
  · exact (constants .nil).holds among ran
  · exact (constants .true).holds among ran
  · exact (constants .false).holds among ran
  · exact (constants .vararg).holds among ran
  · exact (tableExpr_forms forms).holds among ran
  · refine (spanned_yields ?_).holds among ran
    apply advance_keeps.next
    intro _
    apply (functionBody_forms forms).bind
    rintro ⟨ps, body⟩ ⟨written, last, formed⟩
    have named := formed_binders.mpr fun b member => (written b member).formed
    exact .pure fun _ => by simpa [Nodes.expr, named, last, formed] using written
  · exact (suffixed_forms forms).holds among ran

theorem operators_forms (limit : Nat) :
    Yields tokens (ExprFormed tokens) (Grammar.operators inner limit) := by
  have operand : Yields tokens (ExprFormed tokens) (operand inner) := by
    apply peek_keeps.next
    intro kind
    split
    · apply advance_keeps.next
      intro sign
      apply (forms.operators _).bind
      intro value formed
      exact .pure (by simp [Nodes.expr, formed])
    · exact simple_forms forms
  apply operand.bind
  intro first formed
  refine chain_yields ?_ formed
  intro left formed
  apply peek_keeps.next
  intro kind
  split
  · apply Yields.ite
    · exact .none
    · apply advance_keeps.next
      intro _
      apply (forms.operators _).bind
      intro right formed'
      exact .some (by simp [Expr.ofBinary, Nodes.expr, formed, formed'])
  · exact .none

end

end Grammar

end LuaSearch
