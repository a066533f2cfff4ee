import LuaSearch.Proofs.Parse.Formed.Expression

/-!
The readers of statements and blocks give well-formed trees; so what is read from a text is well
formed over the tokens of the text.
-/
namespace LuaSearch

open Parse

namespace Grammar

variable {tokens : List Token}

section

variable {inner : Level} (forms : inner.Forms tokens)

include forms

theorem ending_forms (word : Keyword) :
    Yields tokens (BlockFormed tokens) (ending inner word) := by
  apply forms.block.bind
  intro body formed
  apply (keyword_keeps _).next
  intro _
  exact .pure formed

abbrev StmtForms (tokens : List Token) (build : Span → Stmt) : Prop :=
  ∀ span, Formed tokens (Nodes.stmt (build span)) ∧ (build span).isReturn = false

theorem doBlock_forms : Yields tokens (StmtForms tokens) (doBlock inner) := by
  apply (keyword_keeps _).next
  intro _
  apply (ending_forms forms .end_).bind
  rintro body ⟨last, formed⟩
  exact .pure fun _ => by simp [Nodes.stmt, Stmt.isReturn, last, formed]

theorem whileLoop_forms : Yields tokens (StmtForms tokens) (whileLoop inner) := by
  apply (keyword_keeps _).next
  intro _
  apply (expr_forms forms).bind
  intro condition formed
  apply (keyword_keeps _).next
  intro _
  apply (ending_forms forms .end_).bind
  rintro body ⟨last, formed'⟩
  exact .pure fun _ => by simp [Nodes.stmt, Stmt.isReturn, last, formed, formed']

theorem repeatLoop_forms : Yields tokens (StmtForms tokens) (repeatLoop inner) := by
  apply (keyword_keeps _).next
  intro _
  apply (ending_forms forms .until_).bind
  rintro body ⟨last, formed⟩
  apply (expr_forms forms).bind
  intro condition formed'
  exact .pure fun _ => by simp [Nodes.stmt, Stmt.isReturn, last, formed, formed']

theorem elseBody_forms : Yields tokens (BlockFormed tokens) (elseBody inner) := by
  apply peek_keeps.next
  intro kind
  split
  · apply forms.elseif.bind
    intro s formed
    exact .pure (by simpa [BlockFormed, ReturnsLast, Nodes.stmts] using formed)
  · apply advance_keeps.next
    intro _
    exact ending_forms forms .end_
  · apply (keyword_keeps _).next
    intro _
    exact .pure (by simp [BlockFormed, ReturnsLast, Nodes.stmts])

theorem conditional_forms : Yields tokens (StmtForms tokens) (conditional inner) := by
  apply advance_keeps.next
  intro _
  apply (expr_forms forms).bind
  intro condition formed
  apply (keyword_keeps _).next
  intro _
  apply forms.block.bind
  rintro thenBody ⟨lastThen, formedThen⟩
  apply (elseBody_forms forms).bind
  rintro elseBody ⟨lastElse, formedElse⟩
  exact .pure fun _ => by
    simp [Nodes.stmt, Stmt.isReturn, formed, lastThen, formedThen, lastElse, formedElse]

theorem numericFor_forms {var : String} (spelled : Spelled tokens .ident var) :
    Yields tokens (StmtForms tokens) (numericFor inner var) := by
  apply (expr_forms forms).bind
  intro start formedStart
  apply (symbol_keeps _).next
  intro _
  apply (expr_forms forms).bind
  intro limit formedLimit
  have stepped : Yields tokens (fun step? => Formed tokens (Nodes.step step?))
      (some <$> Grammar.expr inner) := by
    rw [map_eq_pure_bind]
    apply (expr_forms forms).bind
    intro step formed
    exact .pure formed
  apply (eatSymbol_keeps _).next
  intro further
  refine stepped.optional (a := none) (by simp [Nodes.step]) ?_
  intro step? formedStep
  apply (keyword_keeps _).next
  intro _
  apply (ending_forms forms .end_).bind
  rintro body ⟨last, formed⟩
  exact .pure fun _ => by
    simp [Nodes.stmt, Stmt.isReturn, spelled, formedStart, formedLimit, formedStep,
      last, formed]

theorem genericFor_forms {first : String} (spelled : Spelled tokens .ident first) :
    Yields tokens (StmtForms tokens) (genericFor inner first) := by
  apply (eatSymbol_keeps _).next
  intro further
  have others : Yields tokens (fun more => ∀ name ∈ more, Spelled tokens .ident name.text)
      (commaSeparated ident) := (commaSeparated_yields ident_forms).mono fun _ each => each.2
  refine others.optional (a := []) (by simp) ?_
  intro more named
  apply (keyword_keeps _).next
  intro _
  apply (exprs_forms forms).bind
  rintro values ⟨some, formed⟩
  apply (keyword_keeps _).next
  intro _
  apply (ending_forms forms .end_).bind
  rintro body ⟨last, formed'⟩
  refine .pure fun _ => ?_
  simpa [Nodes.stmt, Stmt.isReturn, spelled, some, formed, last, formed'] using named

theorem forLoop_forms : Yields tokens (StmtForms tokens) (forLoop inner) := by
  apply (keyword_keeps _).next
  intro _
  apply ident_forms.bind
  intro first spelled
  apply (eatSymbol_keeps _).next
  intro numeric
  exact .ite (numericFor_forms forms spelled) (genericFor_forms forms spelled)

omit forms in
theorem functionPath_forms :
    Yields tokens (fun e => e.isPath = true ∧ ExprFormed tokens e) functionPath := by
  apply ident_forms.bind
  intro name spelled
  refine chain_yields ?_ ⟨rfl, by simpa [Nodes.expr] using spelled⟩
  rintro path ⟨isPath, formed⟩
  apply (eatSymbol_keeps _).next
  intro dotted
  apply Yields.ite
  · apply ident_forms.bind
    intro field _
    exact .some ⟨isPath, formed_ofField _ _ formed⟩
  · exact .none

theorem function_forms : Yields tokens (StmtForms tokens) (function inner) := by
  apply (keyword_keeps _).next
  intro _
  apply functionPath_forms.bind
  rintro target ⟨isPath, formed⟩
  apply (eatSymbol_keeps _).next
  intro isMethod
  apply Yields.ite
  · apply ident_forms.bind
    intro method spelled
    apply (functionBody_forms forms).bind
    rintro ⟨ps, body⟩ ⟨written, last, formed'⟩
    have receiver : Binder.Formed tokens ⟨method.span, some "self"⟩ := ⟨"self", rfl, .inr rfl⟩
    have named := fun b member => (written b member).formed
    refine .pure fun _ => ?_
    simpa [Nodes.stmt, Stmt.isReturn, MethodFormed, Params.written, formed_binders, isPath, formed,
      spelled, receiver, last, formed'] using ⟨written, named⟩
  · apply (functionBody_forms forms).bind
    rintro ⟨ps, body⟩ ⟨written, last, formed'⟩
    have named := formed_binders.mpr fun b member => (written b member).formed
    exact .pure fun _ => by
      simpa [Nodes.stmt, Stmt.isReturn, Params.written, isPath, formed, named, last, formed']
        using written

theorem localFunction_forms : Yields tokens (StmtForms tokens) (localFunction inner) := by
  apply (keyword_keeps _).next
  intro _
  apply (keyword_keeps _).next
  intro _
  apply ident_forms.bind
  intro name spelled
  apply (functionBody_forms forms).bind
  rintro ⟨ps, body⟩ ⟨written, last, formed⟩
  have named := formed_binders.mpr fun b member => (written b member).formed
  exact .pure fun _ => by
    simpa [Nodes.stmt, Stmt.isReturn, spelled, named, last, formed] using written

theorem localVars_forms : Yields tokens (StmtForms tokens) (localVars inner) := by
  apply (keyword_keeps _).next
  intro _
  apply (commaSeparated_yields binder_forms).bind
  rintro names ⟨some, written⟩
  apply (eatSymbol_keeps _).next
  intro given
  have values := (exprs_forms forms).mono fun _ formed => formed.2
  refine values.optional (a := []) (by simp [Nodes.exprs]) ?_
  intro es formed
  have named := formed_binders.mpr fun b member => (written b member).formed
  exact .pure fun _ => by
    simpa [Nodes.stmt, Stmt.isReturn, some, named, formed] using written

theorem returnStmt_forms :
    Yields tokens (fun s => Formed tokens (Nodes.stmt s)) (returnStmt inner) := by
  apply spanned_yields
  apply (keyword_keeps _).next
  intro _
  apply peek_keeps.next
  intro kind
  apply (isAt_keeps _).next
  intro closed
  have values := (exprs_forms forms).mono fun _ formed => formed.2
  refine values.ruledOut (a := []) (by simp [Nodes.exprs]) ?_
  intro es formed
  exact .pure fun _ => by simp [Nodes.stmt, formed]

omit forms in
theorem checkAssignable_yields (target : Expr) :
    Yields tokens (fun _ => target.isAssignable = true) (checkAssignable target) := by
  unfold checkAssignable
  split
  · rename_i assignable
    exact .pure assignable
  · exact .fail _ _

omit forms in
theorem forM_checkAssignable_yields (targets : List Expr) :
    Yields tokens (fun _ => ∀ target ∈ targets, target.isAssignable = true)
      (targets.forM checkAssignable) := by
  induction targets with
  | nil => exact .pure (by simp)
  | cons target targets ih =>
    apply (checkAssignable_yields target).bind
    intro _ first
    apply ih.mono
    intro _ rest
    exact List.forall_mem_cons.mpr ⟨first, rest⟩

theorem compound_forms (op : BinaryOp) {target : Expr} (formed : ExprFormed tokens target) :
    Yields tokens (StmtForms tokens) (compound inner op target) := by
  apply advance_keeps.next
  intro _
  apply (checkAssignable_yields target).bind
  intro _ assignable
  apply (expr_forms forms).bind
  intro value formed'
  exact .pure fun _ => by
    simp [Nodes.stmt, Nodes.exprs, Nodes.expr, Expr.ofBinary, Stmt.isReturn, assignable, formed,
      formed']

theorem assignment_forms {first : Expr} (formed : ExprFormed tokens first) :
    Yields tokens (StmtForms tokens) (assignment inner first) := by
  apply (eatSymbol_keeps _).next
  intro further
  have others := (commaSeparated_yields (suffixed_forms forms)).mono fun _ each => each.2
  refine others.optional (a := []) (by simp) ?_
  intro more formedMore
  apply (forM_checkAssignable_yields (first :: more)).bind
  intro _ assignable
  apply (symbol_keeps _).next
  intro _
  apply (exprs_forms forms).bind
  rintro values ⟨some, formed'⟩
  have targets := formed_exprs.mpr formedMore
  refine .pure fun _ => ?_
  simpa [Nodes.stmt, Nodes.exprs, Stmt.isReturn, some, formed, targets, formed'] using assignable

theorem exprStmt_forms : Yields tokens (StmtForms tokens) (exprStmt inner) := by
  apply (suffixed_forms forms).bind
  intro first formed
  apply peek_keeps.next
  intro next
  split
  · exact compound_forms forms _ formed
  · apply Yields.ite
    · exact assignment_forms forms formed
    · split
      · rename_i isCall
        exact .pure fun _ => by
          simp [Nodes.stmt, Stmt.isReturn, isCall, formed]
      · exact .fail _ _

theorem statement_forms :
    Yields tokens (fun s => Formed tokens (Nodes.stmt s) ∧ s.isReturn = false)
      (statement inner) := by
  apply spanned_yields
  apply peek_keeps.next
  intro kind
  split
  · exact doBlock_forms forms
  · exact whileLoop_forms forms
  · exact repeatLoop_forms forms
  · exact conditional_forms forms
  · exact forLoop_forms forms
  · exact function_forms forms
  · apply peekSecond_keeps.next
    intro second
    exact .ite (localFunction_forms forms) (localVars_forms forms)
  · exact advance_keeps.next fun _ => .pure fun _ => by
      simp [Nodes.stmt, Stmt.isReturn]
  · exact advance_keeps.next fun _ => .pure fun _ => by
      simp [Nodes.stmt, Stmt.isReturn]
  · exact exprStmt_forms forms

theorem nextStatement_forms :
    Yields tokens (fun s? => ∀ s ∈ s?, Formed tokens (Nodes.stmt s) ∧ s.isReturn = false)
      (nextStatement inner) := by
  have semicolons : Keeps tokens semicolons := by
    refine iterate_yields (I := fun _ => True) ?_ trivial
    intro _ _
    apply (eatSymbol_keeps _).next
    intro another
    exact .ite (.pure (.again trivial)) (.pure (.done trivial))
  apply semicolons.next
  intro _
  apply peek_keeps.next
  intro kind
  apply Yields.ite
  · exact .none
  · apply (statement_forms forms).bind
    intro s formed
    exact .some formed

theorem block_forms : Yields tokens (BlockFormed tokens) (block inner) := by
  apply (many_yields (nextStatement_forms forms)).bind
  intro body each
  have formed : Formed tokens (Nodes.stmts body) :=
    formed_stmts.mpr fun s member => (each s member).1
  apply (isAt_keeps _).next
  intro returns
  apply Yields.ite
  · apply (returnStmt_forms forms).bind
    intro last formed'
    apply (eatSymbol_keeps _).next
    intro _
    refine .pure ⟨?_, formed_stmts.mpr (List.forall_mem_append.mpr ⟨?_, ?_⟩)⟩
    · intro s member
      rw [List.dropLast_concat] at member
      exact (each s member).2
    · exact formed_stmts.mp formed
    · simpa using formed'
  · refine .pure ⟨?_, formed⟩
    intro s member
    exact (each s ((List.dropLast_sublist body).subset member)).2

theorem Level.Forms.above : (Level.above inner).Forms tokens where
  operators limit := operators_forms forms limit
  block := block_forms forms
  elseif := by
    apply spanned_yields
    apply (conditional_forms forms).mono
    intro build formed span
    exact (formed span).1

end

theorem Level.forms_free (tokens : List Token) (levels : Nat) :
    (Level.free levels).Forms tokens := by
  induction levels with
  | zero =>
    refine ⟨fun _ => ?_, ?_, ?_⟩
    all_goals exact currentSpan_keeps.next fun _ => .fail _ _
  | succ levels ih => exact ih.above

end Grammar

theorem tokenize_ne_nil (source : String) : tokenize source ≠ [] := by
  have some (fuel offset : Nat) (cs : List Char) : Lexer.tokensFrom fuel offset cs ≠ [] := by
    induction fuel generalizing offset cs with
    | zero => cases cs <;> simp [Lexer.tokensFrom]
    | succ fuel ih =>
      cases cs with
      | nil => simp [Lexer.tokensFrom]
      | cons c cs =>
        simp only [Lexer.tokensFrom]
        split
        · simp
        · exact ih _ _
  exact some _ _ _

/-- What is read from a text is well formed over the tokens of the text. -/
theorem formed_of_parse {source : String} {chunk : Block} (read : parse source = .ok chunk) :
    BlockFormed (tokenize source) chunk := by
  have reader : Yields (tokenize source) (BlockFormed (tokenize source)) Parser.chunkReader := by
    apply (Grammar.Level.forms_free (tokenize source) maxNesting).block.bind
    intro body formed
    apply (expect_keeps _).next
    intro _
    exact .pure formed
  have among : (Parser.ofSource source).cursor.Over (tokenize source) :=
    .start _ (tokenize_ne_nil source)
  obtain ⟨_, _, ran⟩ := chunkReader_of_parse read
  exact (reader.holds among ran).1

end LuaSearch
