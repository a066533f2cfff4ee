import LuaSearch.Proofs.Parse.Placed.Expression

/-!
The readers of statements and blocks place what they give; so the tree of a source is placed in the
source, and a source that is refused is refused at a place in it.
-/
namespace LuaSearch

open Parse

variable {source : String} {c : Cursor}

theorem BlockIn.concat {c₀ c₁ c₂ c₃ : Cursor} {body : Block} {s : Stmt}
    (first : BlockIn source (c₀.between c₁) body) (second : StmtAt source (c₂.between c₃) s)
    (start : c₀.here ≤ c₂.here) (order : c₁.done ≤ c₂.here) (stop : c₁.done ≤ c₃.done) :
    BlockIn source (c₀.between c₃) (body ++ [s]) := by
  constructor
  · refine List.pairwise_append.mpr ⟨first.ordered, List.pairwise_singleton _ _, ?_⟩
    intro t member _ last
    obtain rfl := List.mem_singleton.mp last
    -- All of the block ends where its reader did, and the statement starts behind that.
    have inside := Nodes.stmt_subset_stmts member (Nodes.self_mem_stmt t)
    have ends : t.span.stop ≤ c₁.done := (first.placed _ inside).2.2
    rw [second.span]
    exact Nat.le_trans ends order
  · have inFirst := first.placed.wider (Nat.le_refl c₀.here) stop
    have inSecond := second.placed.wider start (Nat.le_refl c₃.done)
    rw [Nodes.stmts_eq_flatMap] at inFirst ⊢
    simpa using ⟨inFirst, inSecond⟩

theorem BlockIn.nil (s : Span) : BlockIn source s [] := ⟨List.Pairwise.nil, placedIn_nil⟩

theorem BlockIn.singleton {s : Span} {stmt : Stmt} (stands : StmtAt source s stmt) :
    BlockIn source s [stmt] :=
  ⟨List.pairwise_singleton _ _, by simpa [Nodes.stmts] using stands.placed⟩

namespace Grammar

def StmtBuilt (source : String) (start : Cursor) (build : Span → Stmt) (c : Cursor) : Prop :=
  start.here < c.done ∧
    ((start.between c).Fits source → StmtAt source (start.between c) (build (start.between c)))

section

variable {inner : Level} (places : inner.Places source)

include places

theorem ending_places (word : Keyword) :
    Lands source c (fun body c' => c.here < c'.done ∧ BlockIn source (c.between c') body)
      (ending inner word) := by
  apply (places.block c).bind
  rintro body c₁ ⟨_, forward₁⟩ stands
  apply (keyword_lands _).bind
  rintro _ c₂ ⟨_, forward₂⟩ moved
  exact .pure ⟨by omega, stands.wider (Nat.le_refl _) forward₂.1⟩

theorem doBlock_places : Lands source c (StmtBuilt source c) (doBlock inner) := by
  apply (keyword_lands _).bind
  rintro _ c₁ ⟨_, forward₁⟩ _
  apply (ending_places places .end_).bind
  rintro body c₂ ⟨_, forward₂⟩ ⟨moved, stands⟩
  have order : c.here < c₂.done := by omega
  refine .pure ⟨order, fun fits => .of_parts rfl fits order ?_ ?_⟩
  · exact stands.placed.wider forward₁.2.1 (Nat.le_refl _)
  · simpa [Node.blocks, Stmt.bodies] using stands.ordered

theorem whileLoop_places : Lands source c (StmtBuilt source c) (whileLoop inner) := by
  apply (keyword_lands _).bind
  rintro _ c₁ ⟨_, forward₁⟩ _
  apply (expr_places places c₁).bind
  rintro condition c₂ ⟨_, forward₂⟩ tested
  apply (keyword_lands _).bind
  rintro _ c₃ ⟨_, forward₃⟩ _
  apply (ending_places places .end_).bind
  rintro body c₄ ⟨_, forward₄⟩ ⟨moved, stands⟩
  have order : c.here < c₄.done := by omega
  refine .pure ⟨order, fun fits => .of_parts rfl fits order ?_ ?_⟩
  · have inCondition := tested.placed.wider (show c.here ≤ c₁.here by omega)
      (show c₂.done ≤ c₄.done by omega)
    exact placedIn_append.mpr ⟨inCondition, stands.placed.wider (by omega) (Nat.le_refl _)⟩
  · simpa [Node.blocks, Stmt.bodies] using stands.ordered

theorem repeatLoop_places : Lands source c (StmtBuilt source c) (repeatLoop inner) := by
  apply (keyword_lands _).bind
  rintro _ c₁ ⟨_, forward₁⟩ _
  apply (ending_places places .until_).bind
  rintro body c₂ ⟨_, forward₂⟩ ⟨moved, stands⟩
  apply (expr_places places c₂).bind
  rintro condition c₃ ⟨_, forward₃⟩ tested
  have order : c.here < c₃.done := by omega
  refine .pure ⟨order, fun fits => .of_parts rfl fits order ?_ ?_⟩
  · have inBody := stands.placed.wider (show c.here ≤ c₁.here by omega)
      (show c₂.done ≤ c₃.done by omega)
    exact placedIn_append.mpr ⟨inBody, tested.placed.wider (by omega) (Nat.le_refl _)⟩
  · simpa [Node.blocks, Stmt.bodies] using stands.ordered

theorem elseBody_places :
    Lands source c (fun body c' => c.here < c'.done ∧ BlockIn source (c.between c') body)
      (elseBody inner) := by
  refine .seen rfl ?_
  split
  · rename_i seen
    apply (places.elseif c (by simp [seen])).bind
    intro s c' _ stands
    exact .pure ⟨stands.some, .singleton stands⟩
  · rename_i seen
    apply (advance_lands (by simp [seen])).bind
    rintro _ c₁ ⟨_, forward₁⟩ _
    apply (ending_places places .end_).mono
    rintro body c₂ _ ⟨moved, stands⟩
    exact ⟨by omega, stands.wider forward₁.2.1 (Nat.le_refl _)⟩
  · apply (keyword_lands _).bind
    intro _ c' _ moved
    exact .pure ⟨moved, .nil _⟩

theorem conditional_places (some : c.current.kind ≠ .eof) :
    Lands source c (StmtBuilt source c) (conditional inner) := by
  apply (advance_lands some).bind
  rintro _ c₁ ⟨_, forward₁⟩ _
  apply (expr_places places c₁).bind
  rintro condition c₂ ⟨_, forward₂⟩ tested
  apply (keyword_lands _).bind
  rintro _ c₃ ⟨_, forward₃⟩ _
  apply (places.block c₃).bind
  rintro thenBody c₄ ⟨_, forward₄⟩ thenStands
  apply (elseBody_places places).bind
  rintro elseBody c₅ ⟨_, forward₅⟩ ⟨moved, elseStands⟩
  have order : c.here < c₅.done := by omega
  refine .pure ⟨order, fun fits => .of_parts rfl fits order ?_ ?_⟩
  · have inCondition := tested.placed.wider (show c.here ≤ c₁.here by omega)
      (show c₂.done ≤ c₅.done by omega)
    have inThen := thenStands.placed.wider (show c.here ≤ c₃.here by omega)
      (show c₄.done ≤ c₅.done by omega)
    have inElse := elseStands.placed.wider (show c.here ≤ c₄.here by omega)
      (Nat.le_refl c₅.done)
    exact placedIn_append.mpr ⟨inCondition, placedIn_append.mpr ⟨inThen, inElse⟩⟩
  · simp [Node.blocks, Stmt.bodies, thenStands.ordered, elseStands.ordered]

theorem numericFor_places {start : Cursor} (behind : start.here ≤ c.here) (var : String) :
    Lands source c (StmtBuilt source start) (numericFor inner var) := by
  apply (expr_places places c).bind
  rintro first c₁ ⟨_, forward₁⟩ firstStands
  apply (symbol_lands _).bind
  rintro _ c₂ ⟨_, forward₂⟩ _
  apply (expr_places places c₂).bind
  rintro limit c₃ ⟨_, forward₃⟩ limitStands
  apply (eatSymbol_lands _).bind
  rintro further c₄ ⟨_, forward₄⟩ _
  have stepped : Places source c₄ Nodes.step (some <$> Grammar.expr inner) := by
    rw [map_eq_pure_bind]
    apply (expr_places places c₄).bind
    intro step c' _ stands
    exact .pure stands.placed
  refine stepped.optional (a := none) placedIn_nil ?_
  rintro step? c₅ ⟨_, forward₅⟩ stepPlaced
  apply (keyword_lands _).bind
  rintro _ c₆ ⟨_, forward₆⟩ _
  apply (ending_places places .end_).bind
  rintro body c₇ ⟨_, forward₇⟩ ⟨moved, stands⟩
  have order : start.here < c₇.done := by omega
  refine .pure ⟨order, fun fits => .of_parts rfl fits order ?_ ?_⟩
  · have inFirst := firstStands.placed.wider behind (show c₁.done ≤ c₇.done by omega)
    have inLimit := limitStands.placed.wider (show start.here ≤ c₂.here by omega)
      (show c₃.done ≤ c₇.done by omega)
    have inStep := stepPlaced.wider (show start.here ≤ c₄.here by omega)
      (show c₅.done ≤ c₇.done by omega)
    have inBody := stands.placed.wider (show start.here ≤ c₆.here by omega) (Nat.le_refl c₇.done)
    exact placedIn_append.mpr ⟨inFirst, placedIn_append.mpr ⟨inLimit,
      placedIn_append.mpr ⟨inStep, inBody⟩⟩⟩
  · simpa [Node.blocks, Stmt.bodies] using stands.ordered

theorem genericFor_places {start : Cursor} (behind : start.here ≤ c.here) (first : String) :
    Lands source c (StmtBuilt source start) (genericFor inner first) := by
  apply (eatSymbol_lands _).bind
  rintro further c₁ ⟨_, forward₁⟩ _
  have names : Places source c₁ (fun _ => []) (commaSeparated ident) := by
    have each (c : Cursor) : Places source c (fun _ => []) ident :=
      ident_lands.mono fun _ _ _ _ => placedIn_nil
    exact (commaSeparated_places each).mono fun _ _ _ _ => placedIn_nil
  refine names.optional (a := []) placedIn_nil ?_
  rintro more c₂ ⟨_, forward₂⟩ _
  apply (keyword_lands _).bind
  rintro _ c₃ ⟨_, forward₃⟩ _
  apply (exprs_places places).bind
  rintro values c₄ ⟨_, forward₄⟩ placed
  apply (keyword_lands _).bind
  rintro _ c₅ ⟨_, forward₅⟩ _
  apply (ending_places places .end_).bind
  rintro body c₆ ⟨_, forward₆⟩ ⟨moved, stands⟩
  have order : start.here < c₆.done := by omega
  refine .pure ⟨order, fun fits => .of_parts rfl fits order ?_ ?_⟩
  · have inValues := placed.wider (show start.here ≤ c₃.here by omega)
      (show c₄.done ≤ c₆.done by omega)
    exact placedIn_append.mpr ⟨inValues, stands.placed.wider (by omega) (Nat.le_refl _)⟩
  · simpa [Node.blocks, Stmt.bodies] using stands.ordered

theorem forLoop_places : Lands source c (StmtBuilt source c) (forLoop inner) := by
  apply (keyword_lands _).bind
  rintro _ c₁ ⟨_, forward₁⟩ _
  apply ident_lands.bind
  rintro first c₂ ⟨_, forward₂⟩ _
  apply (eatSymbol_lands _).bind
  rintro numeric c₃ ⟨_, forward₃⟩ _
  exact .ite (numericFor_places places (by omega) _) (genericFor_places places (by omega) _)

omit places in
theorem functionPath_places : PlacesExpr source c functionPath := by
  apply ident_lands.bind
  intro name c₁ reach taken
  refine chain_places ?_ reach (.ident taken)
  rintro path d ⟨_, forward⟩ stands
  apply (eatSymbol_lands _).bind
  rintro dotted d₁ ⟨_, forward₁⟩ stays
  split
  · apply ident_lands.bind
    rintro field d₂ ⟨_, forward₂⟩ taken'
    exact .pure (stands.ofField taken' (by omega) (by omega))
  · rename_i absent
    obtain rfl := stays (by simpa using absent)
    exact .pure stands

theorem function_places : Lands source c (StmtBuilt source c) (function inner) := by
  apply (keyword_lands _).bind
  rintro _ c₁ ⟨_, forward₁⟩ _
  apply functionPath_places.bind
  rintro target c₂ ⟨_, forward₂⟩ named
  apply (eatSymbol_lands _).bind
  rintro isMethod c₃ ⟨_, forward₃⟩ _
  apply Lands.ite
  · apply ident_lands.bind
    rintro method c₄ ⟨_, forward₄⟩ taken
    apply (functionBody_places places).bind
    rintro ⟨ps, body⟩ c₅ ⟨_, forward₅⟩ ⟨moved, params, stands⟩
    have order : c.here < c₅.done := by omega
    have receiver : PlacedIn source (c₃.between c₄) [.binder ⟨method.span, some "self"⟩] :=
      taken.placedIn_binder
    have inTarget := named.placed.wider (show c.here ≤ c₁.here by omega)
      (show c₂.done ≤ c₅.done by omega)
    have inReceiver := receiver.wider (show c.here ≤ c₃.here by omega)
      (show c₄.done ≤ c₅.done by omega)
    have inParams := params.wider (show c.here ≤ c₄.here by omega) (Nat.le_refl c₅.done)
    have inBody := stands.placed.wider (show c.here ≤ c₄.here by omega) (Nat.le_refl c₅.done)
    refine .pure ⟨order, fun fits => .of_parts rfl fits order ?_ ?_⟩
    · exact placedIn_append.mpr ⟨inTarget, placedIn_append.mpr
        ⟨placedIn_append.mpr ⟨inReceiver, inParams⟩, inBody⟩⟩
    · simpa [Node.blocks] using stands.ordered
  · apply (functionBody_places places).bind
    rintro ⟨ps, body⟩ c₄ ⟨_, forward₄⟩ ⟨moved, params, stands⟩
    have order : c.here < c₄.done := by omega
    have inTarget := named.placed.wider (show c.here ≤ c₁.here by omega)
      (show c₂.done ≤ c₄.done by omega)
    have inParams := params.wider (show c.here ≤ c₃.here by omega) (Nat.le_refl c₄.done)
    have inBody := stands.placed.wider (show c.here ≤ c₃.here by omega) (Nat.le_refl c₄.done)
    refine .pure ⟨order, fun fits => .of_parts rfl fits order ?_ ?_⟩
    · exact placedIn_append.mpr ⟨inTarget, placedIn_append.mpr ⟨inParams, inBody⟩⟩
    · simpa [Node.blocks] using stands.ordered

theorem localFunction_places : Lands source c (StmtBuilt source c) (localFunction inner) := by
  apply (keyword_lands _).bind
  rintro _ c₁ ⟨_, forward₁⟩ _
  apply (keyword_lands _).bind
  rintro _ c₂ ⟨_, forward₂⟩ _
  apply ident_lands.bind
  rintro name c₃ ⟨_, forward₃⟩ _
  apply (functionBody_places places).bind
  rintro ⟨ps, body⟩ c₄ ⟨_, forward₄⟩ ⟨moved, params, stands⟩
  have order : c.here < c₄.done := by omega
  have inParams := params.wider (show c.here ≤ c₃.here by omega) (Nat.le_refl c₄.done)
  have inBody := stands.placed.wider (show c.here ≤ c₃.here by omega) (Nat.le_refl c₄.done)
  refine .pure ⟨order, fun fits => .of_parts rfl fits order ?_ ?_⟩
  · exact placedIn_append.mpr ⟨inParams, inBody⟩
  · simpa [Node.blocks] using stands.ordered

theorem localVars_places : Lands source c (StmtBuilt source c) (localVars inner) := by
  apply (keyword_lands _).bind
  rintro _ c₁ ⟨_, forward₁⟩ moved
  have declared := @commaSeparated_places source c₁ _ _ _ fun c => @binder_places source c
  apply declared.bind
  rintro names c₂ ⟨_, forward₂⟩ placed
  apply (eatSymbol_lands _).bind
  rintro given c₃ ⟨_, forward₃⟩ _
  refine (exprs_places places).optional (a := []) placedIn_nil ?_
  rintro values c₄ ⟨_, forward₄⟩ valued
  have order : c.here < c₄.done := by omega
  have inNames := placed.wider (show c.here ≤ c₁.here by omega) (show c₂.done ≤ c₄.done by omega)
  have inValues := valued.wider (show c.here ≤ c₃.here by omega) (Nat.le_refl c₄.done)
  refine .pure ⟨order, fun fits => .of_parts rfl fits order ?_ ?_⟩
  · refine placedIn_append.mpr ⟨?_, inValues⟩
    rwa [Nodes.binders, List.map_eq_flatMap]
  · simp [Node.blocks, Stmt.bodies]

theorem returnStmt_places : PlacesStmt source c (returnStmt inner) := by
  apply spanned_lands
  apply (keyword_lands _).bind
  rintro _ c₁ ⟨_, forward₁⟩ moved
  refine .seen rfl (.seen rfl ?_)
  refine (exprs_places places).ruledOut (a := []) placedIn_nil ?_
  rintro values c₂ ⟨_, forward₂⟩ placed
  have order : c.here < c₂.done := by omega
  refine .pure ⟨order, fun fits => .of_parts rfl fits order ?_ ?_⟩
  · exact placed.wider forward₁.2.1 (Nat.le_refl _)
  · simp [Node.blocks, Stmt.bodies]

omit places in
theorem checkAssignable_lands {target : Expr} (fits : target.span.Fits source) :
    Lands source c (fun _ _ => True) (checkAssignable target) := by
  unfold checkAssignable
  split
  · exact .pure trivial
  · exact .fail _ fun _ => fits

omit places in
theorem forM_checkAssignable_lands {targets : List Expr}
    (fits : ∀ target ∈ targets, target.span.Fits source) (c : Cursor) :
    Lands source c (fun _ _ => True) (targets.forM checkAssignable) := by
  induction targets generalizing c with
  | nil => exact .pure trivial
  | cons target targets ih =>
    obtain ⟨first, later⟩ := List.forall_mem_cons.mp fits
    apply (checkAssignable_lands first).bind
    intro _ c' _ _
    exact ih later c'

theorem compound_places {start : Cursor} {target : Expr} (op : BinaryOp)
    (behind : start.here ≤ c.here) (stands : ExprAt source (start.between c) target)
    (some : c.current.kind ≠ .eof) :
    Lands source c (StmtBuilt source start) (compound inner op target) := by
  apply (advance_lands some).bind
  rintro _ c₁ ⟨_, forward₁⟩ _
  apply (checkAssignable_lands (stands.span ▸ stands.fits)).bind
  rintro _ c₂ ⟨_, forward₂⟩ _
  apply (expr_places places c₂).bind
  rintro value c₃ ⟨_, forward₃⟩ second
  have stop : c.done ≤ c₃.done := by omega
  have applied := stands.ofBinary op second (by omega) stop
  have order : start.here < c₃.done := applied.some
  have inTarget := stands.placed.wider (Nat.le_refl _) stop
  refine .pure ⟨order, fun fits => .of_parts rfl fits order ?_ ?_⟩
  · simpa [Node.below, Nodes.stmt, Nodes.exprs] using ⟨inTarget, applied.placed⟩
  · simp [Node.blocks, Stmt.bodies]

theorem assignment_places {start : Cursor} {first : Expr} (behind : start.here ≤ c.here)
    (stands : ExprAt source (start.between c) first) :
    Lands source c (StmtBuilt source start) (assignment inner first) := by
  apply (eatSymbol_lands _).bind
  rintro further c₁ ⟨_, forward₁⟩ _
  have others : Places source c₁ Nodes.exprs (commaSeparated (suffixed inner)) := by
    have each (c : Cursor) : Places source c Nodes.expr (suffixed inner) :=
      (suffixed_places places c).mono fun _ _ _ stands => stands.placed
    apply (commaSeparated_places each).mono
    intro es c' _ placed
    rwa [Nodes.exprs_eq_flatMap]
  refine others.optional (a := []) placedIn_nil ?_
  rintro more c₂ ⟨_, forward₂⟩ placed
  have inFirst := stands.placed.wider (Nat.le_refl _) (show c.done ≤ c₂.done by omega)
  have inMore := placed.wider (show start.here ≤ c₁.here by omega) (Nat.le_refl c₂.done)
  have targets : PlacedIn source (start.between c₂) (Nodes.exprs (first :: more)) :=
    placedIn_append.mpr ⟨inFirst, inMore⟩
  have fit : ∀ target ∈ first :: more, target.span.Fits source := by
    intro target member
    have inside : .expr target ∈ Nodes.exprs (first :: more) := by
      rw [Nodes.exprs_eq_flatMap, List.mem_flatMap]
      exact ⟨target, member, by simp [Nodes.expr_eq_cons]⟩
    exact (targets _ inside).1.fits
  apply (forM_checkAssignable_lands fit c₂).bind
  rintro _ c₃ ⟨_, forward₃⟩ _
  apply (symbol_lands _).bind
  rintro _ c₄ ⟨_, forward₄⟩ moved
  apply (exprs_places places).bind
  rintro values c₅ ⟨_, forward₅⟩ valued
  have order : start.here < c₅.done := by omega
  have inTargets := targets.wider (Nat.le_refl _) (show c₂.done ≤ c₅.done by omega)
  have inValues := valued.wider (show start.here ≤ c₄.here by omega) (Nat.le_refl c₅.done)
  refine .pure ⟨order, fun fits => .of_parts rfl fits order ?_ ?_⟩
  · exact placedIn_append.mpr ⟨inTargets, inValues⟩
  · simp [Node.blocks, Stmt.bodies]

theorem exprStmt_places : Lands source c (StmtBuilt source c) (exprStmt inner) := by
  apply (suffixed_places places c).bind
  rintro first c₁ ⟨_, forward₁⟩ stands
  refine .seen rfl ?_
  split
  · rename_i op seen
    have some : c₁.current.kind ≠ .eof := by
      intro last
      rw [last] at seen
      cases seen
    exact compound_places places op forward₁.2.1 stands some
  · apply Lands.ite
    · exact assignment_places places forward₁.2.1 stands
    · apply Lands.ite
      · refine .pure ⟨stands.some, fun fits => .of_parts rfl fits stands.some stands.placed ?_⟩
        simp [Node.blocks, Stmt.bodies]
      · exact .fail _ fun _ => stands.span ▸ stands.fits

theorem statement_places : PlacesStmt source c (statement inner) := by
  have single (build : Span → Stmt) (span : ∀ s, (build s).span = s)
      (below : ∀ s, (Node.stmt (build s)).below = [])
      (blocks : ∀ s, (Node.stmt (build s)).blocks = [])
      (some : c.current.kind ≠ .eof) :
      Lands source c (StmtBuilt source c) (do let _ ← advance; return build) := by
    apply (advance_lands some).bind
    intro _ c' _ taken
    refine .pure ⟨taken.moved, fun fits => .of_parts (span _) fits taken.moved ?_ ?_⟩
    · simp [below]
    · simp [blocks]
  apply spanned_lands
  refine .seen rfl ?_
  split
  · exact doBlock_places places
  · exact whileLoop_places places
  · exact repeatLoop_places places
  · rename_i seen
    exact conditional_places places (by simp [seen])
  · exact forLoop_places places
  · exact function_places places
  · refine .seen rfl ?_
    exact .ite (localFunction_places places) (localVars_places places)
  · rename_i seen
    exact single .breakStmt (fun _ => rfl) (fun _ => rfl) (fun _ => rfl) (by simp [seen])
  · rename_i seen
    exact single .continueStmt (fun _ => rfl) (fun _ => rfl) (fun _ => rfl) (by simp [seen])
  · exact exprStmt_places places

theorem nextStatement_places {start : Cursor} {body : Block} (behind : start.here ≤ c.here)
    (stands : BlockIn source (start.between c) body) :
    Lands source c (fun s? c' => BlockIn source (start.between c') (body ++ s?.toList))
      (nextStatement inner) := by
  have semicolons : Lands source c (fun _ _ => True) semicolons := by
    refine @iterate_lands source c _ _ (fun _ _ => True) (fun _ _ => True) _ ?_ () trivial
    intro _ _ _
    apply (eatSymbol_lands _).bind
    intro another c' _ _
    exact .ite (.pure (.again trivial)) (.pure (.done trivial))
  apply semicolons.bind
  rintro _ c₁ ⟨_, forward₁⟩ _
  refine .seen rfl ?_
  split
  · exact .pure (by simpa using stands.wider (Nat.le_refl _) forward₁.1)
  · apply (statement_places places).bind
    rintro s c₂ ⟨_, forward₂⟩ second
    exact .pure (stands.concat second (by omega) (by omega) (by omega))

theorem block_places (c : Cursor) : PlacesBlock source c (block inner) := by
  have statements := @many_lands source c _
    (fun body d => c.here ≤ d.here ∧ BlockIn source (c.between d) body) (nextStatement inner)
  refine (statements ?_ ⟨Nat.le_refl _, .nil _⟩).bind ?_
  · rintro body d ⟨behind, stands⟩
    apply (nextStatement_places places behind stands).mono
    rintro s? d' ⟨_, forward⟩ stands'
    exact ⟨by omega, stands'⟩
  · rintro body c₁ ⟨_, forward₁⟩ ⟨_, stands⟩
    refine .seen rfl ?_
    split
    · apply (returnStmt_places places).bind
      rintro last c₂ ⟨_, forward₂⟩ second
      apply (eatSymbol_lands _).bind
      rintro _ c₃ ⟨_, forward₃⟩ _
      have whole := stands.concat second forward₁.2.1 forward₁.2.2 forward₂.1
      exact .pure (whole.wider (Nat.le_refl _) forward₃.1)
    · exact .pure stands

theorem Level.Places.above : (Level.above inner).Places source where
  operators := operators_places places
  block := block_places places
  elseif _ some := spanned_lands (conditional_places places some)

end

theorem Level.places_free (source : String) (levels : Nat) :
    (Level.free levels).Places source := by
  induction levels with
  | zero =>
    constructor
    · intro _ c
      exact .fail_here _
    · intro c
      exact .fail_here _
    · intro c _
      exact .fail_here _
  | succ levels ih => exact ih.above

end Grammar

/-- A whole text ends at its end marker, or is refused at the token that stands in its place. -/
theorem chunkReader_placed (steady : c.Steady source) :
    (∀ body, (Parser.chunkReader.runOn c).1 = .ok body →
      BlockIn source ⟨0, source.utf8ByteSize⟩ body) ∧
    ∀ e, (Parser.chunkReader.runOn c).1 = .error e → e.span.Fits source := by
  have landed := (Grammar.Level.places_free source maxNesting).block c steady
  unfold Parser.chunkReader Grammar.chunk
  generalize ran : Machine.runOn _ c = result at landed
  cases landed with
  | fault moves fits =>
    rw [Machine.runOn_bind_error _ ran]
    exact ⟨by rintro _ ⟨⟩, by rintro _ ⟨⟩; exact fits⟩
  | @value body c' moves stands =>
    rw [Machine.runOn_bind_ok _ ran]
    have after := moves.steady steady
    by_cases ended : c'.current.kind = .eof
    · have expected : (expect .eof).runOn c' = (.ok c'.current, c'.advance) := by
        rw [runOn_expect, if_pos ended]
      rw [Machine.runOn_bind_ok _ expected]
      refine ⟨?_, by rintro _ ⟨⟩⟩
      rintro _ ⟨⟩
      exact ⟨stands.ordered, stands.placed.widen ⟨Nat.zero_le _, after.edge_done.le⟩⟩
    · have expected : (expect .eof).runOn c' =
          (.error ⟨.unexpected (.token .eof) c'.current.kind, c'.current.span⟩, c') := by
        rw [runOn_expect, if_neg ended]
      rw [Machine.runOn_bind_error _ expected]
      exact ⟨by rintro _ ⟨⟩, by rintro _ ⟨⟩; exact after.fits_current⟩

theorem placed_of_parse {source : String} {chunk : Block} (read : parse source = .ok chunk) :
    BlockIn source ⟨0, source.utf8ByteSize⟩ chunk := by
  obtain ⟨_, _, ran⟩ := chunkReader_of_parse read
  exact (chunkReader_placed (Cursor.Steady.start source)).1 chunk (congrArg Prod.fst ran)

theorem fits_of_parse_error {source : String} {e : SyntaxError}
    (refused : parse source = .error e) : e.span.Fits source := by
  cases found : (tokenize source).find? (·.kind = .error) with
  | some bad =>
    rw [parse_eq_error found] at refused
    cases refused
    exact (tokenize_shows (List.mem_of_find?_eq_some found)).fits
  | none =>
    rw [parse_eq_chunkReader found] at refused
    exact (chunkReader_placed (Cursor.Steady.start source)).2 e refused

end LuaSearch
