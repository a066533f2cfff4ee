import LuaSearch.Proofs.Parse.Levels
import LuaSearch.Proofs.Parse.Lands
import LuaSearch.Proofs.Syntax.Placed

/-!
The readers of expressions place what they give: an expression has the span of the tokens that were
taken for it, and all that is in it lies there, provided that the readers of the next level place
what they give.
-/
namespace LuaSearch

open Parse

variable {source : String} {c : Cursor}

theorem Cursor.merge_between {c₀ c₁ c₂ c₃ : Cursor} (start : c₀.here ≤ c₂.here)
    (stop : c₁.done ≤ c₃.done) :
    (c₀.between c₁).merge (c₂.between c₃) = c₀.between c₃ := by
  simp only [Span.merge, Cursor.between, Span.mk.injEq]
  exact ⟨Nat.min_eq_left start, Nat.max_eq_right stop⟩

theorem PlacedIn.wider {c₀ c₁ c₂ c₃ : Cursor} {nodes : List Node}
    (placed : PlacedIn source (c₁.between c₂) nodes) (start : c₀.here ≤ c₁.here)
    (stop : c₂.done ≤ c₃.done) : PlacedIn source (c₀.between c₃) nodes :=
  placed.widen ⟨start, stop⟩

theorem BlockIn.wider {c₀ c₁ c₂ c₃ : Cursor} {body : Block}
    (stands : BlockIn source (c₁.between c₂) body) (start : c₀.here ≤ c₁.here)
    (stop : c₂.done ≤ c₃.done) : BlockIn source (c₀.between c₃) body :=
  ⟨stands.ordered, stands.placed.wider start stop⟩

theorem ExprAt.moved {c' : Cursor} {e : Expr} (stands : ExprAt source (c.between c') e) :
    c.here < c'.done := stands.some

theorem Parse.Taken.placedIn_binder {c' : Cursor} {token : Token} {name? : Option String}
    (taken : Taken source c token c') :
    PlacedIn source (c.between c') [.binder ⟨token.span, name?⟩] := by
  have fits := taken.fits
  rw [taken.span] at fits ⊢
  exact LuaSearch.placedIn_binder fits taken.moved

theorem ExprAt.ofToken {c' : Cursor} {token : Token} {value : String}
    (taken : Taken source c token c') :
    ExprAt source (c.between c') (.string token.span value) := by
  have fits := taken.fits
  rw [taken.span] at fits ⊢
  exact .string _ fits taken.moved

theorem ExprAt.extend {c₀ c₁ c₂ : Cursor} {object e : Expr} {more : List Node}
    (first : ExprAt source (c₀.between c₁) object) (stop : c₁.done ≤ c₂.done)
    (span : e.span = c₀.between c₂) (fits : (c₀.between c₂).Fits source)
    (below : (Node.expr e).below = Nodes.expr object ++ more)
    (placed : PlacedIn source (c₀.between c₂) more) (blocks : (Node.expr e).blocks = [])
    (spells : (Node.expr e).Spells source) : ExprAt source (c₀.between c₂) e := by
  apply ExprAt.of_parts span fits
  · exact Nat.lt_of_lt_of_le first.moved stop
  · rw [below, placedIn_append]
    exact ⟨first.placed.wider (Nat.le_refl _) stop, placed⟩
  · simp [blocks]
  · exact spells

theorem ExprAt.ofBinary {c₀ c₁ c₂ c₃ : Cursor} {left right : Expr} (op : BinaryOp)
    (first : ExprAt source (c₀.between c₁) left) (second : ExprAt source (c₂.between c₃) right)
    (start : c₀.here ≤ c₂.here) (stop : c₁.done ≤ c₃.done) :
    ExprAt source (c₀.between c₃) (.ofBinary op left right) := by
  have order : c₀.here < c₃.done := Nat.lt_of_lt_of_le first.moved stop
  refine first.extend stop ?_ ⟨Nat.le_of_lt order, first.fits.start, second.fits.stop⟩ rfl
    (second.placed.wider start (Nat.le_refl _)) rfl trivial
  rw [← Cursor.merge_between start stop, ← first.span, ← second.span]
  rfl

theorem ExprAt.ofField {c₀ c₁ c₂ c₃ : Cursor} {object : Expr} {name : Token}
    (first : ExprAt source (c₀.between c₁) object) (taken : Taken source c₂ name c₃)
    (start : c₀.here ≤ c₂.here) (stop : c₁.done ≤ c₃.done) :
    ExprAt source (c₀.between c₃) (object.ofField name.span name.text) := by
  have order : c₀.here < c₃.done := Nat.lt_of_lt_of_le first.moved stop
  have key : ExprAt source (c₂.between c₃) (.string name.span name.text) := .ofToken taken
  refine first.extend stop ?_ ⟨Nat.le_of_lt order, first.fits.start, key.fits.stop⟩ rfl
    (key.placed.wider start (Nat.le_refl _)) rfl trivial
  rw [← Cursor.merge_between start stop, ← first.span, ← taken.span]
  rfl

theorem ExprAt.ident {c' : Cursor} {name : Token} (taken : Taken source c name c') :
    ExprAt source (c.between c') (.ident name.span name.text) := by
  refine .of_parts taken.span (taken.span ▸ taken.fits) taken.moved placedIn_nil ?_ ?_
  · simp [Node.blocks]
  · exact ⟨name.span, .refl _, taken.text⟩

namespace Grammar

theorem ident_lands : Lands source c (Taken source c) ident := expect_lands .ident nofun

abbrev Places {α : Type} (source : String) (c : Cursor) (nodes : α → List Node) (p : Parse α) :
    Prop :=
  Lands source c (fun a c' => PlacedIn source (c.between c') (nodes a)) p

abbrev PlacesExpr (source : String) (c : Cursor) (p : Parse Expr) : Prop :=
  Lands source c (fun e c' => ExprAt source (c.between c') e) p

abbrev PlacesStmt (source : String) (c : Cursor) (p : Parse Stmt) : Prop :=
  Lands source c (fun s c' => StmtAt source (c.between c') s) p

abbrev PlacesBlock (source : String) (c : Cursor) (p : Parse Block) : Prop :=
  Lands source c (fun body c' => BlockIn source (c.between c') body) p

theorem series_places {α : Type} {nodes : α → List Node} {item : Parse (α × Bool)}
    (each : ∀ c, Places source c (fun a => nodes a.1) item) :
    Places source c (fun as => as.flatMap nodes) (series item) := by
  have lands := @series_lands source c _
    (fun items d => c.here ≤ d.here ∧ PlacedIn source (c.between d) (items.flatMap nodes)) item
  refine (lands ?_ ⟨Nat.le_refl _, by simp⟩).mono fun _ _ _ holds => holds.2
  rintro items d ⟨order, placed⟩
  apply (each d).mono
  rintro ⟨a, more⟩ d' ⟨_, forward⟩ holds
  refine ⟨by omega, ?_⟩
  rw [List.flatMap_append, List.flatMap_singleton, placedIn_append]
  exact ⟨placed.wider (Nat.le_refl _) forward.1, holds.wider order (Nat.le_refl _)⟩

theorem commaSeparated_places {α : Type} {nodes : α → List Node} {item : Parse α}
    (each : ∀ c, Places source c nodes item) :
    Places source c (fun as => as.flatMap nodes) (commaSeparated item) := by
  apply series_places
  intro d
  apply (each d).bind
  intro a c₁ _ placed
  apply (eatSymbol_lands _).bind
  rintro more c₂ ⟨_, forward⟩ _
  exact .pure (placed.wider (Nat.le_refl _) forward.1)

theorem chain_places {c₁ : Cursor} {first : Expr} {step : Expr → Parse (Option Expr)}
    (each : ∀ e d, c.Reaches d → ExprAt source (c.between d) e →
      Lands source d (fun e? d' => ExprAt source (c.between d') (e?.getD e)) (step e))
    (reach : c.Reaches c₁) (stands : ExprAt source (c.between c₁) first) :
    Lands source c₁ (fun e d => ExprAt source (c.between d) e) (chain step first) := by
  have chained := @chain_lands source c₁ _
    (fun e d => c.Reaches d ∧ ExprAt source (c.between d) e) step
  refine (chained ?_ ⟨reach, stands⟩).mono fun _ _ _ holds => holds.2
  rintro e d ⟨before, stands⟩
  apply (each e d before stands).mono
  intro e? d' after stands'
  exact ⟨before.trans after, stands'⟩

theorem binder_places : Places source c (fun b => [.binder b]) binder := by
  apply ident_lands.bind
  intro name c' _ taken
  exact .pure taken.placedIn_binder

theorem params_places : Places source c (fun ps => Nodes.binders ps.names) params := by
  have each (c : Cursor) : Places source c
      (fun p : Option Binder × Bool => Nodes.binders p.1.toList) param := by
    apply (eatSymbol_lands _).bind
    rintro dots c₁ ⟨_, forward₁⟩ _
    apply Lands.ite
    · exact .pure placedIn_nil
    · apply binder_places.bind
      intro name c₂ _ placed
      apply (eatSymbol_lands _).bind
      rintro more c₃ ⟨_, forward₃⟩ _
      exact .pure (placed.wider forward₁.2.1 forward₃.1)
  have names (given : List (Option Binder)) :
      Nodes.binders (given.filterMap id) = given.flatMap fun b? => Nodes.binders b?.toList := by
    induction given with
    | nil => rfl
    | cons b? given ih => cases b? <;> simp_all [Nodes.binders]
  refine .seen rfl ?_
  split
  · exact .pure placedIn_nil
  · have listed := @series_places source c (Option Binder)
      (fun b? => Nodes.binders b?.toList) _ each
    apply listed.bind
    intro given c' _ placed
    exact .pure (by simpa only [names] using placed)

/-- What the readers of a level give lies where they read it. An `elseif` is read where there is
    one. -/
structure Level.Places (source : String) (inner : Level) : Prop where
  operators (limit : Nat) (c : Cursor) : PlacesExpr source c (inner.operators limit)
  block (c : Cursor) : PlacesBlock source c inner.block
  elseif (c : Cursor) (some : c.current.kind ≠ .eof) : PlacesStmt source c inner.elseif

section

variable {inner : Level} (places : inner.Places source)

include places

theorem expr_places (c : Cursor) : PlacesExpr source c (Grammar.expr inner) :=
  places.operators 0 c

theorem exprs_places : Places source c Nodes.exprs (Grammar.exprs inner) := by
  have each (c : Cursor) : Places source c Nodes.expr (Grammar.expr inner) :=
    (expr_places places c).mono fun _ _ _ stands => stands.placed
  apply (commaSeparated_places each).mono
  intro es c' _ placed
  rwa [Nodes.exprs_eq_flatMap]

theorem functionBody_places :
    Lands source c (fun f c' => c.here < c'.done ∧
      PlacedIn source (c.between c') (Nodes.binders f.1.names) ∧
      BlockIn source (c.between c') f.2) (functionBody inner) := by
  apply (symbol_lands _).bind
  rintro _ c₁ ⟨_, forward₁⟩ _
  apply params_places.bind
  rintro ps c₂ ⟨_, forward₂⟩ named
  apply (symbol_lands _).bind
  rintro _ c₃ ⟨_, forward₃⟩ _
  apply (places.block c₃).bind
  rintro body c₄ ⟨_, forward₄⟩ stands
  apply (keyword_lands _).bind
  rintro _ c₅ ⟨_, forward₅⟩ _
  exact .pure ⟨by omega, named.wider (by omega) (by omega), stands.wider (by omega) (by omega)⟩

theorem field_places : Places source c Nodes.field (Grammar.field inner) := by
  have positional : Places source c Nodes.field (do
      return .positional (← Grammar.expr inner)) := by
    apply (expr_places places c).bind
    intro value c' _ stands
    exact .pure stands.placed
  refine .seen rfl ?_
  split
  · rename_i opens
    apply (advance_lands (by simp [opens])).bind
    rintro _ c₁ ⟨_, forward₁⟩ _
    apply (expr_places places c₁).bind
    rintro key c₂ ⟨_, forward₂⟩ first
    apply (symbol_lands _).bind
    rintro _ c₃ ⟨_, forward₃⟩ _
    apply (symbol_lands _).bind
    rintro _ c₄ ⟨_, forward₄⟩ _
    apply (expr_places places c₄).bind
    rintro value c₅ ⟨_, forward₅⟩ second
    have inFirst := first.placed.wider (show c.here ≤ c₁.here by omega)
      (show c₂.done ≤ c₅.done by omega)
    exact .pure (placedIn_append.mpr
      ⟨inFirst, second.placed.wider (by omega) (Nat.le_refl _)⟩)
  · refine .seen rfl ?_
    split
    · apply ident_lands.bind
      rintro name c₁ ⟨_, forward₁⟩ taken
      apply (symbol_lands _).bind
      rintro _ c₂ ⟨_, forward₂⟩ _
      apply (expr_places places c₂).bind
      rintro value c₃ ⟨_, forward₃⟩ second
      have key : ExprAt source (c.between c₁) (.string name.span name.text) := .ofToken taken
      have inKey := key.placed.wider (Nat.le_refl _) (show c₁.done ≤ c₃.done by omega)
      exact .pure (placedIn_append.mpr
        ⟨inKey, second.placed.wider (by omega) (Nat.le_refl _)⟩)
    · exact positional
  · exact positional

theorem table_places :
    Lands source c (fun fs c' => c.here < c'.done ∧
      PlacedIn source (c.between c') (Nodes.fields fs)) (table inner) := by
  have each (c : Cursor) : Places source c (fun f : Field × Bool => Nodes.field f.1) (do
      let one ← Grammar.field inner
      if ← fieldSeparator then return (one, !(← isAt (.symbol .rbrace)))
      else return (one, false)) := by
    have separator (c : Cursor) : Lands source c (fun _ _ => True) fieldSeparator := by
      apply (eatSymbol_lands _).bind
      intro comma c₁ _ _
      exact .ite (.pure trivial) ((eatSymbol_lands _).mono fun _ _ _ _ => trivial)
    apply (field_places places).bind
    intro one c₁ _ placed
    apply (separator c₁).bind
    rintro separated c₂ ⟨_, forward₂⟩ _
    have wider := placed.wider (Nat.le_refl _) forward₂.1
    apply Lands.ite
    · exact .seen rfl (.pure wider)
    · exact .pure wider
  have fields (c : Cursor) : Places source c Nodes.fields (tableFields inner) := by
    refine .seen rfl ?_
    split
    · exact .pure placedIn_nil
    · apply (@series_places source c Field Nodes.field _ each).mono
      intro fs c' _ placed
      rwa [Nodes.fields_eq_flatMap]
  apply (symbol_lands _).bind
  rintro _ c₁ ⟨_, forward₁⟩ _
  apply (fields c₁).bind
  rintro fs c₂ ⟨_, forward₂⟩ placed
  apply (symbol_lands _).bind
  rintro _ c₃ ⟨_, forward₃⟩ _
  exact .pure ⟨by omega, placed.wider (by omega) (by omega)⟩

theorem tableExpr_places :
    PlacesExpr source c (spanned do return (Expr.table · (← table inner))) := by
  apply spanned_lands
  apply (table_places places).bind
  rintro fs c' _ ⟨moved, placed⟩
  exact .pure ⟨moved, fun fits => .of_parts rfl fits moved placed (by simp [Node.blocks]) trivial⟩

theorem args_places :
    Lands source c (fun es c' => c.here < c'.done ∧
      PlacedIn source (c.between c') (Nodes.exprs es)) (args inner) := by
  have single {c' : Cursor} {e : Expr} (stands : ExprAt source (c.between c') e) :
      c.here < c'.done ∧ PlacedIn source (c.between c') (Nodes.exprs [e]) :=
    ⟨stands.moved, by simpa [Nodes.exprs] using stands.placed⟩
  have string (some : c.current.kind ≠ .eof) :
      Lands source c (fun es c' => c.here < c'.done ∧
        PlacedIn source (c.between c') (Nodes.exprs es)) (do
      let token ← advance
      return [.string token.span token.stringValue]) := by
    apply (advance_lands some).bind
    intro token c' _ taken
    exact .pure (single (.ofToken taken))
  refine .seen rfl ?_
  split
  · rename_i opens
    apply (advance_lands (by simp [opens])).bind
    rintro _ c₁ ⟨_, forward₁⟩ taken
    have moved := taken.moved
    refine .seen rfl ?_
    refine (exprs_places places).ruledOut (a := []) placedIn_nil ?_
    rintro es c₂ ⟨_, forward₂⟩ placed
    apply (symbol_lands _).bind
    rintro _ c₃ ⟨_, forward₃⟩ _
    exact .pure ⟨by omega, placed.wider (by omega) (by omega)⟩
  · apply (tableExpr_places places).bind
    intro e c' _ stands
    exact .pure (single stands)
  · rename_i seen
    exact string (by simp [seen])
  · rename_i seen
    exact string (by simp [seen])
  · exact .fail_here _

theorem primary_places : PlacesExpr source c (primary inner) := by
  refine .steadily fun steady => .seen rfl ?_
  split
  · apply ident_lands.bind
    intro name c' _ taken
    exact .pure (.ident taken)
  · rename_i opens
    refine .seen rfl ?_
    apply (advance_lands (by simp [opens])).bind
    rintro _ c₁ ⟨moves₁, forward₁⟩ _
    apply (expr_places places c₁).bind
    rintro inside c₂ ⟨moves₂, forward₂⟩ stands
    apply (symbol_lands _).bind
    rintro _ c₃ ⟨moves₃, forward₃⟩ _
    have moves := (moves₁.trans moves₂).trans moves₃
    have moved := stands.moved
    have wider : (c₁.between c₂).Inside (c.between c₃) := ⟨forward₁.2.1, forward₃.1⟩
    apply finish_lands steady moves (by omega)
    intro fits
    exact .pure (stands.parenthesized wider fits)
  · exact .fail_here _
  · exact .fail_here _

theorem suffix_places {start : Cursor} (steady : start.Steady source) {object : Expr}
    (reach : start.Reaches c) (stands : ExprAt source (start.between c) object) :
    Lands source c (fun e? c' => ExprAt source (start.between c') (e?.getD object))
      (suffix inner start.current.span object) := by
  -- Each new span is finished from the start of the whole chain, not from where the suffix starts.
  obtain ⟨moves, forward⟩ := reach
  have called : Lands source c (fun e? c' => ExprAt source (start.between c') (e?.getD object)) (do
      let given ← args inner
      return some (.call (← finish start.current.span) object given false)) := by
    apply (args_places places).bind
    rintro given c₁ ⟨moves₁, forward₁⟩ ⟨moved, placed⟩
    apply finish_lands steady (moves.trans moves₁) (by omega)
    intro fits
    have inArgs := placed.wider forward.2.1 (Nat.le_refl c₁.done)
    exact .pure (stands.extend forward₁.1 rfl fits rfl inArgs rfl trivial)
  refine .seen rfl ?_
  split
  · rename_i dot
    apply (advance_lands (by simp [dot])).bind
    rintro _ c₁ ⟨_, forward₁⟩ _
    apply ident_lands.bind
    rintro name c₂ ⟨_, forward₂⟩ taken
    exact .pure (stands.ofField taken (by omega) (by omega))
  · rename_i opens
    apply (advance_lands (by simp [opens])).bind
    rintro _ c₁ ⟨moves₁, forward₁⟩ _
    apply (expr_places places c₁).bind
    rintro key c₂ ⟨moves₂, forward₂⟩ second
    apply (symbol_lands _).bind
    rintro _ c₃ ⟨moves₃, forward₃⟩ moved
    have further := ((moves.trans moves₁).trans moves₂).trans moves₃
    apply finish_lands steady further (by omega)
    intro fits
    have inKey := second.placed.wider (show start.here ≤ c₁.here by omega) forward₃.1
    exact .pure (stands.extend (by omega) rfl fits rfl inKey rfl trivial)
  · rename_i colon
    apply (advance_lands (by simp [colon])).bind
    rintro _ c₁ ⟨moves₁, forward₁⟩ _
    apply ident_lands.bind
    rintro method c₂ ⟨moves₂, forward₂⟩ taken
    apply (args_places places).bind
    rintro given c₃ ⟨moves₃, forward₃⟩ ⟨moved, placed⟩
    have further := ((moves.trans moves₁).trans moves₂).trans moves₃
    apply finish_lands steady further (by omega)
    intro fits
    have inArgs := placed.wider (show start.here ≤ c₂.here by omega) (Nat.le_refl c₃.done)
    exact .pure (stands.extend (by omega) rfl fits rfl inArgs rfl trivial)
  · exact called
  · exact called
  · exact called
  · exact called
  · exact .pure stands

theorem suffixed_places (c : Cursor) : PlacesExpr source c (suffixed inner) := by
  refine .steadily fun steady => .seen rfl ?_
  apply (primary_places places).bind
  intro object c₁ reach stands
  refine chain_places ?_ reach stands
  intro e d further stands
  exact suffix_places places steady further stands

theorem simple_places : PlacesExpr source c (simple inner) := by
  have constants (value : Constant) (some : c.current.kind ≠ .eof) :
      PlacesExpr source c (constant value) := by
    apply spanned_lands
    apply (advance_lands some).bind
    intro _ c' _ taken
    exact .pure ⟨taken.moved, fun fits => .constant value fits taken.moved⟩
  have strings (some : c.current.kind ≠ .eof) : PlacesExpr source c (spanned do
      let token ← advance
      return (.string · token.stringValue)) := by
    apply spanned_lands
    apply (advance_lands some).bind
    intro token c' _ taken
    exact .pure ⟨taken.moved, fun fits => .string _ fits taken.moved⟩
  refine .seen rfl ?_
  split
  · rename_i seen
    apply spanned_lands
    apply (advance_lands (by simp [seen])).bind
    intro token c' _ taken
    refine .pure ⟨taken.moved, fun fits => .of_parts rfl fits taken.moved placedIn_nil ?_ ?_⟩
    · simp [Node.blocks]
    · exact ⟨token.span, taken.span ▸ .refl _, taken.text⟩
  · rename_i seen
    exact strings (by simp [seen])
  · rename_i seen
    exact strings (by simp [seen])
  · rename_i seen
    exact constants .nil (by simp [seen])
  · rename_i seen
    exact constants .true (by simp [seen])
  · rename_i seen
    exact constants .false (by simp [seen])
  · rename_i seen
    exact constants .vararg (by simp [seen])
  · exact tableExpr_places places
  · rename_i seen
    apply spanned_lands
    apply (advance_lands (by simp [seen])).bind
    rintro _ c₁ ⟨_, forward₁⟩ _
    apply (functionBody_places places).bind
    rintro ⟨ps, body⟩ c₂ _ ⟨moved, named, stands⟩
    have inNames := named.wider forward₁.2.1 (Nat.le_refl _)
    have inBody := stands.placed.wider forward₁.2.1 (Nat.le_refl _)
    have order : c.here < c₂.done := by omega
    refine .pure ⟨order, fun fits => .of_parts rfl fits order ?_ ?_ trivial⟩
    · exact placedIn_append.mpr ⟨inNames, inBody⟩
    · simpa [Node.blocks] using stands.ordered
  · exact suffixed_places places c

theorem operand_places : PlacesExpr source c (operand inner) := by
  refine .seen rfl ?_
  split
  · rename_i op seen
    have some : c.current.kind ≠ .eof := by
      intro last
      rw [last] at seen
      cases seen
    apply (advance_lands some).bind
    rintro sign c₁ ⟨_, forward₁⟩ taken
    apply (places.operators _ c₁).bind
    rintro value c₂ ⟨_, forward₂⟩ stands
    have moved := taken.moved
    have order : c.here < c₂.done := by omega
    have fits := taken.fits
    rw [taken.span] at fits
    have whole : (c.between c₂).Fits source :=
      ⟨Nat.le_of_lt order, fits.start, stands.fits.stop⟩
    refine .pure (.of_parts ?_ whole order ?_ ?_ trivial)
    · rw [taken.span, stands.span]
      exact Cursor.merge_between forward₁.2.1 forward₂.1
    · exact stands.placed.wider forward₁.2.1 (Nat.le_refl _)
    · simp [Node.blocks]
  · exact simple_places places

theorem operators_places (limit : Nat) (c : Cursor) :
    PlacesExpr source c (Grammar.operators inner limit) := by
  apply (operand_places places).bind
  intro first c₁ reach stands
  refine chain_places ?_ reach stands
  rintro left d ⟨_, forward₁⟩ stands
  refine .seen rfl ?_
  split
  · rename_i op seen
    have some : d.current.kind ≠ .eof := by
      intro last
      rw [last] at seen
      cases seen
    split
    · exact .pure stands
    · apply (advance_lands some).bind
      rintro _ d₁ ⟨_, forward₂⟩ _
      apply (places.operators _ d₁).bind
      rintro right d₂ ⟨_, forward₃⟩ second
      exact .pure (stands.ofBinary op second (by omega) (by omega))
  · exact .pure stands

end

end Grammar

end LuaSearch
