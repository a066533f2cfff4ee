import LuaSearch.Proofs.Parse.Levels
import LuaSearch.Proofs.Parse.Gives
import LuaSearch.Syntax.Depth

/-!
How deep the trees are that readers give. With some number of levels left, whatever is read nests
less deep than that. The two counts differ: levels are taken by expressions and by each `elseif`
too, while an else branch that is left out takes none and still counts as a block; it is never the
deepest, for the then branch beside it was read.
-/
namespace LuaSearch

open Parse

namespace Depth

@[simp] theorem expr_parenthesized (outer : Span) (e : Expr) :
    expr (e.parenthesized outer) = expr e := by
  cases e <;> simp [Expr.parenthesized, expr]

@[simp] theorem expr_ofField (object : Expr) (span : Span) (name : String) :
    expr (object.ofField span name) = expr object := by
  simp [Expr.ofField, expr]

theorem exprs_le_iff (es : List Expr) (n : Nat) : exprs es ≤ n ↔ ∀ e ∈ es, expr e ≤ n := by
  induction es with
  | nil => simp [exprs]
  | cons e es ih => rw [exprs, Nat.max_le, ih, List.forall_mem_cons]

theorem fields_le_iff (fs : List Field) (n : Nat) : fields fs ≤ n ↔ ∀ f ∈ fs, field f ≤ n := by
  induction fs with
  | nil => simp [fields]
  | cons f fs ih => rw [fields, Nat.max_le, ih, List.forall_mem_cons]

theorem stmts_le_iff (ss : List Stmt) (n : Nat) : stmts ss ≤ n ↔ ∀ s ∈ ss, stmt s ≤ n := by
  induction ss with
  | nil => simp [stmts]
  | cons s ss ih => rw [stmts, Nat.max_le, ih, List.forall_mem_cons]

end Depth

namespace Grammar

structure Level.Within (inner : Level) (n : Nat) : Prop where
  operators (limit : Nat) : Gives (Depth.expr · < n) (inner.operators limit)
  block : Gives (Depth.stmts · < n) inner.block
  elseif : Gives (Depth.stmt · < n) inner.elseif

section

variable {inner : Level} {n : Nat} (within : inner.Within n)

include within

theorem expr_within : Gives (Depth.expr · < n) (Grammar.expr inner) := within.operators 0

theorem exprs_within : Gives (Depth.exprs · ≤ n) (Grammar.exprs inner) := by
  apply (commaSeparated_gives (expr_within within)).mono
  intro es each
  rw [Depth.exprs_le_iff]
  intro e member
  exact Nat.le_of_lt (each e member)

theorem functionBody_within : Gives (fun f => Depth.stmts f.2 < n) (functionBody inner) := by
  apply Gives.skip
  intro _
  apply Gives.skip
  intro params
  apply Gives.skip
  intro _
  apply within.block.bind
  intro body nests
  apply Gives.skip
  intro _
  exact .pure nests

theorem field_within : Gives (Depth.field · ≤ n) (Grammar.field inner) := by
  have positional : Gives (Depth.field · ≤ n) (do return .positional (← Grammar.expr inner)) := by
    apply (expr_within within).bind
    intro value nests
    exact .pure (Nat.le_of_lt nests)
  apply Gives.skip
  intro kind
  split
  · apply Gives.skip
    intro _
    apply (expr_within within).bind
    intro key nests
    apply Gives.skip
    intro _
    apply Gives.skip
    intro _
    apply (expr_within within).bind
    intro value nests'
    exact .pure (Nat.max_le.mpr ⟨Nat.le_of_lt nests, Nat.le_of_lt nests'⟩)
  · apply Gives.skip
    intro second
    apply Gives.ite
    · apply Gives.skip
      intro name
      apply Gives.skip
      intro _
      apply (expr_within within).bind
      intro value nests
      refine .pure ?_
      simp only [Depth.field, Depth.expr]
      omega
    · exact positional
  · exact positional

theorem table_within : Gives (Depth.fields · ≤ n) (table inner) := by
  have fields : Gives (Depth.fields · ≤ n) (tableFields inner) := by
    apply Gives.skip
    intro closed
    apply Gives.ite
    · exact .pure (Nat.zero_le n)
    · have each : Gives (fun f : Field × Bool => Depth.field f.1 ≤ n) (do
          let one ← Grammar.field inner
          if ← fieldSeparator then return (one, !(← isAt (.symbol .rbrace)))
          else return (one, false)) := by
        apply (field_within within).bind
        intro one nests
        apply Gives.skip
        intro separated
        apply Gives.ite
        · apply Gives.skip
          intro last
          exact .pure nests
        · exact .pure nests
      apply (series_gives (P := (Depth.field · ≤ n)) each).mono
      intro fs nest
      exact (Depth.fields_le_iff fs n).mpr nest
  apply Gives.skip
  intro _
  apply fields.bind
  intro fs nest
  apply Gives.skip
  intro _
  exact .pure nest

theorem tableExpr_within :
    Gives (Depth.expr · ≤ n) (spanned do return (Expr.table · (← table inner))) := by
  apply spanned_gives
  apply (table_within within).bind
  intro fs nest
  exact .pure fun _ => nest

theorem args_within : Gives (Depth.exprs · ≤ n) (args inner) := by
  have string (token : Token) :
      Gives (Depth.exprs · ≤ n) (pure [.string token.span token.stringValue] : Parse _) :=
    .pure (by simp [Depth.exprs, Depth.expr])
  apply Gives.skip
  intro kind
  split
  · apply Gives.skip
    intro _
    apply Gives.skip
    intro closed
    refine (exprs_within within).ruledOut (a := []) (Nat.zero_le n) ?_
    intro es nest
    apply Gives.skip
    intro _
    exact .pure nest
  · apply (tableExpr_within within).bind
    intro e nests
    exact .pure (by simpa [Depth.exprs] using nests)
  · exact .skip string
  · exact .skip string
  · apply Gives.skip
    intro span
    exact .fail _ _

theorem primary_within : Gives (Depth.expr · ≤ n) (primary inner) := by
  apply Gives.skip
  intro kind
  split
  · apply Gives.skip
    intro name
    exact .pure (by simp [Depth.expr])
  · apply Gives.skip
    intro start
    apply Gives.skip
    intro _
    apply (expr_within within).bind
    intro inside nests
    apply Gives.skip
    intro _
    apply Gives.skip
    intro span
    exact .pure (by simpa using Nat.le_of_lt nests)
  · exact .skip fun _ => .fail _ _
  · exact .skip fun _ => .fail _ _

theorem suffix_within (start : Span) (object : Expr) (nests : Depth.expr object ≤ n) :
    Gives (fun e? => ∀ e ∈ e?, Depth.expr e ≤ n) (suffix inner start object) := by
  have called : Gives (fun e? => ∀ e ∈ e?, Depth.expr e ≤ n) (do
      let given ← args inner
      return some (.call (← finish start) object given false)) := by
    apply (args_within within).bind
    intro given nest
    apply Gives.skip
    intro span
    exact .some (Nat.max_le.mpr ⟨nests, nest⟩)
  apply Gives.skip
  intro kind
  split
  · apply Gives.skip
    intro _
    apply Gives.skip
    intro name
    exact .some (by simpa using nests)
  · apply Gives.skip
    intro _
    apply (expr_within within).bind
    intro key nests'
    apply Gives.skip
    intro _
    apply Gives.skip
    intro span
    exact .some (Nat.max_le.mpr ⟨nests, Nat.le_of_lt nests'⟩)
  · apply Gives.skip
    intro _
    apply Gives.skip
    intro method
    apply (args_within within).bind
    intro given nest
    apply Gives.skip
    intro span
    exact .some (Nat.max_le.mpr ⟨nests, nest⟩)
  · exact called
  · exact called
  · exact called
  · exact called
  · exact .none

theorem suffixed_within : Gives (Depth.expr · ≤ n) (suffixed inner) := by
  apply Gives.skip
  intro start
  apply (primary_within within).bind
  intro object nests
  exact chain_gives (suffix_within within start) nests

theorem simple_within : Gives (Depth.expr · ≤ n) (simple inner) := by
  have constants (value : Constant) : Gives (Depth.expr · ≤ n) (constant value) := by
    apply spanned_gives
    apply Gives.skip
    intro _
    exact .pure fun _ => by simp [Depth.expr]
  have strings : Gives (Depth.expr · ≤ n) (spanned do
      let token ← advance
      return (.string · token.stringValue)) := by
    apply spanned_gives
    apply Gives.skip
    intro _
    exact .pure fun _ => by simp [Depth.expr]
  apply Gives.skip
  intro kind
  split
  · apply spanned_gives
    apply Gives.skip
    intro _
    exact .pure fun _ => by simp [Depth.expr]
  · exact strings
  · exact strings
  · exact constants .nil
  · exact constants .true
  · exact constants .false
  · exact constants .vararg
  · exact tableExpr_within within
  · apply spanned_gives
    apply Gives.skip
    intro _
    apply (functionBody_within within).bind
    intro f nests
    exact .pure fun _ => nests
  · exact suffixed_within within

theorem operators_within (limit : Nat) :
    Gives (Depth.expr · ≤ n) (Grammar.operators inner limit) := by
  have operand : Gives (Depth.expr · ≤ n) (operand inner) := by
    apply Gives.skip
    intro kind
    split
    · apply Gives.skip
      intro sign
      apply (within.operators _).bind
      intro value nests
      exact .pure (Nat.le_of_lt nests)
    · exact simple_within within
  apply operand.bind
  intro first nests
  refine chain_gives ?_ nests
  intro left nests
  apply Gives.skip
  intro kind
  split
  · apply Gives.ite
    · exact .none
    · apply Gives.skip
      intro _
      apply (within.operators _).bind
      intro right nests'
      exact .some (Nat.max_le.mpr ⟨nests, Nat.le_of_lt nests'⟩)
  · exact .none

theorem ending_within (word : Keyword) : Gives (Depth.stmts · < n) (ending inner word) := by
  apply within.block.bind
  intro body nests
  apply Gives.skip
  intro _
  exact .pure nests

abbrev StmtWithin (n : Nat) (build : Span → Stmt) : Prop := ∀ span, Depth.stmt (build span) ≤ n

theorem doBlock_within : Gives (StmtWithin n) (doBlock inner) := by
  apply Gives.skip
  intro _
  apply (ending_within within .end_).bind
  intro body nests
  exact .pure fun _ => nests

theorem whileLoop_within : Gives (StmtWithin n) (whileLoop inner) := by
  apply Gives.skip
  intro _
  apply (expr_within within).bind
  intro condition nests
  apply Gives.skip
  intro _
  apply (ending_within within .end_).bind
  intro body nests'
  exact .pure fun _ => Nat.max_le.mpr ⟨Nat.le_of_lt nests, nests'⟩

theorem repeatLoop_within : Gives (StmtWithin n) (repeatLoop inner) := by
  apply Gives.skip
  intro _
  apply (ending_within within .until_).bind
  intro body nests
  apply (expr_within within).bind
  intro condition nests'
  exact .pure fun _ => Nat.max_le.mpr ⟨Nat.le_of_lt nests', nests⟩

/-- An else branch that is left out is empty, and a level is left for it. -/
theorem elseBody_within (some : 0 < n) : Gives (Depth.stmts · < n) (elseBody inner) := by
  apply Gives.skip
  intro kind
  split
  · apply within.elseif.bind
    intro s nests
    refine .pure ?_
    simp only [Depth.stmts]
    omega
  · apply Gives.skip
    intro _
    exact ending_within within .end_
  · apply Gives.skip
    intro _
    exact .pure some

theorem conditional_within : Gives (StmtWithin n) (conditional inner) := by
  apply Gives.skip
  intro _
  apply (expr_within within).bind
  intro condition nests
  apply Gives.skip
  intro _
  apply within.block.bind
  intro thenBody nestsThen
  apply (elseBody_within within (Nat.zero_lt_of_lt nestsThen)).bind
  intro elseBody nestsElse
  refine .pure fun _ => ?_
  simp only [Depth.stmt]
  omega

theorem numericFor_within (var : String) : Gives (StmtWithin n) (numericFor inner var) := by
  apply (expr_within within).bind
  intro start nestsStart
  apply Gives.skip
  intro _
  apply (expr_within within).bind
  intro limit nestsLimit
  have stepped : Gives (Depth.step · ≤ n) (some <$> Grammar.expr inner) := by
    rw [map_eq_pure_bind]
    apply (expr_within within).bind
    intro step nests
    exact .pure (Nat.le_of_lt nests)
  apply Gives.skip
  intro further
  refine stepped.optional (a := none) (Nat.zero_le n) ?_
  intro step? nestsStep
  apply Gives.skip
  intro _
  apply (ending_within within .end_).bind
  intro body nests
  refine .pure fun _ => ?_
  simp only [Depth.stmt]
  omega

theorem genericFor_within (first : String) : Gives (StmtWithin n) (genericFor inner first) := by
  apply Gives.skip
  intro further
  have anything : Gives (fun _ => True) (commaSeparated ident) := ⟨fun _ => trivial⟩
  refine anything.optional (a := []) trivial ?_
  intro more _
  apply Gives.skip
  intro _
  apply (exprs_within within).bind
  intro values nest
  apply Gives.skip
  intro _
  apply (ending_within within .end_).bind
  intro body nests
  exact .pure fun _ => Nat.max_le.mpr ⟨nest, nests⟩

theorem forLoop_within : Gives (StmtWithin n) (forLoop inner) := by
  apply Gives.skip
  intro _
  apply Gives.skip
  intro first
  apply Gives.skip
  intro numeric
  exact .ite (numericFor_within within first.text) (genericFor_within within first.text)

omit within in
theorem functionPath_depth : Gives (Depth.expr · = 0) functionPath := by
  apply Gives.skip
  intro name
  refine chain_gives ?_ rfl
  intro path flat
  apply Gives.skip
  intro dotted
  apply Gives.ite
  · apply Gives.skip
    intro field
    exact .some (by simpa using flat)
  · exact .none

theorem function_within : Gives (StmtWithin n) (function inner) := by
  apply Gives.skip
  intro _
  apply functionPath_depth.bind
  intro target flat
  apply Gives.skip
  intro isMethod
  apply Gives.ite
  · apply Gives.skip
    intro method
    apply (functionBody_within within).bind
    intro f nests
    refine .pure fun _ => ?_
    simp only [Depth.stmt]
    omega
  · apply (functionBody_within within).bind
    intro f nests
    refine .pure fun _ => ?_
    simp only [Depth.stmt]
    omega

theorem localFunction_within : Gives (StmtWithin n) (localFunction inner) := by
  apply Gives.skip
  intro _
  apply Gives.skip
  intro _
  apply Gives.skip
  intro name
  apply (functionBody_within within).bind
  intro f nests
  exact .pure fun _ => nests

theorem localVars_within : Gives (StmtWithin n) (localVars inner) := by
  apply Gives.skip
  intro _
  apply Gives.skip
  intro names
  apply Gives.skip
  intro given
  refine (exprs_within within).optional (a := []) (Nat.zero_le n) ?_
  intro values nest
  exact .pure fun _ => nest

theorem returnStmt_within : Gives (Depth.stmt · ≤ n) (returnStmt inner) := by
  apply spanned_gives
  apply Gives.skip
  intro _
  apply Gives.skip
  intro kind
  apply Gives.skip
  intro closed
  refine (exprs_within within).ruledOut (a := []) (Nat.zero_le n) ?_
  intro values nest
  exact .pure fun _ => nest

theorem exprStmt_within : Gives (StmtWithin n) (exprStmt inner) := by
  apply (suffixed_within within).bind
  intro first nests
  apply Gives.skip
  intro next
  split
  · -- A compound assignment holds its target twice.
    apply Gives.skip
    intro _
    apply Gives.skip
    intro _
    apply (expr_within within).bind
    intro value nests'
    refine .pure fun _ => ?_
    simp only [Depth.stmt, Depth.exprs, Expr.ofBinary, Depth.expr]
    omega
  · apply Gives.ite
    · apply Gives.skip
      intro further
      refine (commaSeparated_gives (suffixed_within within)).optional (a := []) (by simp) ?_
      intro more nest
      apply Gives.skip
      intro _
      apply Gives.skip
      intro _
      apply (exprs_within within).bind
      intro values nest'
      have targets := (Depth.exprs_le_iff more n).mpr nest
      refine .pure fun _ => ?_
      simp only [Depth.stmt, Depth.exprs]
      omega
    · apply Gives.ite
      · exact .pure fun _ => nests
      · exact .fail _ _

theorem statement_within : Gives (Depth.stmt · ≤ n) (statement inner) := by
  apply spanned_gives
  apply Gives.skip
  intro kind
  split
  · exact doBlock_within within
  · exact whileLoop_within within
  · exact repeatLoop_within within
  · exact conditional_within within
  · exact forLoop_within within
  · exact function_within within
  · apply Gives.skip
    intro second
    exact .ite (localFunction_within within) (localVars_within within)
  · exact .skip fun _ => .pure fun _ => Nat.zero_le n
  · exact .skip fun _ => .pure fun _ => Nat.zero_le n
  · exact exprStmt_within within

theorem block_within : Gives (Depth.stmts · ≤ n) (block inner) := by
  have next : Gives (fun s? => ∀ s ∈ s?, Depth.stmt s ≤ n) (nextStatement inner) := by
    apply Gives.skip
    intro _
    apply Gives.skip
    intro kind
    apply Gives.ite
    · exact .none
    · apply (statement_within within).bind
      intro s nests
      exact .some nests
  apply (many_gives next).bind
  intro body nest
  apply Gives.skip
  intro returns
  apply Gives.ite
  · apply (returnStmt_within within).bind
    intro last nests
    apply Gives.skip
    intro _
    refine .pure ((Depth.stmts_le_iff _ n).mpr ?_)
    intro s member
    rcases List.mem_append.mp member with earlier | final
    · exact nest s earlier
    · exact List.mem_singleton.mp final ▸ nests
  · exact .pure ((Depth.stmts_le_iff body n).mpr nest)

theorem Level.Within.above : (Level.above inner).Within (n + 1) where
  operators limit := (operators_within within limit).mono fun _ => Nat.lt_succ_of_le
  block := (block_within within).mono fun _ => Nat.lt_succ_of_le
  elseif := (spanned_gives (conditional_within within)).mono fun _ => Nat.lt_succ_of_le

end

theorem Level.within_free (levels : Nat) : (Level.free levels).Within levels := by
  induction levels with
  | zero =>
    refine ⟨fun _ => ?_, ?_, ?_⟩
    all_goals exact .skip fun _ => .fail _ _
  | succ levels ih => exact ih.above

end Grammar

/-- The blocks of a text that is read nest as deep as the limit allows, at most. -/
theorem depth_le_of_parse {source : String} {chunk : Block} (read : parse source = .ok chunk) :
    Block.depth chunk ≤ maxNesting := by
  have reader : Gives (Depth.stmts · < maxNesting) Parser.chunkReader := by
    apply (Grammar.Level.within_free maxNesting).block.bind
    intro body nests
    apply Gives.skip
    intro _
    exact .pure nests
  obtain ⟨_, _, ran⟩ := chunkReader_of_parse read
  exact reader.holds ran

end LuaSearch
