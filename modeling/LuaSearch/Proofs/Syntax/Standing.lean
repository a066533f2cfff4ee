import LuaSearch.Proofs.Syntax.Render

/-!
The text of a well-formed tree is cut where the printer set its blanks: names, numbers and literals
of such a tree are lexemes that stand by themselves, as all keywords and symbols do.
-/
namespace LuaSearch

open Lexeme

def Standing (ls : List Lexeme) : Prop := ∀ l ∈ ls, l.Stands

namespace Standing

@[simp] theorem nil : Standing [] := by simp [Standing]

@[simp] theorem cons {l : Lexeme} {ls : List Lexeme} :
    Standing (l :: ls) ↔ l.Stands ∧ Standing ls := by
  simp [Standing]

@[simp] theorem append {ls ls' : List Lexeme} :
    Standing (ls ++ ls') ↔ Standing ls ∧ Standing ls' := by
  simp [Standing, or_imp, forall_and]

theorem enclosed {inside : List Lexeme} (left right : Symbol) (standing : Standing inside) :
    Standing (Render.enclosed left inside right) := by
  simp [Render.enclosed, standing, stands_symbol]

theorem grouped {inside : List Lexeme} (bare : Bool) (standing : Standing inside) :
    Standing (Render.grouped bare inside) := by
  unfold Render.grouped
  split
  · exact standing
  · exact standing.enclosed _ _

theorem optional {absent : Prop} [Decidable absent] {ls : List Lexeme} (standing : Standing ls) :
    Standing (if absent then [] else ls) := by
  split
  · exact nil
  · exact standing

theorem separated {items : List (List Lexeme)} (each : ∀ item ∈ items, Standing item) :
    Standing (Render.separated items) := by
  fun_induction Render.separated items with
  | case1 => exact nil
  | case2 item => exact each item List.mem_cons_self
  | case3 item items _ ih =>
    have others := ih fun item member => each item (List.mem_cons_of_mem _ member)
    simp [each item List.mem_cons_self, others, stands_symbol]

end Standing

theorem constant_stands (value : Constant) : value.lexeme.Stands := by
  cases value <;> simp [Constant.lexeme]

theorem unaryOp_stands (op : UnaryOp) : op.lexeme.Stands := by
  cases op <;> simp [UnaryOp.lexeme]

theorem binaryOp_stands (op : BinaryOp) : op.lexeme.Stands := by
  rcases op with op | op | op | _ <;> try cases op
  all_goals simp [BinaryOp.lexeme]

theorem binder_stands {b : Binder} (named : WellFormed.binder b) : (Render.binder b).Stands := by
  rcases b with ⟨span, _ | name⟩
  · cases named
  · exact stands_name named

theorem standing_singles {α : Type} {f : α → Lexeme} {as : List α}
    (each : ∀ a ∈ as, (f a).Stands) : Standing (Render.separated (as.map ([f ·]))) := by
  apply Standing.separated
  intro item member
  obtain ⟨a, given, rfl⟩ := List.mem_map.mp member
  simpa using each a given

theorem param_stands {ps : Params} (named : WellFormed.params ps) :
    ∀ item ∈ Render.paramItems ps, (Render.param item).Stands := by
  rintro (_ | b) member
  · exact stands_symbol _
  · have given : b ∈ ps.names := by
      simp only [Render.paramItems, List.mem_append] at member
      rcases member with given | dots
      · simpa using given
      · split at dots <;> simp at dots
    exact binder_stands (List.all_eq_true.mp named b given)

theorem standing_functionBody {ps : Params} (named : WellFormed.params ps) {body : List Lexeme}
    (standing : Standing body) : Standing (Render.functionBody ps body) := by
  simpa [Render.functionBody, Render.params, standing] using
    (standing_singles (param_stands named)).enclosed .lparen .rparen

theorem standing_path : ∀ {e : Expr}, WellFormed.path e → Standing (Render.path e)
  | .ident _ name, isPath => by simpa [Render.path] using stands_name isPath
  | .index _ object (.string _ key), isPath => by
      simp only [WellFormed.path, Bool.and_eq_true] at isPath
      simp [Render.path, standing_path isPath.1, stands_name isPath.2]

theorem standing_declared {method? : Option String} {ps : Params}
    (isMethod : method?.all (WellFormed.method ps)) (named : WellFormed.params ps)
    {body : List Lexeme} (standing : Standing body) :
    Standing (Render.declared method? ps body) := by
  cases method? with
  | none => exact standing_functionBody named standing
  | some method =>
    have others := WellFormed.params_tail named
    have isName : isName method := by
      simp only [Option.all_some, WellFormed.method, Bool.and_eq_true] at isMethod
      exact isMethod.1
    simp [Render.declared, stands_name isName, standing_functionBody others standing]

mutual
theorem standing_expr : ∀ e : Expr, WellFormed.expr e → Standing (Render.expr e)
  | .constant _ value, _ => by simp [Render.expr, constant_stands]
  | .string .., _ => by simp [Render.expr]
  | .number _ text, given => by simpa [Render.expr] using stands_number given
  | .ident _ name, given => by simpa [Render.expr] using stands_name given
  | .unary _ op operand, given => by
      simp [Render.expr, unaryOp_stands, (standing_expr operand given).grouped]
  | .binary _ op left right, given => by
      simp only [WellFormed.expr, Bool.and_eq_true] at given
      simp [Render.expr, binaryOp_stands, (standing_expr left given.1).grouped,
        (standing_expr right given.2).grouped]
  | .index _ object key, given => by
      simp only [WellFormed.expr, Bool.and_eq_true] at given
      simp [Render.expr, (standing_expr object given.1).grouped,
        (standing_expr key given.2).enclosed]
  | .table _ fs, given => by
      simp [Render.expr, (Standing.separated (standing_fields fs given)).enclosed]
  | .call _ callee args _, given => by
      simp only [WellFormed.expr, Bool.and_eq_true] at given
      apply Standing.grouped
      simp [(standing_expr callee given.1).grouped,
        (Standing.separated (standing_exprs args given.2)).enclosed]
  | .methodCall _ receiver method args _, given => by
      simp only [WellFormed.expr, Bool.and_eq_true] at given
      apply Standing.grouped
      simp [(standing_expr receiver given.1.1).grouped, stands_name given.1.2,
        (Standing.separated (standing_exprs args given.2)).enclosed]
  | .function _ ps body, given => by
      simp only [WellFormed.expr, Bool.and_eq_true] at given
      simp [Render.expr, standing_functionBody given.1 (standing_block body given.2)]
termination_by structural e => e

theorem standing_exprs : ∀ es : List Expr, WellFormed.exprs es →
    ∀ item ∈ Render.exprs es, Standing item
  | [], _ => by simp [Render.exprs]
  | e :: es, given => by
      simp only [WellFormed.exprs, Bool.and_eq_true] at given
      simpa [Render.exprs, standing_expr e given.1] using standing_exprs es given.2
termination_by structural es => es

theorem standing_field : ∀ f : Field, WellFormed.field f → Standing (Render.field f)
  | .positional value, given => standing_expr value given
  | .keyed key value, given => by
      simp only [WellFormed.field, Bool.and_eq_true] at given
      simp [Render.field, (standing_expr key given.1).enclosed, standing_expr value given.2]
termination_by structural f => f

theorem standing_fields : ∀ fs : List Field, WellFormed.fields fs →
    ∀ item ∈ Render.fields fs, Standing item
  | [], _ => by simp [Render.fields]
  | f :: fs, given => by
      simp only [WellFormed.fields, Bool.and_eq_true] at given
      simpa [Render.fields, standing_field f given.1] using standing_fields fs given.2
termination_by structural fs => fs

theorem standing_step : ∀ step? : Option Expr, WellFormed.step step? →
    Standing (Render.step step?)
  | none, _ => by simp [Render.step]
  | some e, given => by simpa [Render.step] using standing_expr e given
termination_by structural step? => step?

theorem standing_stmt : ∀ s : Stmt, WellFormed.stmt s → Standing (Render.stmt s)
  | .assign _ targets values, given => by
      simp only [WellFormed.stmt, Bool.and_eq_true] at given
      simp [Render.stmt, Standing.separated (standing_exprs targets given.1.2),
        Standing.separated (standing_exprs values given.2)]
  | .localVars _ names values, given => by
      simp only [WellFormed.stmt, Bool.and_eq_true] at given
      have right : Standing (ofSymbol .eq :: Render.separated (Render.exprs values)) := by
        simpa using Standing.separated (standing_exprs values given.2)
      have left := standing_singles fun b member =>
        binder_stands (List.all_eq_true.mp given.1.2 b member)
      simp [Render.stmt, left, right.optional]
  | .call _ call, given => by
      simp only [WellFormed.stmt, Bool.and_eq_true] at given
      exact standing_expr call given.2
  | .doBlock _ body, given => by simp [Render.stmt, standing_block body given]
  | .whileLoop _ condition body, given => by
      simp only [WellFormed.stmt, Bool.and_eq_true] at given
      simp [Render.stmt, standing_expr condition given.1, standing_block body given.2]
  | .repeatLoop _ body condition, given => by
      simp only [WellFormed.stmt, Bool.and_eq_true] at given
      simp [Render.stmt, standing_block body given.1, standing_expr condition given.2]
  | .localFunction _ name ps body, given => by
      simp only [WellFormed.stmt, Bool.and_eq_true] at given
      simp [Render.stmt, stands_name given.1.1,
        standing_functionBody given.1.2 (standing_block body given.2)]
  | .function _ target method? ps body, given => by
      simp only [WellFormed.stmt, Bool.and_eq_true] at given
      simp [Render.stmt, standing_path given.1.1.1,
        standing_declared given.1.1.2 given.1.2 (standing_block body given.2)]
  | .returnStmt _ values, given => by
      simpa [Render.stmt] using Standing.separated (standing_exprs values given)
  | .ifStmt _ condition thenBody elseBody, given => by
      simp only [WellFormed.stmt, Bool.and_eq_true] at given
      have otherwise : Standing (ofKeyword .else_ :: Render.block elseBody) := by
        simpa using standing_block elseBody given.2
      simp [Render.stmt, standing_expr condition given.1.1, standing_block thenBody given.1.2,
        otherwise.optional]
  | .breakStmt _, _ => by simp [Render.stmt]
  | .continueStmt _, _ => by simp [Render.stmt]
  | .numericFor _ var start limit step? body, given => by
      simp only [WellFormed.stmt, Bool.and_eq_true] at given
      simp [Render.stmt, stands_name given.1.1.1.1, standing_expr start given.1.1.1.2,
        standing_expr limit given.1.1.2, standing_step step? given.1.2,
        standing_block body given.2]
  | .genericFor _ names es body, given => by
      simp only [WellFormed.stmt, Bool.and_eq_true] at given
      have left := standing_singles fun name member =>
        stands_name (List.all_eq_true.mp given.1.1.1.2 name member)
      simp [Render.stmt, left, Standing.separated (standing_exprs es given.1.2),
        standing_block body given.2]
termination_by structural s => s

/-- A well-formed tree is written in lexemes that stand by themselves. -/
theorem standing_block : ∀ ss : List Stmt, WellFormed.block ss → Standing (Render.block ss)
  | [], _ => by simp [Render.block]
  | s :: ss, given => by
      simp only [WellFormed.block, Bool.and_eq_true] at given
      simp [Render.block, standing_stmt s given.1.1, standing_block ss given.2]
termination_by structural ss => ss
end

end LuaSearch
