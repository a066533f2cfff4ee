import LuaSearch.Proofs.Concrete.Reads
import Mathlib.Data.List.Forall2

/-!
What the printer writes for a well-formed tree is the text of a formed concrete one, with the same
levels and the same syntax tree up to spans. There are three places an expression can stand at: as
the start of a chain of accesses and calls, as an operand, and by itself. An operation stands in
parentheses at the first two, so what is written at one place gives what is written at the others.
-/
namespace LuaSearch

open Lexeme Relabeling

structure Phrase.Writes {α : Type} (ok : α → Prop) (text : List Lexeme) (levels : Nat)
    (p : Phrase α) : Prop where
  text : p.text = text
  levels : p.levels = levels
  tree : ok p.tree

namespace Concrete

open Phrase (Writes)

def HeadPrinted (e : Expr) : Prop :=
  ∃ h : Head, h.formed ∧ Writes (SameExpr · e) (Render.head e) (Levels.head e) (h.phrase id)

def OperandPrinted (e : Expr) : Prop :=
  ∃ t : Term, (∀ limit, t.formed limit) ∧ (∀ op, t.closes op) ∧
    Writes (SameExpr · e) (Render.operand e) (Levels.operand e) (t.phrase id)

def WritesExpr (p : Phrase Expr) (e : Expr) : Prop :=
  Writes (SameExpr · e) (Render.expr e) (Levels.expr e) p

def WholePrinted (e : Expr) : Prop := ∃ t : Term, t.formed 0 ∧ WritesExpr (t.phrase id) e

structure Printed (e : Expr) : Prop where
  head : HeadPrinted e
  operand : OperandPrinted e
  whole : WholePrinted e

theorem operandPrinted_of_head {e : Expr} (printed : HeadPrinted e)
    (text : Render.operand e = Render.head e) (levels : Levels.operand e = Levels.head e) :
    OperandPrinted e := by
  obtain ⟨h, formed, writes⟩ := printed
  refine ⟨.head h, fun _ => formed, fun _ => rfl, ?_⟩
  rw [text, levels]
  exact writes

theorem headPrinted_group {e outside : Expr} (printed : WholePrinted e)
    (same : ∀ a, SameExpr a e → SameExpr (a.parenthesized default) outside)
    (text : Render.head outside = Render.enclosed .lparen (Render.expr e) .rparen)
    (levels : Levels.head outside = Levels.expr e + 1) : HeadPrinted outside := by
  obtain ⟨t, formed, writes⟩ := printed
  refine ⟨.group t, formed, ?_, ?_, same _ writes.tree⟩
  · rw [text, ← writes.text]
    rfl
  · rw [levels, ← writes.levels]
    rfl

theorem headPrinted_of_whole {e : Expr} (plain : e.isHead = false) (noCall : e.isCall = false)
    (printed : WholePrinted e) : HeadPrinted e := by
  apply headPrinted_group printed
  · intro a same
    exact same.parenthesized_of_not_isCall noCall default
  · simp [Render.head, Render.grouped, plain]
  · simp [Levels.head, Levels.grouped, plain]

theorem wholePrinted_of_operand {e : Expr} (plain : e.isOperation = false)
    (printed : OperandPrinted e) : WholePrinted e := by
  obtain ⟨t, formed, _, writes⟩ := printed
  refine ⟨t, formed 0, ?_⟩
  simpa [WritesExpr, Render.operand, Levels.operand, Render.grouped, Levels.grouped, plain]
    using writes

theorem Printed.ofHead {e : Expr} (isHead : e.isHead) (head : HeadPrinted e) : Printed e := by
  have plain : e.isOperation = false := by cases e <;> first | rfl | cases isHead
  have operand : OperandPrinted e := by
    apply operandPrinted_of_head head
    · simp [Render.operand, Render.head, plain, isHead]
    · simp [Levels.operand, Levels.head, plain, isHead]
  exact ⟨head, operand, wholePrinted_of_operand plain operand⟩

theorem Printed.ofSimple {e : Expr} (noHead : e.isHead = false) (plain : e.isOperation = false)
    {t : Term} (formed : ∀ limit, t.formed limit) (closes : ∀ op, t.closes op)
    (writes : WritesExpr (t.phrase id) e) : Printed e := by
  have noCall : e.isCall = false := by cases e <;> first | rfl | cases noHead
  have whole : WholePrinted e := ⟨t, formed 0, writes⟩
  refine ⟨headPrinted_of_whole noHead noCall whole, ⟨t, formed, closes, ?_⟩, whole⟩
  simpa [WritesExpr, Render.operand, Levels.operand, Render.grouped, Levels.grouped, plain]
    using writes

theorem Printed.ofOperation {e : Expr} (isOperation : e.isOperation) (whole : WholePrinted e) :
    Printed e := by
  have noHead : e.isHead = false := by cases e <;> first | rfl | cases isOperation
  have noCall : e.isCall = false := by cases e <;> first | rfl | cases isOperation
  have head := headPrinted_of_whole noHead noCall whole
  refine ⟨head, operandPrinted_of_head head ?_ ?_, whole⟩
  · simp [Render.operand, Render.head, noHead, isOperation]
  · simp [Levels.operand, Levels.head, noHead, isOperation]

theorem Printed.ofCall (call : Bool → Expr) (adjusted : Bool)
    (isHead : ∀ adjusted, (call adjusted).isHead) (plain : HeadPrinted (call false))
    (text : Render.head (call true) =
      Render.enclosed .lparen (Render.expr (call false)) .rparen)
    (levels : Levels.head (call true) = Levels.expr (call false) + 1)
    (same : SameExpr ((call false).parenthesized default) (call true)) :
    Printed (call adjusted) := by
  have bare := Printed.ofHead (isHead false) plain
  cases adjusted with
  | false => exact bare
  | true =>
    apply Printed.ofHead (isHead true)
    apply headPrinted_group bare.whole _ text levels
    intro a sameCall
    exact (sameCall.parenthesized default default).trans same

theorem printed_unary {e : Expr} (span : Span) (op : UnaryOp) (printed : OperandPrinted e) :
    Printed (.unary span op e) := by
  obtain ⟨t, formed, _, writes⟩ := printed
  refine .ofOperation rfl ⟨.unary op t, formed _, ?_, ?_, ?_⟩
  · simp [Phrase.unary, writes.text, Render.expr, Render.operand]
  · simp [Phrase.unary, writes.levels, Levels.expr, Levels.operand]
  · simp only [Term.phrase, Phrase.unary, SameExpr, Relabeling.expr, writes.tree]
    rfl

theorem printed_binary {left right : Expr} (span : Span) (op : BinaryOp)
    (leftPrinted : OperandPrinted left) (rightPrinted : OperandPrinted right) :
    Printed (.binary span op left right) := by
  obtain ⟨l, leftFormed, closes, leftWrites⟩ := leftPrinted
  obtain ⟨r, rightFormed, _, rightWrites⟩ := rightPrinted
  refine .ofOperation rfl ⟨.binary op l r, ?_, ?_, ?_, ?_⟩
  · simp [leftPriority_pos, closes, leftFormed, rightFormed]
  · simp [Phrase.binary, leftWrites.text, rightWrites.text, Render.expr, Render.operand]
  · simp [Phrase.binary, leftWrites.levels, rightWrites.levels, Levels.expr, Levels.operand]
  · simp only [Term.phrase, Phrase.binary, SameExpr, Relabeling.expr, leftWrites.tree,
      rightWrites.tree]
    rfl

theorem printed_index {object key : Expr} (span : Span) (objectPrinted : HeadPrinted object)
    (keyPrinted : WholePrinted key) : Printed (.index span object key) := by
  obtain ⟨h, formed, writes⟩ := objectPrinted
  obtain ⟨t, keyFormed, keyWrites⟩ := keyPrinted
  refine .ofHead rfl ⟨.index h t, by simp [formed, keyFormed], ?_, ?_, ?_⟩
  · simp only [Head.phrase, Phrase.index, writes.text, keyWrites.text]
    rfl
  · simp only [Head.phrase, Phrase.index, writes.levels, keyWrites.levels]
    rfl
  · simp only [Head.phrase, Phrase.index, SameExpr, Relabeling.expr, writes.tree, keyWrites.tree]
    rfl

section Lists

variable {ps : List (Phrase Expr)} {es : List Expr} (written : List.Forall₂ WritesExpr ps es)

include written

theorem texts_written : Phrase.texts ps = Render.separated (Render.exprs es) := by
  have items : ps.map Phrase.text = Render.exprs es := by
    induction written with
    | nil => rfl
    | cons first _ ih => simp [Render.exprs, first.text, ih]
  rw [Phrase.texts, items]

theorem depth_written : Phrase.depth ps = Levels.exprs es := by
  induction written with
  | nil => rfl
  | cons first _ ih =>
    simp only [Phrase.depth, List.map_cons, List.foldr_cons, Levels.exprs, first.levels] at ih ⊢
    rw [ih]

theorem height_written : Phrase.height ps = Levels.targets es := by
  induction written with
  | nil => rfl
  | cons first _ ih =>
    simp only [Phrase.height, List.map_cons, List.foldr_cons, Levels.targets, first.levels] at ih ⊢
    rw [ih]

theorem trees_written : SameExprs (ps.map Phrase.tree) es := by
  induction written with
  | nil => rfl
  | cons first _ ih => simp only [SameExprs, List.map_cons, Relabeling.exprs, first.tree, ih]

theorem valuesText_written : Phrase.valuesText ps =
    if es.isEmpty then [] else ofSymbol .eq :: Render.separated (Render.exprs es) := by
  have empty : ps.isEmpty = es.isEmpty := by cases written <;> rfl
  rw [Phrase.valuesText, empty, texts_written written]

end Lists

def TermsPrinted (es : List Expr) : Prop :=
  ∃ ts : Terms, ts.formed ∧ List.Forall₂ WritesExpr (ts.phrases id) es

def ValuesPrinted (es : List Expr) : Prop :=
  ∃ vs : Values, vs.formed ∧ List.Forall₂ WritesExpr (vs.phrases id) es

theorem TermsPrinted.of_forall {es : List Expr} (nonempty : es ≠ [])
    (each : ∀ e ∈ es, Printed e) : TermsPrinted es := by
  induction es with
  | nil => exact absurd rfl nonempty
  | cons e es ih =>
    obtain ⟨first, others⟩ := List.forall_mem_cons.mp each
    obtain ⟨t, formed, writes⟩ := first.whole
    cases es with
    | nil => exact ⟨.one t, formed, .cons writes .nil⟩
    | cons e' es =>
      obtain ⟨ts, othersFormed, written⟩ := ih (List.cons_ne_nil _ _) others
      exact ⟨.more t ts, by simp [formed, othersFormed], .cons writes written⟩

theorem ValuesPrinted.of_forall {es : List Expr} (each : ∀ e ∈ es, Printed e) :
    ValuesPrinted es := by
  cases es with
  | nil => exact ⟨.none, rfl, .nil⟩
  | cons e es =>
    obtain ⟨ts, formed, written⟩ := TermsPrinted.of_forall (List.cons_ne_nil _ _) each
    exact ⟨.given ts, formed, written⟩

theorem Printed.target {e : Expr} (printed : Printed e) (assignable : e.isAssignable) :
    ∃ h : Head, h.isAssignable ∧ h.formed ∧ WritesExpr (h.phrase id) e := by
  obtain ⟨h, formed, writes⟩ := printed.head
  have isHead : e.isHead := by cases e <;> first | rfl | cases assignable
  refine ⟨h, ?_, formed, ?_⟩
  · rw [← isAssignable_head id, writes.tree.isAssignable, assignable]
  · simpa [WritesExpr, Render.head, Levels.head, Render.grouped, Levels.grouped, isHead]
      using writes

theorem targets_printed {es : List Expr} (nonempty : es ≠ [])
    (assignable : ∀ e ∈ es, e.isAssignable) (each : ∀ e ∈ es, Printed e) :
    ∃ ts : Targets, ts.formed ∧ List.Forall₂ WritesExpr (ts.phrases id) es := by
  induction es with
  | nil => exact absurd rfl nonempty
  | cons e es ih =>
    obtain ⟨first, others⟩ := List.forall_mem_cons.mp each
    obtain ⟨firstAssignable, othersAssignable⟩ := List.forall_mem_cons.mp assignable
    obtain ⟨h, isAssignable, formed, writes⟩ := first.target firstAssignable
    cases es with
    | nil => exact ⟨.one h, by simp [isAssignable, formed], .cons writes .nil⟩
    | cons e' es =>
      obtain ⟨ts, othersFormed, written⟩ := ih (List.cons_ne_nil _ _) othersAssignable others
      exact ⟨.more h ts, by simp [isAssignable, formed, othersFormed],
        .cons writes written⟩

theorem printed_call {callee : Expr} {es : List Expr} (span : Span) (adjusted : Bool)
    (printed : HeadPrinted callee) (args : ValuesPrinted es) :
    Printed (.call span callee es adjusted) := by
  obtain ⟨h, formed, writes⟩ := printed
  obtain ⟨vs, argsFormed, written⟩ := args
  refine .ofCall (Expr.call span callee es) adjusted (fun _ => rfl) ?_ rfl rfl rfl
  refine ⟨.call h (.list vs), by simp [formed, argsFormed], ?_, ?_, ?_⟩
  · simp only [Head.phrase, Args.phrase, Phrase.call, Phrase.argList, writes.text,
      texts_written written]
    rfl
  · simp only [Head.phrase, Args.phrase, Phrase.call, Phrase.argList, writes.levels,
      depth_written written]
    rfl
  · simp only [Head.phrase, Args.phrase, Phrase.call, Phrase.argList, SameExpr, Relabeling.expr,
      writes.tree, trees_written written]
    rfl

theorem printed_methodCall {receiver : Expr} {es : List Expr} (span : Span) (method : Name)
    (adjusted : Bool) (printed : HeadPrinted receiver) (args : ValuesPrinted es) :
    Printed (.methodCall span receiver method.1 es adjusted) := by
  obtain ⟨h, formed, writes⟩ := printed
  obtain ⟨vs, argsFormed, written⟩ := args
  refine .ofCall (Expr.methodCall span receiver method.1 es) adjusted (fun _ => rfl) ?_
    rfl rfl rfl
  refine ⟨.methodCall h method (.list vs), by simp [formed, argsFormed],
    ?_, ?_, ?_⟩
  · simp only [Head.phrase, Args.phrase, Phrase.methodCall, Phrase.argList, writes.text,
      texts_written written]
    rfl
  · simp only [Head.phrase, Args.phrase, Phrase.methodCall, Phrase.argList, writes.levels,
      depth_written written]
    rfl
  · simp only [Head.phrase, Args.phrase, Phrase.methodCall, Phrase.argList, SameExpr,
      Relabeling.expr, writes.tree, trees_written written]
    rfl

theorem binders_printed {bs : List Binder} (named : ∀ b ∈ bs, WellFormed.binder b) :
    ∃ names : List Name, names.map Name.binder = bs.map eraseSpans.binder := by
  induction bs with
  | nil => exact ⟨[], rfl⟩
  | cons b bs ih =>
    obtain ⟨first, others⟩ := List.forall_mem_cons.mp named
    obtain ⟨names, written⟩ := ih others
    rcases b with ⟨span, _ | word⟩
    · cases first
    · exact ⟨⟨word, first⟩ :: names, by rw [List.map_cons, written]; rfl⟩

theorem params_printed {ps : Params} (named : WellFormed.params ps) :
    ∃ params : Parameters, params.tree = eraseSpans.params ps := by
  obtain ⟨names, written⟩ := binders_printed (List.all_eq_true.mp named)
  refine ⟨⟨names, ps.hasVarargs⟩, ?_⟩
  simp [Parameters.tree, written, Relabeling.params]

theorem binder_erased (b : Binder) : Render.binder (eraseSpans.binder b) = Render.binder b := by
  rcases b with ⟨span, _ | word⟩ <;> rfl

theorem functionBody_erased (ps : Params) (body : List Lexeme) :
    Render.functionBody (eraseSpans.params ps) body = Render.functionBody ps body := by
  rcases ps with ⟨names, _ | _⟩ <;>
    simp [Render.functionBody, Render.params, Render.paramItems, Relabeling.params, Render.param,
      binder_erased, Function.comp_def]

theorem binders_erased (bs : List Binder) :
    (bs.map eraseSpans.binder).map eraseSpans.binder = bs.map eraseSpans.binder := by
  rw [List.map_map]
  apply List.map_congr_left
  rintro ⟨span, _ | word⟩ _ <;> rfl

theorem params_erased (ps : Params) :
    eraseSpans.params (eraseSpans.params ps) = eraseSpans.params ps := by
  simp only [Relabeling.params, binders_erased]

def BodyPrinted (ss : Block) : Prop :=
  ∃ body : Body, body.formed ∧
    Writes (SameBlock · ss) (Render.block ss) (Levels.block ss) (body.phrase id)

theorem printed_function {ps : Params} {ss : Block} (span : Span) (named : WellFormed.params ps)
    (printed : BodyPrinted ss) : Printed (.function span ps ss) := by
  obtain ⟨params, sameParams⟩ := params_printed named
  obtain ⟨body, formed, writes⟩ := printed
  refine .ofSimple rfl rfl (t := .function params body) (fun _ => formed) (fun _ => rfl)
    ⟨?_, ?_, ?_⟩
  · simp only [Term.phrase, Phrase.function, writes.text, sameParams, functionBody_erased]
    rfl
  · simp only [Term.phrase, Phrase.function, writes.levels]
    rfl
  · simp only [Term.phrase, Phrase.function, SameExpr, Relabeling.expr, sameParams, params_erased,
      writes.tree]
    rfl

def EntryPrinted (f : Field) : Prop :=
  ∃ entry : Entry, entry.formed ∧ Writes (fun f' => eraseSpans.field f' = eraseSpans.field f)
    (Render.field f) (Levels.field f) (entry.phrase id)

theorem entryPrinted_positional {value : Expr} (printed : WholePrinted value) :
    EntryPrinted (.positional value) := by
  obtain ⟨t, formed, writes⟩ := printed
  refine ⟨.positional t, formed, writes.text, ?_, congrArg Field.positional writes.tree⟩
  exact congrArg (· + 1) writes.levels

theorem entryPrinted_keyed {key value : Expr} (keyPrinted : WholePrinted key)
    (printed : WholePrinted value) : EntryPrinted (.keyed key value) := by
  obtain ⟨k, keyFormed, keyWrites⟩ := keyPrinted
  obtain ⟨t, formed, writes⟩ := printed
  refine ⟨.keyed k t, by simp [keyFormed, formed], ?_, ?_, ?_⟩
  · simp only [Entry.phrase, Phrase.keyed, keyWrites.text, writes.text]
    rfl
  · simp only [Entry.phrase, Phrase.keyed, keyWrites.levels, writes.levels]
    rfl
  · simp only [Entry.phrase, Phrase.keyed, Relabeling.field, keyWrites.tree, writes.tree]

def EntriesPrinted (fs : List Field) : Prop :=
  ∃ entries : Entries, entries.formed ∧
    Writes (fun fs' => eraseSpans.fields fs' = eraseSpans.fields fs)
      (Render.separated (Render.fields fs)) (Levels.fields fs) (entries.phrase id)

theorem EntriesPrinted.cons {f : Field} {fs : List Field} (first : EntryPrinted f)
    (others : EntriesPrinted fs) : EntriesPrinted (f :: fs) := by
  obtain ⟨entry, formed, writes⟩ := first
  cases fs with
  | nil =>
    refine ⟨.last entry, formed, writes.text, ?_, ?_⟩
    · simp [writes.levels, Levels.fields]
    · simp only [Entries.phrase, Relabeling.fields, writes.tree]
  | cons f' fs =>
    obtain ⟨entries, othersFormed, othersWrite⟩ := others
    refine ⟨.more entry .comma entries, by simp [formed, othersFormed], ?_, ?_, ?_⟩
    · simp only [Entries.phrase, writes.text, othersWrite.text]
      rfl
    · simp only [Entries.phrase, writes.levels, othersWrite.levels]
      rfl
    · simp only [Entries.phrase, Relabeling.fields, writes.tree]
      exact congrArg _ othersWrite.tree

theorem printed_table {fs : List Field} (span : Span) (printed : EntriesPrinted fs) :
    Printed (.table span fs) := by
  obtain ⟨entries, formed, writes⟩ := printed
  refine .ofSimple rfl rfl (t := .table entries) (fun _ => formed) (fun _ => rfl) ⟨?_, ?_, ?_⟩
  · simp only [Term.phrase, Phrase.table, writes.text]
    rfl
  · exact writes.levels
  · simp only [Term.phrase, Phrase.table, SameExpr, Relabeling.expr, writes.tree]
    rfl

def CommandPrinted (s : Stmt) : Prop :=
  ∃ c : Command, c.formed ∧
    Writes (SameStmt · s) (Render.stmt s) (Levels.stmt s) (c.phrase id)

theorem commandPrinted_assign {targets values : List Expr} (span : Span) (some : targets ≠ [])
    (assignable : ∀ e ∈ targets, e.isAssignable) (printed : ∀ e ∈ targets, Printed e)
    (valuesPrinted : TermsPrinted values) : CommandPrinted (.assign span targets values) := by
  obtain ⟨ts, targetsFormed, targetsWritten⟩ := targets_printed some assignable printed
  obtain ⟨vs, formed, written⟩ := valuesPrinted
  refine ⟨.assign ts vs, by simp [targetsFormed, formed], ?_, ?_, ?_⟩
  · simp only [Command.phrase, Phrase.assign, texts_written targetsWritten, texts_written written]
    rfl
  · simp only [Command.phrase, Phrase.assign, height_written targetsWritten, depth_written written]
    rfl
  · simp only [Command.phrase, Phrase.assign, SameStmt, Relabeling.stmt,
      trees_written targetsWritten, trees_written written]
    rfl

theorem commandPrinted_localVars {names : List Binder} {values : List Expr} (span : Span)
    (some : names ≠ []) (named : ∀ b ∈ names, WellFormed.binder b)
    (printed : ValuesPrinted values) : CommandPrinted (.localVars span names values) := by
  obtain ⟨words, sameNames⟩ := binders_printed named
  obtain ⟨first, more, rfl⟩ : ∃ first more, words = first :: more := by
    apply List.exists_cons_of_ne_nil
    rintro rfl
    exact some (List.map_eq_nil_iff.mp sameNames.symm)
  obtain ⟨vs, formed, written⟩ := printed
  refine ⟨.localVars first more vs, formed, ?_, depth_written written, ?_⟩
  · have names : ((first :: more).map Name.binder).map ([Render.binder ·]) =
        names.map ([Render.binder ·]) := by
      simp [sameNames, binder_erased, Function.comp_def]
    simp only [Command.phrase, Phrase.localVars, names, valuesText_written written]
    rfl
  · simp only [Command.phrase, Phrase.localVars, SameStmt, Relabeling.stmt, trees_written written,
      sameNames, binders_erased]
    rfl

theorem commandPrinted_call {call : Expr} (span : Span) (isCall : call.isCall)
    (printed : Printed call) : CommandPrinted (.call span call) := by
  obtain ⟨h, formed, writes⟩ := printed.head
  have isHead : call.isHead := by cases call <;> first | rfl | cases isCall
  have same : h.isCall := by rw [← isCall_head id, writes.tree.isCall, isCall]
  refine ⟨.call h, by simp [same, formed], ?_, ?_, ?_⟩
  · simpa [Phrase.callStmt, Render.stmt, Render.head, Render.grouped, isHead]
      using writes.text
  · simpa [Phrase.callStmt, Levels.stmt, Levels.head, Levels.grouped, isHead]
      using writes.levels
  · simp only [Command.phrase, Phrase.callStmt, SameStmt, Relabeling.stmt, writes.tree]
    rfl

theorem commandPrinted_doBlock {ss : Block} (span : Span) (printed : BodyPrinted ss) :
    CommandPrinted (.doBlock span ss) := by
  obtain ⟨body, formed, writes⟩ := printed
  refine ⟨.doBlock body, formed, ?_, ?_, ?_⟩
  · simp only [Command.phrase, Phrase.doBlock, writes.text]
    rfl
  · simp only [Command.phrase, Phrase.doBlock, writes.levels]
    rfl
  · simp only [Command.phrase, Phrase.doBlock, SameStmt, Relabeling.stmt, writes.tree]
    rfl

theorem commandPrinted_whileLoop {condition : Expr} {ss : Block} (span : Span)
    (conditionPrinted : WholePrinted condition) (printed : BodyPrinted ss) :
    CommandPrinted (.whileLoop span condition ss) := by
  obtain ⟨t, conditionFormed, conditionWrites⟩ := conditionPrinted
  obtain ⟨body, formed, writes⟩ := printed
  refine ⟨.whileLoop t body, by simp [conditionFormed, formed], ?_, ?_, ?_⟩
  · simp only [Command.phrase, Phrase.whileLoop, conditionWrites.text, writes.text]
    rfl
  · simp only [Command.phrase, Phrase.whileLoop, conditionWrites.levels, writes.levels]
    rfl
  · simp only [Command.phrase, Phrase.whileLoop, SameStmt, Relabeling.stmt, conditionWrites.tree,
      writes.tree]
    rfl

theorem commandPrinted_repeatLoop {condition : Expr} {ss : Block} (span : Span)
    (printed : BodyPrinted ss) (conditionPrinted : WholePrinted condition) :
    CommandPrinted (.repeatLoop span ss condition) := by
  obtain ⟨t, conditionFormed, conditionWrites⟩ := conditionPrinted
  obtain ⟨body, formed, writes⟩ := printed
  refine ⟨.repeatLoop body t, by simp [conditionFormed, formed], ?_, ?_, ?_⟩
  · simp only [Command.phrase, Phrase.repeatLoop, conditionWrites.text, writes.text]
    rfl
  · simp only [Command.phrase, Phrase.repeatLoop, conditionWrites.levels, writes.levels]
    rfl
  · simp only [Command.phrase, Phrase.repeatLoop, SameStmt, Relabeling.stmt, conditionWrites.tree,
      writes.tree]
    rfl

theorem commandPrinted_localFunction {ps : Params} {ss : Block} (span : Span) (name : Name)
    (named : WellFormed.params ps) (printed : BodyPrinted ss) :
    CommandPrinted (.localFunction span name.1 ps ss) := by
  obtain ⟨params, sameParams⟩ := params_printed named
  obtain ⟨body, formed, writes⟩ := printed
  refine ⟨.localFunction name params body, formed, ?_, ?_, ?_⟩
  · simp only [Command.phrase, Phrase.localFunction, sameParams, functionBody_erased, writes.text]
    rfl
  · simp only [Command.phrase, Phrase.localFunction, writes.levels]
    rfl
  · simp only [Command.phrase, Phrase.localFunction, SameStmt, Relabeling.stmt, sameParams,
      params_erased, writes.tree]
    rfl

theorem path_printed : ∀ {e : Expr}, WellFormed.path e → ∃ path : Path,
    Render.path path.tree = Render.path e ∧ SameExpr path.tree e
  | .ident _ word, isPath => ⟨.name ⟨word, isPath⟩, rfl, rfl⟩
  | .index _ object (.string _ key), isPath => by
      simp only [WellFormed.path, Bool.and_eq_true] at isPath
      obtain ⟨path, text, same⟩ := path_printed isPath.1
      refine ⟨.field path ⟨key, isPath.2⟩, ?_, ?_⟩
      · simp only [Path.tree, Render.path, text]
      · simp only [Path.tree, SameExpr, Relabeling.expr, same]
        rfl

theorem eraseSpans_self {ps : Params} {method : String} (isMethod : WellFormed.method ps method) :
    eraseSpans.params (Phrase.withSelf (eraseSpans.params ⟨ps.names.tail, ps.hasVarargs⟩)) =
      eraseSpans.params ps := by
  rcases ps with ⟨_ | ⟨⟨selfSpan, name?⟩, names⟩, dots⟩
  · simp [WellFormed.method] at isMethod
  · simp only [WellFormed.method, List.head?_cons, Option.any_some, Bool.and_eq_true,
      decide_eq_true_eq] at isMethod
    simp only [Phrase.withSelf, Relabeling.params, List.tail_cons, List.map_cons, binders_erased,
      isMethod.2]
    rfl

theorem commandPrinted_function {target : Expr} {method? : Option String} {ps : Params}
    {ss : Block} (span : Span) (isPath : WellFormed.path target)
    (isMethod : method?.all (WellFormed.method ps)) (named : WellFormed.params ps)
    (printed : BodyPrinted ss) : CommandPrinted (.function span target method? ps ss) := by
  obtain ⟨path, pathText, samePath⟩ := path_printed isPath
  obtain ⟨body, formed, writes⟩ := printed
  cases method? with
  | none =>
    obtain ⟨params, sameParams⟩ := params_printed named
    refine ⟨.function path params body, formed, ?_, ?_, ?_⟩
    · simp only [Command.phrase, Phrase.function_, pathText, sameParams, functionBody_erased,
        writes.text]
      rfl
    · simp only [Command.phrase, Phrase.function_, writes.levels]
      rfl
    · simp only [Command.phrase, Phrase.function_, SameStmt, Relabeling.stmt, samePath, sameParams,
        params_erased, writes.tree]
      rfl
  | some word =>
    obtain ⟨params, sameParams⟩ := params_printed (WellFormed.params_tail named)
    have isMethod : WellFormed.method ps word := isMethod
    have isWord : isName word := by
      simp only [WellFormed.method, Bool.and_eq_true] at isMethod
      exact isMethod.1
    refine ⟨.method path ⟨word, isWord⟩ params body, formed, ?_, ?_, ?_⟩
    · simp only [Command.phrase, Phrase.method, pathText, sameParams, functionBody_erased,
        writes.text]
      rfl
    · simp only [Command.phrase, Phrase.method, writes.levels]
      rfl
    · simp only [Command.phrase, Phrase.method, SameStmt, Relabeling.stmt, samePath, sameParams,
        eraseSpans_self isMethod, writes.tree]
      rfl

theorem commandPrinted_ifStmt {condition : Expr} {thenBody elseBody : Block} (span : Span)
    (conditionPrinted : WholePrinted condition) (thenPrinted : BodyPrinted thenBody)
    (elsePrinted : BodyPrinted elseBody) :
    CommandPrinted (.ifStmt span condition thenBody elseBody) := by
  obtain ⟨t, conditionFormed, conditionWrites⟩ := conditionPrinted
  obtain ⟨body, formed, writes⟩ := thenPrinted
  have branchPrinted : ∃ branch : Branch, branch.formed ∧ Writes (SameBlock · elseBody)
      ((if elseBody.isEmpty then [] else ofKeyword .else_ :: Render.block elseBody) ++
        [ofKeyword .end_])
      (if elseBody.isEmpty then 0 else Levels.block elseBody + 1) (branch.phrase id) := by
    obtain ⟨other, otherFormed, otherWrites⟩ := elsePrinted
    cases elseBody with
    | nil => exact ⟨.none, rfl, rfl, rfl, rfl⟩
    | cons s ss =>
      refine ⟨.otherwise other, otherFormed, ?_, ?_, otherWrites.tree⟩
      · simp [Phrase.elseBlock, otherWrites.text]
      · simp [Phrase.elseBlock, otherWrites.levels]
  obtain ⟨branch, branchFormed, branchWrites⟩ := branchPrinted
  refine ⟨.ifThen t body branch, by simp [*], ?_, ?_, ?_⟩
  · simp only [Command.phrase, Phrase.ifStmt, Phrase.conditionalText, conditionWrites.text,
      writes.text, branchWrites.text]
    rfl
  · simp only [Command.phrase, Phrase.ifStmt, Phrase.conditionalLevels, conditionWrites.levels,
      writes.levels, branchWrites.levels]
    rfl
  · simp only [Command.phrase, Phrase.ifStmt, SameStmt, Relabeling.stmt, conditionWrites.tree,
      writes.tree, branchWrites.tree]
    rfl

theorem step_printed {step? : Option Expr} (printed : ∀ e ∈ step?, WholePrinted e) :
    ∃ step : Step, step.formed ∧ Phrase.stepText (step.phrase? id) = Render.step step? ∧
      Phrase.stepLevels (step.phrase? id) = Levels.step step? ∧
      ∀ span span', eraseSpans.step span ((step.phrase? id).map Phrase.tree) =
        eraseSpans.step span' step? := by
  cases step? with
  | none => exact ⟨.none, rfl, rfl, rfl, fun _ _ => rfl⟩
  | some e =>
    obtain ⟨t, formed, writes⟩ := printed e rfl
    refine ⟨.by t, formed, ?_, ?_, fun _ _ => congrArg some writes.tree⟩
    · simp only [Step.phrase?, Phrase.stepText, writes.text]
      rfl
    · simp only [Step.phrase?, Phrase.stepLevels, writes.levels]
      rfl

theorem commandPrinted_numericFor {start limit : Expr} {step? : Option Expr} {ss : Block}
    (span : Span) (var : Name) (startPrinted : WholePrinted start)
    (limitPrinted : WholePrinted limit) (stepPrinted : ∀ e ∈ step?, WholePrinted e)
    (printed : BodyPrinted ss) :
    CommandPrinted (.numericFor span var.1 start limit step? ss) := by
  obtain ⟨first, firstFormed, firstWrites⟩ := startPrinted
  obtain ⟨last, lastFormed, lastWrites⟩ := limitPrinted
  obtain ⟨step, stepFormed, stepText, stepLevels, sameStep⟩ := step_printed stepPrinted
  obtain ⟨body, formed, writes⟩ := printed
  refine ⟨.numericFor var first last step body, by simp [*], ?_, ?_, ?_⟩
  · simp only [Command.phrase, Phrase.numericFor, firstWrites.text, lastWrites.text, stepText,
      writes.text]
    rfl
  · simp only [Command.phrase, Phrase.numericFor, firstWrites.levels, lastWrites.levels,
      stepLevels, writes.levels]
    rfl
  · simp only [Command.phrase, Phrase.numericFor, SameStmt, Relabeling.stmt, firstWrites.tree,
      lastWrites.tree, sameStep default span, writes.tree]
    rfl

theorem commandPrinted_genericFor {names : List String} {es : List Expr} {ss : Block} (span : Span)
    (some : names ≠ []) (named : ∀ name ∈ names, isName name) (values : TermsPrinted es)
    (printed : BodyPrinted ss) : CommandPrinted (.genericFor span names es ss) := by
  obtain ⟨first, more, rfl⟩ := List.exists_cons_of_ne_nil some
  obtain ⟨firstNamed, moreNamed⟩ := List.forall_mem_cons.mp named
  obtain ⟨ts, valuesFormed, written⟩ := values
  obtain ⟨body, formed, writes⟩ := printed
  obtain ⟨words, rfl⟩ : ∃ words : List Name, words.map Subtype.val = more :=
    ⟨more.attachWith _ moreNamed, List.attachWith_map_subtype_val moreNamed⟩
  refine ⟨.genericFor ⟨first, firstNamed⟩ words ts body,
    by simp [valuesFormed, formed], ?_, ?_, ?_⟩
  · simp only [Command.phrase, Phrase.genericFor, texts_written written, writes.text, Render.stmt,
      List.map_cons, Render.separated_eq_further, List.cons_append, List.nil_append]
  · simp only [Command.phrase, Phrase.genericFor, depth_written written, writes.levels]
    rfl
  · simp only [Command.phrase, Phrase.genericFor, SameStmt, Relabeling.stmt, trees_written written,
      writes.tree]
    rfl

/-- A statement that is written where it may stand: inside its block, or at its end. -/
inductive StmtPrinted : Stmt → Prop where
  | inside {s : Stmt} (noReturn : s.isReturn = false) (printed : CommandPrinted s) : StmtPrinted s
  | last {span : Span} {values : List Expr} (printed : ValuesPrinted values) :
      StmtPrinted (.returnStmt span values)

theorem BodyPrinted.cons {s : Stmt} {ss : Block} (last : s.isReturn → ss = [])
    (first : StmtPrinted s) (others : BodyPrinted ss) : BodyPrinted (s :: ss) := by
  cases first with
  | inside noReturn printed =>
    obtain ⟨c, formed, writes⟩ := printed
    obtain ⟨body, othersFormed, othersWrite⟩ := others
    refine ⟨.more c (.semicolon body), ?_, ?_, ?_, ?_⟩
    · simp [formed, othersFormed, Body.startsGroup]
    · simp only [Body.phrase, Phrase.follow, Phrase.semicolon, writes.text, othersWrite.text]
      rfl
    · simp only [Body.phrase, Phrase.follow, Phrase.semicolon, writes.levels, othersWrite.levels]
      rfl
    · simp only [Body.phrase, Phrase.follow, Phrase.semicolon, SameBlock, Relabeling.stmts,
        writes.tree, othersWrite.tree]
  | @last span values printed =>
    obtain rfl := last rfl
    obtain ⟨vs, formed, written⟩ := printed
    refine ⟨.result vs true, formed, ?_, ?_, ?_⟩
    · simp [Phrase.result, Phrase.returnStmt, texts_written written, Render.block, Render.stmt]
    · simp [Phrase.result, depth_written written, Levels.block, Levels.stmt]
    · simp only [Body.phrase, Phrase.result, Phrase.returnStmt, SameBlock, Relabeling.stmts,
        Relabeling.stmt, trees_written written]
      rfl

theorem printed_string (span : Span) (value : String) : Printed (.string span value) := by
  let literal : StringLiteral := ⟨false, _, stands_string value⟩
  have same : literal.value = value := by
    simp [literal, StringLiteral.value, StringLiteral.lexeme, Token.stringValue,
      Literal.quotedValue_quote (.inl rfl)]
  refine .ofSimple rfl rfl (t := .string literal) (fun _ => rfl) (fun _ => rfl) ⟨rfl, rfl, ?_⟩
  simp only [Term.phrase, Phrase.string, same]
  rfl

mutual
theorem printed_expr : ∀ e : Expr, WellFormed.expr e → Printed e
  | .constant _ value, _ =>
      .ofSimple rfl rfl (t := .constant value) (fun _ => rfl) (fun _ => rfl) ⟨rfl, rfl, rfl⟩
  | .string span value, _ => printed_string span value
  | .number _ text, wellFormed =>
      .ofSimple rfl rfl (t := .number ⟨text, wellFormed⟩) (fun _ => rfl) (fun _ => rfl)
        ⟨rfl, rfl, rfl⟩
  | .ident _ word, wellFormed => .ofHead rfl ⟨.name ⟨word, wellFormed⟩, rfl, rfl, rfl, rfl⟩
  | .unary span op e, wellFormed => printed_unary span op (printed_expr e wellFormed).operand
  | .binary span op left right, wellFormed => by
      simp only [WellFormed.expr, Bool.and_eq_true] at wellFormed
      exact printed_binary span op (printed_expr left wellFormed.1).operand
        (printed_expr right wellFormed.2).operand
  | .index span object key, wellFormed => by
      simp only [WellFormed.expr, Bool.and_eq_true] at wellFormed
      exact printed_index span (printed_expr object wellFormed.1).head
        (printed_expr key wellFormed.2).whole
  | .table span fs, wellFormed => printed_table span (printed_fields fs wellFormed)
  | .call span callee args adjusted, wellFormed => by
      simp only [WellFormed.expr, Bool.and_eq_true] at wellFormed
      exact printed_call span adjusted (printed_expr callee wellFormed.1).head
        (.of_forall (printed_exprs args wellFormed.2))
  | .methodCall span receiver method args adjusted, wellFormed => by
      simp only [WellFormed.expr, Bool.and_eq_true] at wellFormed
      exact printed_methodCall span ⟨method, wellFormed.1.2⟩ adjusted
        (printed_expr receiver wellFormed.1.1).head (.of_forall (printed_exprs args wellFormed.2))
  | .function span ps body, wellFormed => by
      simp only [WellFormed.expr, Bool.and_eq_true] at wellFormed
      exact printed_function span wellFormed.1 (printed_block body wellFormed.2)
termination_by structural e => e

theorem printed_exprs : ∀ es : List Expr, WellFormed.exprs es → ∀ e ∈ es, Printed e
  | [], _ => by simp
  | e :: es, wellFormed => by
      simp only [WellFormed.exprs, Bool.and_eq_true] at wellFormed
      simpa [printed_expr e wellFormed.1] using printed_exprs es wellFormed.2
termination_by structural es => es

theorem printed_field : ∀ f : Field, WellFormed.field f → EntryPrinted f
  | .positional value, wellFormed =>
      entryPrinted_positional (printed_expr value wellFormed).whole
  | .keyed key value, wellFormed => by
      simp only [WellFormed.field, Bool.and_eq_true] at wellFormed
      exact entryPrinted_keyed (printed_expr key wellFormed.1).whole
        (printed_expr value wellFormed.2).whole
termination_by structural f => f

theorem printed_fields : ∀ fs : List Field, WellFormed.fields fs → EntriesPrinted fs
  | [], _ => ⟨.none, rfl, rfl, rfl, rfl⟩
  | f :: fs, wellFormed => by
      simp only [WellFormed.fields, Bool.and_eq_true] at wellFormed
      exact .cons (printed_field f wellFormed.1) (printed_fields fs wellFormed.2)
termination_by structural fs => fs

theorem printed_step : ∀ step? : Option Expr, WellFormed.step step? →
    ∀ e ∈ step?, WholePrinted e
  | none, _ => by simp
  | some e, wellFormed => by simpa using (printed_expr e wellFormed).whole
termination_by structural step? => step?

theorem printed_stmt : ∀ s : Stmt, WellFormed.stmt s → StmtPrinted s
  | .assign span targets values, wellFormed => by
      simp only [WellFormed.stmt, Bool.and_eq_true, Bool.not_eq_true',
        List.isEmpty_eq_false_iff, List.all_eq_true] at wellFormed
      obtain ⟨⟨⟨⟨target, assignable⟩, value⟩, targetsFormed⟩, valuesFormed⟩ := wellFormed
      exact .inside rfl (commandPrinted_assign span target assignable
        (printed_exprs targets targetsFormed)
        (.of_forall value (printed_exprs values valuesFormed)))
  | .localVars span names values, wellFormed => by
      simp only [WellFormed.stmt, Bool.and_eq_true, Bool.not_eq_true',
        List.isEmpty_eq_false_iff, List.all_eq_true] at wellFormed
      obtain ⟨⟨nonempty, named⟩, valuesFormed⟩ := wellFormed
      exact .inside rfl (commandPrinted_localVars span nonempty named
        (.of_forall (printed_exprs values valuesFormed)))
  | .call span call, wellFormed => by
      simp only [WellFormed.stmt, Bool.and_eq_true] at wellFormed
      exact .inside rfl (commandPrinted_call span wellFormed.1 (printed_expr call wellFormed.2))
  | .doBlock span body, wellFormed =>
      .inside rfl (commandPrinted_doBlock span (printed_block body wellFormed))
  | .whileLoop span condition body, wellFormed => by
      simp only [WellFormed.stmt, Bool.and_eq_true] at wellFormed
      exact .inside rfl (commandPrinted_whileLoop span (printed_expr condition wellFormed.1).whole
        (printed_block body wellFormed.2))
  | .repeatLoop span body condition, wellFormed => by
      simp only [WellFormed.stmt, Bool.and_eq_true] at wellFormed
      exact .inside rfl (commandPrinted_repeatLoop span (printed_block body wellFormed.1)
        (printed_expr condition wellFormed.2).whole)
  | .localFunction span name ps body, wellFormed => by
      simp only [WellFormed.stmt, Bool.and_eq_true] at wellFormed
      exact .inside rfl (commandPrinted_localFunction span ⟨name, wellFormed.1.1⟩ wellFormed.1.2
        (printed_block body wellFormed.2))
  | .function span target method? ps body, wellFormed => by
      simp only [WellFormed.stmt, Bool.and_eq_true] at wellFormed
      exact .inside rfl (commandPrinted_function span wellFormed.1.1.1 wellFormed.1.1.2
        wellFormed.1.2 (printed_block body wellFormed.2))
  | .returnStmt span values, wellFormed =>
      .last (.of_forall (printed_exprs values wellFormed))
  | .ifStmt span condition thenBody elseBody, wellFormed => by
      simp only [WellFormed.stmt, Bool.and_eq_true] at wellFormed
      exact .inside rfl (commandPrinted_ifStmt span (printed_expr condition wellFormed.1.1).whole
        (printed_block thenBody wellFormed.1.2) (printed_block elseBody wellFormed.2))
  | .breakStmt _, _ => .inside rfl ⟨.breakStmt, rfl, rfl, rfl, rfl⟩
  | .continueStmt _, _ => .inside rfl ⟨.continueStmt, rfl, rfl, rfl, rfl⟩
  | .numericFor span var start limit step? body, wellFormed => by
      simp only [WellFormed.stmt, Bool.and_eq_true] at wellFormed
      obtain ⟨⟨⟨⟨named, startFormed⟩, limitFormed⟩, stepFormed⟩, bodyFormed⟩ := wellFormed
      exact .inside rfl (commandPrinted_numericFor span ⟨var, named⟩
        (printed_expr start startFormed).whole (printed_expr limit limitFormed).whole
        (printed_step step? stepFormed) (printed_block body bodyFormed))
  | .genericFor span names es body, wellFormed => by
      simp only [WellFormed.stmt, Bool.and_eq_true, Bool.not_eq_true',
        List.isEmpty_eq_false_iff, List.all_eq_true] at wellFormed
      obtain ⟨⟨⟨⟨nonempty, named⟩, value⟩, valuesFormed⟩, bodyFormed⟩ := wellFormed
      exact .inside rfl (commandPrinted_genericFor span nonempty named
        (.of_forall value (printed_exprs es valuesFormed)) (printed_block body bodyFormed))
termination_by structural s => s

/-- What is printed for a well-formed tree is the text of a formed concrete one. -/
theorem printed_block : ∀ ss : List Stmt, WellFormed.block ss → BodyPrinted ss
  | [], _ => ⟨.none, rfl, rfl, rfl, rfl⟩
  | s :: ss, wellFormed => by
      simp only [WellFormed.block, Bool.and_eq_true, Bool.or_eq_true, Bool.not_eq_true',
        List.isEmpty_iff] at wellFormed
      obtain ⟨⟨formed, noReturn | empty⟩, others⟩ := wellFormed
      · exact .cons (by simp [noReturn]) (printed_stmt s formed) (printed_block ss others)
      · exact .cons (fun _ => empty) (printed_stmt s formed) (printed_block ss others)
termination_by structural ss => ss
end

end Concrete

end LuaSearch
