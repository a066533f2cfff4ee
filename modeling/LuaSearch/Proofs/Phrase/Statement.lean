import LuaSearch.Proofs.Phrase.Operand

/-!
Phrases of statements. A statement has no end of its own: whether it is over is decided by what
follows it, so a phrase is read as a statement before the rest that it stands before.
-/
namespace LuaSearch

open Lexeme Parse Relabeling Grammar

namespace Phrase

variable {rest : List Lexeme}

def AsStmt (s : Phrase Stmt) (rest : List Lexeme) : Prop :=
  ∀ n, Reads (s.levels ≤ n) (SameStmt · s.tree) (statement (Level.free n)) (s.text ++ rest) rest

theorem ending_reads {body : Phrase Block} (reads : AsBlock body) {word : Keyword}
    (ends : (Kind.keyword word).endsBlock) (n : Nat) :
    Reads (body.levels < n) (SameBlock · body.tree) (ending (Level.free n) word)
      (body.text ++ ofKeyword word :: rest) rest := by
  apply (reads n (.cons ends)).bind id
  intro fit body' same
  apply (keyword_takes word).next
  intro _ _
  exact .pure fit same

def doBlock (body : Phrase Block) : Phrase Stmt :=
  ⟨ofKeyword .do_ :: (body.text ++ [ofKeyword .end_]), body.levels + 1, .doBlock default body.tree⟩

theorem asStmt_doBlock {body : Phrase Block} (reads : AsBlock body) :
    AsStmt (doBlock body) rest := by
  intro n
  simp only [doBlock, List.cons_append, List.append_assoc, List.nil_append]
  apply spanned_reads
  apply peek_takes_first.next
  rintro _ rfl
  apply (keyword_takes .do_).next
  intro _ _
  apply (ending_reads reads rfl n).bind id
  intro fit body' same
  refine .pure fit fun outer => ?_
  simp only [SameStmt, Relabeling.stmt, same]
  rfl

def whileLoop (condition : Phrase Expr) (body : Phrase Block) : Phrase Stmt :=
  ⟨ofKeyword .while_ :: (condition.text ++ ofKeyword .do_ :: (body.text ++ [ofKeyword .end_])),
    max (condition.levels + 1) (body.levels + 1), .whileLoop default condition.tree body.tree⟩

theorem asStmt_whileLoop {condition : Phrase Expr} {body : Phrase Block}
    (conditionReads : ∀ {rest : List Lexeme}, AsExpr 0 condition (ofKeyword .do_ :: rest))
    (reads : AsBlock body) : AsStmt (whileLoop condition body) rest := by
  intro n
  simp only [whileLoop, List.cons_append, List.append_assoc, List.nil_append]
  apply spanned_reads
  apply peek_takes_first.next
  rintro _ rfl
  apply (keyword_takes .while_).next
  intro _ _
  apply (conditionReads n).bind (by omega)
  intro conditionFit condition' sameCondition
  apply (keyword_takes .do_).next
  intro _ _
  apply (ending_reads reads rfl n).bind (by omega)
  intro fit body' same
  refine .pure (by omega) fun outer => ?_
  simp only [SameStmt, Relabeling.stmt, sameCondition, same]
  rfl

def repeatLoop (body : Phrase Block) (condition : Phrase Expr) : Phrase Stmt :=
  ⟨ofKeyword .repeat_ :: (body.text ++ ofKeyword .until_ :: condition.text),
    max (body.levels + 1) (condition.levels + 1), .repeatLoop default body.tree condition.tree⟩

theorem asStmt_repeatLoop {body : Phrase Block} {condition : Phrase Expr} (reads : AsBlock body)
    (conditionReads : AsExpr 0 condition rest) : AsStmt (repeatLoop body condition) rest := by
  intro n
  simp only [repeatLoop, List.cons_append, List.append_assoc]
  apply spanned_reads
  apply peek_takes_first.next
  rintro _ rfl
  apply (keyword_takes .repeat_).next
  intro _ _
  apply (ending_reads reads rfl n).bind (by omega)
  intro fit body' same
  apply (conditionReads n).bind (by omega)
  intro conditionFit condition' sameCondition
  refine .pure (by omega) fun outer => ?_
  simp only [SameStmt, Relabeling.stmt, sameCondition, same]
  rfl

def stepText (step? : Option (Phrase Expr)) : List Lexeme :=
  match step? with
  | none => []
  | some step => ofSymbol .comma :: step.text

def stepLevels (step? : Option (Phrase Expr)) : Nat :=
  match step? with
  | none => 0
  | some step => step.levels + 1

def numericFor (var : String) (start limit : Phrase Expr) (step? : Option (Phrase Expr))
    (body : Phrase Block) : Phrase Stmt :=
  ⟨ofKeyword .for_ :: ofName var :: ofSymbol .eq :: (start.text ++ ofSymbol .comma ::
      (limit.text ++ (stepText step? ++ ofKeyword .do_ :: (body.text ++ [ofKeyword .end_])))),
    max (start.levels + 1) (max (limit.levels + 1) (max (stepLevels step?) (body.levels + 1))),
    .numericFor default var start.tree limit.tree (step?.map tree) body.tree⟩

theorem step_reads {step? : Option (Phrase Expr)} (reads : ∀ p ∈ step?, AsExpr 0 p rest)
    (n : Nat) :
    OptionalReads .comma (stepLevels step? ≤ n)
      (fun e? => e?.map eraseSpans.expr = (step?.map tree).map eraseSpans.expr)
      (some <$> expr (Level.free n)) none rest (stepText step?) := by
  cases step? with
  | none => exact .absent (Nat.zero_le n) rfl
  | some p =>
    apply OptionalReads.present
    rw [map_eq_pure_bind]
    apply (reads p rfl n).bind id
    intro fit e' same
    exact .pure fit (congrArg some same)

theorem asStmt_numericFor {start limit : Phrase Expr} {step? : Option (Phrase Expr)}
    {body : Phrase Block} (var : String)
    (startReads : ∀ {rest : List Lexeme}, Leads (·.endsExpr) rest → AsExpr 0 start rest)
    (limitReads : ∀ {rest : List Lexeme}, Leads (·.endsExpr) rest → AsExpr 0 limit rest)
    (stepReads : ∀ p ∈ step?, ∀ {rest : List Lexeme}, Leads (·.endsExpr) rest → AsExpr 0 p rest)
    (reads : AsBlock body) : AsStmt (numericFor var start limit step? body) rest := by
  intro n
  simp only [numericFor, List.cons_append, List.append_assoc, List.nil_append]
  apply spanned_reads
  apply peek_takes_first.next
  rintro _ rfl
  apply (keyword_takes .for_).next
  intro _ _
  apply (ident_takes var).next
  intro name named
  apply (eat_takes_true (l := ofSymbol .eq) rfl).next
  rintro _ rfl
  apply (startReads (.cons rfl) n).bind (by omega)
  intro startFit start' sameStart
  apply (symbol_takes .comma).next
  intro _ _
  have limitEnds : Leads (·.endsExpr) (stepText step? ++
      ofKeyword .do_ :: (body.text ++ ofKeyword .end_ :: rest)) := by
    cases step? <;> exact .cons rfl
  apply (limitReads limitEnds n).bind (by omega)
  intro limitFit limit' sameLimit
  apply (step_reads (fun p member => stepReads p member (.cons rfl)) n).bind (.cons (by decide))
    (by omega)
  intro stepFit step?' sameStep
  apply (keyword_takes .do_).next
  intro _ _
  apply (ending_reads reads rfl n).bind (by omega)
  intro fit body' sameBody
  refine .pure (by omega) fun outer => ?_
  have steps : eraseSpans.step outer step?' = eraseSpans.step default (step?.map tree) := by
    cases step? <;> cases step?' <;> simp_all [Relabeling.step, absentStep, eraseSpans]
  simp only [SameStmt, Relabeling.stmt, named, sameStart, sameLimit, steps, sameBody]
  rfl

theorem names_reads (names : List String) (noComma : Leads (· ≠ .symbol .comma) rest) :
    OptionalReads .comma True (fun tokens => tokens.map Token.text = names)
      (commaSeparated ident) [] rest (Render.further (names.map ([ofName ·]))) := by
  have each : ∀ name ∈ names, ∀ tail, Leads (fun _ => True) tail →
      Takes (fun token => token.text = id name) ident ([ofName name] ++ tail) tail :=
    fun name _ tail _ => ident_takes name
  have reads := further_reads (fun _ => True) trivial each (noComma.mono fun _ _ => trivial) noComma
  simpa using reads

def genericFor (first : String) (more : List String) (values : List (Phrase Expr))
    (body : Phrase Block) : Phrase Stmt :=
  ⟨ofKeyword .for_ :: ofName first :: (Render.further (more.map ([ofName ·])) ++
      ofKeyword .in_ :: (texts values ++ ofKeyword .do_ :: (body.text ++ [ofKeyword .end_]))),
    max (depth values) (body.levels + 1),
    .genericFor default (first :: more) (values.map tree) body.tree⟩

theorem asStmt_genericFor {values : List (Phrase Expr)} {body : Phrase Block} (first : String)
    (more : List String)
    (listed : ∀ {rest : List Lexeme}, Listed values (ofKeyword .do_ :: rest))
    (reads : AsBlock body) : AsStmt (genericFor first more values body) rest := by
  intro n
  simp only [genericFor, List.cons_append, List.append_assoc, List.nil_append]
  apply spanned_reads
  apply peek_takes_first.next
  rintro _ rfl
  apply (keyword_takes .for_).next
  intro _ _
  apply (ident_takes first).next
  intro name sameName
  have noEquals : Leads (· ≠ .symbol .eq) (Render.further (more.map ([ofName ·])) ++
      ofKeyword .in_ :: (texts values ++
        ofKeyword .do_ :: (body.text ++ ofKeyword .end_ :: rest))) := by
    cases more <;> exact .cons (by decide)
  apply (eat_takes_false noEquals).next
  rintro _ rfl
  apply (names_reads more (.cons (by decide))).bind (.cons (by decide)) (fun _ => trivial)
  intro _ more' sameMore
  apply (keyword_takes .in_).next
  intro _ _
  apply (listed.exprs_reads (.cons (by decide)) n).bind (by omega)
  intro valuesFit values' sameValues
  apply (keyword_takes .do_).next
  intro _ _
  apply (ending_reads reads rfl n).bind (by omega)
  intro fit body' sameBody
  refine .pure (by omega) fun outer => ?_
  simp only [SameStmt, Relabeling.stmt, sameName, sameMore, sameValues, sameBody]
  rfl

/-- The text is read as what stands behind the then branch of a conditional, its end included. -/
structure AsElse (p : Phrase Block) : Prop where
  ends : Leads (·.endsBlock) p.text
  reads : ∀ n {rest : List Lexeme}, Reads (p.levels ≤ n) (SameBlock · p.tree)
    (elseBody (Level.free n)) (p.text ++ rest) rest

def conditionalText (condition : Phrase Expr) (thenBody otherwise : Phrase Block) : List Lexeme :=
  condition.text ++ ofKeyword .then_ :: (thenBody.text ++ otherwise.text)

def conditionalLevels (condition : Phrase Expr) (thenBody otherwise : Phrase Block) : Nat :=
  max (condition.levels + 1) (max (thenBody.levels + 1) otherwise.levels)

def ifStmt (condition : Phrase Expr) (thenBody otherwise : Phrase Block) : Phrase Stmt :=
  ⟨ofKeyword .if_ :: conditionalText condition thenBody otherwise,
    conditionalLevels condition thenBody otherwise,
    .ifStmt default condition.tree thenBody.tree otherwise.tree⟩

def noElse : Phrase Block := ⟨[ofKeyword .end_], 0, []⟩

def elseBlock (body : Phrase Block) : Phrase Block :=
  ⟨ofKeyword .else_ :: (body.text ++ [ofKeyword .end_]), body.levels + 1, body.tree⟩

def elseif (condition : Phrase Expr) (thenBody otherwise : Phrase Block) : Phrase Block :=
  ⟨ofKeyword .elseif_ :: conditionalText condition thenBody otherwise,
    conditionalLevels condition thenBody otherwise + 1,
    [.ifStmt default condition.tree thenBody.tree otherwise.tree]⟩

section Conditional

variable {condition : Phrase Expr} {thenBody otherwise : Phrase Block}
  (conditionReads : ∀ {rest : List Lexeme}, AsExpr 0 condition (ofKeyword .then_ :: rest))
  (thenReads : AsBlock thenBody) (elseReads : AsElse otherwise)

include conditionReads thenReads elseReads

theorem conditional_reads (first : Lexeme) (n : Nat) :
    Reads (conditionalLevels condition thenBody otherwise ≤ n)
      (fun build => ∀ span, SameStmt (build span) (ifStmt condition thenBody otherwise).tree)
      (conditional (Level.free n))
      (first :: (conditionalText condition thenBody otherwise ++ rest)) rest := by
  simp only [conditionalText, conditionalLevels, List.cons_append, List.append_assoc]
  apply advance_takes.next
  intro _ _
  apply (conditionReads n).bind (by omega)
  intro conditionFit condition' sameCondition
  apply (keyword_takes .then_).next
  intro _ _
  apply (thenReads n (elseReads.ends.append rest)).bind (by omega)
  intro thenFit thenBody' sameThen
  apply (elseReads.reads n).bind (by omega)
  intro elseFit elseBody' sameElse
  refine .pure (by omega) fun outer => ?_
  simp only [SameStmt, ifStmt, Relabeling.stmt, sameCondition, sameThen, sameElse]
  rfl

theorem asStmt_ifStmt : AsStmt (ifStmt condition thenBody otherwise) rest := by
  intro n
  apply spanned_reads
  apply peek_takes_first.next
  rintro _ rfl
  exact conditional_reads conditionReads thenReads elseReads _ n

theorem asElse_elseif : AsElse (elseif condition thenBody otherwise) := by
  refine ⟨.cons rfl, ?_⟩
  intro n rest
  apply peek_takes_first.next
  rintro _ rfl
  have reads : Reads (conditionalLevels condition thenBody otherwise < n)
      (SameStmt · (ifStmt condition thenBody otherwise).tree) (Level.free n).elseif
      ((elseif condition thenBody otherwise).text ++ rest) rest := by
    cases n with
    | zero => exact .exhausted (Nat.not_lt_zero _)
    | succ n =>
      refine Reads.congr (spanned_reads ?_) Nat.lt_succ_iff.symm
      exact conditional_reads conditionReads thenReads elseReads _ n
  apply reads.bind Nat.lt_of_succ_le
  intro fit s same
  exact .pure fit (congrArg (fun s => [s]) same)

end Conditional

theorem asElse_noElse : AsElse noElse := by
  refine ⟨.cons rfl, ?_⟩
  intro n rest
  apply peek_takes_first.next
  rintro _ rfl
  apply (keyword_takes .end_).next
  intro _ _
  exact .pure (Nat.zero_le n) rfl

theorem asElse_elseBlock {body : Phrase Block} (reads : AsBlock body) :
    AsElse (elseBlock body) := by
  refine ⟨.cons rfl, ?_⟩
  intro n rest
  simp only [elseBlock, List.cons_append, List.append_assoc, List.nil_append]
  apply peek_takes_first.next
  rintro _ rfl
  apply advance_takes.next
  intro _ _
  exact ending_reads reads rfl n

def breakStmt : Phrase Stmt := ⟨[ofKeyword .break_], 0, .breakStmt default⟩

def continueStmt : Phrase Stmt := ⟨[ofKeyword .continue_], 0, .continueStmt default⟩

theorem asStmt_breakStmt : AsStmt breakStmt rest := by
  intro n
  apply spanned_reads
  apply peek_takes_first.next
  rintro _ rfl
  apply advance_takes.next
  intro _ _
  exact .pure (Nat.zero_le n) fun outer => rfl

theorem asStmt_continueStmt : AsStmt continueStmt rest := by
  intro n
  apply spanned_reads
  apply peek_takes_first.next
  rintro _ rfl
  apply advance_takes.next
  intro _ _
  exact .pure (Nat.zero_le n) fun outer => rfl

def pathStep (path : Expr) : Parse (Option Expr) := do
  if ← eatSymbol .dot then
    let field ← ident
    return some (path.ofField field.span field.text)
  else return none

theorem functionPath_eq : functionPath = (do
    let name ← ident
    chain pathStep (.ident name.span name.text)) := rfl

def PathReads (path : Expr) : Prop :=
  ∀ (fits : Prop) {ok : Expr → Prop} {rest final : List Lexeme},
    (∀ a, SameExpr a path → ChainReads fits ok pathStep a rest final) →
    Reads fits ok functionPath (Render.path path ++ rest) final

theorem pathReads : ∀ {path : Expr}, WellFormed.path path → PathReads path
  | .ident _ name, _ => by
      intro fits ok rest final later
      rw [functionPath_eq]
      apply (ident_takes name).next
      intro token same
      apply chain_reads
      apply later
      simp only [SameExpr, Relabeling.expr, same]
      rfl
  | .index span object (.string keySpan key), isPath => by
      simp only [WellFormed.path, Bool.and_eq_true] at isPath
      intro fits ok rest final later
      simp only [Render.path, List.append_assoc, List.cons_append, List.nil_append]
      apply pathReads isPath.1
      intro a same
      have one : Takes (fun next? => ∃ next, next? = some next ∧
          SameExpr next (.index span object (.string keySpan key))) (pathStep a)
          (ofSymbol .dot :: ofName key :: rest) rest := by
        apply (eat_takes_true (l := ofSymbol .dot) rfl).next
        rintro _ rfl
        apply (ident_takes key).next
        intro field given
        refine .pure trivial ⟨_, rfl, ?_⟩
        simp only [SameExpr, Expr.ofField, Relabeling.expr, same, given]
        rfl
      have shorter : rest.length < (ofSymbol .dot :: ofName key :: rest).length := by
        simp only [List.length_cons]
        omega
      apply ChainReads.again one shorter fun _ => trivial
      intro _ next same'
      exact later next same'

theorem functionPath_takes {path : Expr} (isPath : WellFormed.path path)
    (ended : Leads (· ≠ .symbol .dot) rest) :
    Takes (SameExpr · path) functionPath (Render.path path ++ rest) rest := by
  apply pathReads isPath
  intro a same
  refine .done ?_ trivial same
  apply (eat_takes_false ended).next
  rintro _ rfl
  exact .pure trivial rfl

def function_ (target : Expr) (ps : Params) (body : Phrase Block) : Phrase Stmt :=
  ⟨ofKeyword .function_ :: (Render.path target ++ Render.functionBody ps body.text),
    body.levels + 1, .function default target none ps body.tree⟩

theorem asStmt_function {target : Expr} {ps : Params} {body : Phrase Block}
    (isPath : WellFormed.path target) (named : WellFormed.params ps) (reads : AsBlock body) :
    AsStmt (function_ target ps body) rest := by
  intro n
  simp only [function_, List.cons_append, List.append_assoc]
  apply spanned_reads
  apply peek_takes_first.next
  rintro _ rfl
  apply (keyword_takes .function_).next
  intro _ _
  apply (functionPath_takes isPath (.cons (by decide))).next
  intro target' sameTarget
  apply (eat_takes_false (.cons (by decide))).next
  rintro _ rfl
  apply (functionBody_reads named reads n).bind id
  rintro fit ⟨ps', body'⟩ ⟨sameParams, sameBody⟩
  refine .pure fit fun outer => ?_
  simp only [SameStmt, Relabeling.stmt, sameTarget, sameParams, sameBody]
  rfl

def withSelf (ps : Params) : Params := ⟨⟨default, some "self"⟩ :: ps.names, ps.hasVarargs⟩

def method (target : Expr) (name : String) (ps : Params) (body : Phrase Block) : Phrase Stmt :=
  ⟨ofKeyword .function_ :: (Render.path target ++
      ofSymbol .colon :: ofName name :: Render.functionBody ps body.text),
    body.levels + 1, .function default target (some name) (withSelf ps) body.tree⟩

theorem eraseSpans_withSelf {ps ps' : Params} (span : Span)
    (same : eraseSpans.params ps' = eraseSpans.params ps) :
    eraseSpans.params ⟨⟨span, some "self"⟩ :: ps'.names, ps'.hasVarargs⟩ =
      eraseSpans.params (withSelf ps) := by
  simp only [Relabeling.params, Params.mk.injEq] at same
  simp only [withSelf, Relabeling.params, List.map_cons, same.1, same.2]
  rfl

theorem asStmt_method {target : Expr} {ps : Params} {body : Phrase Block}
    (isPath : WellFormed.path target) (name : String) (named : WellFormed.params ps)
    (reads : AsBlock body) : AsStmt (method target name ps body) rest := by
  intro n
  simp only [method, List.cons_append, List.append_assoc]
  apply spanned_reads
  apply peek_takes_first.next
  rintro _ rfl
  apply (keyword_takes .function_).next
  intro _ _
  apply (functionPath_takes isPath (.cons (by decide))).next
  intro target' sameTarget
  apply (eat_takes_true (l := ofSymbol .colon) rfl).next
  rintro _ rfl
  apply (ident_takes name).next
  intro token sameName
  apply (functionBody_reads named reads n).bind id
  rintro fit ⟨ps', body'⟩ ⟨sameParams, sameBody⟩
  refine .pure fit fun outer => ?_
  simp only [SameStmt, Relabeling.stmt, sameTarget, eraseSpans_withSelf token.span sameParams,
    sameName, sameBody]
  rfl

def localFunction (name : String) (ps : Params) (body : Phrase Block) : Phrase Stmt :=
  ⟨ofKeyword .local_ :: ofKeyword .function_ :: ofName name :: Render.functionBody ps body.text,
    body.levels + 1, .localFunction default name ps body.tree⟩

theorem asStmt_localFunction {ps : Params} {body : Phrase Block} (name : String)
    (named : WellFormed.params ps) (reads : AsBlock body) :
    AsStmt (localFunction name ps body) rest := by
  intro n
  simp only [localFunction, List.cons_append]
  apply spanned_reads
  apply peek_takes_first.next
  rintro _ rfl
  apply (peekSecond_takes_leads (P := (· = .keyword .function_)) (.cons rfl)).next
  rintro _ rfl
  apply (keyword_takes .local_).next
  intro _ _
  apply (keyword_takes .function_).next
  intro _ _
  apply (ident_takes name).next
  intro token sameName
  apply (functionBody_reads named reads n).bind id
  rintro fit ⟨ps', body'⟩ ⟨sameParams, sameBody⟩
  refine .pure fit fun outer => ?_
  simp only [SameStmt, Relabeling.stmt, sameParams, sameName, sameBody]
  rfl

theorem binders_reads {names : List Binder} (nonempty : names ≠ [])
    (named : names.all WellFormed.binder) (noComma : Leads (· ≠ .symbol .comma) rest) :
    Takes (fun names' => names'.map eraseSpans.binder = names.map eraseSpans.binder)
      (commaSeparated binder) (Render.separated (names.map ([Render.binder ·])) ++ rest) rest := by
  have each : ∀ b ∈ names, ∀ tail, Leads (fun _ => True) tail →
      Takes (fun b' => eraseSpans.binder b' = eraseSpans.binder b) binder
        ([Render.binder b] ++ tail) tail :=
    fun b member tail _ => binder_takes (List.all_eq_true.mp named b member)
  have reads := commaSeparated_reads (fun _ => True) nonempty trivial each
    (noComma.mono fun _ _ => trivial) noComma
  simpa using reads

def valuesText (values : List (Phrase Expr)) : List Lexeme :=
  if values.isEmpty then [] else ofSymbol .eq :: texts values

theorem values_reads {values : List (Phrase Expr)} (listed : values ≠ [] → Listed values rest)
    (noComma : Leads (· ≠ .symbol .comma) rest) (n : Nat) :
    OptionalReads .eq (depth values ≤ n) (SameExprs · (values.map tree)) (exprs (Level.free n)) []
      rest (valuesText values) := by
  cases values with
  | nil => exact .absent (Nat.zero_le n) rfl
  | cons p ps => exact .present ((listed (List.cons_ne_nil p ps)).exprs_reads noComma n)

def localVars (names : List Binder) (values : List (Phrase Expr)) : Phrase Stmt :=
  ⟨ofKeyword .local_ :: (Render.separated (names.map ([Render.binder ·])) ++ valuesText values),
    depth values, .localVars default names (values.map tree)⟩

theorem asStmt_localVars {names : List Binder} {values : List (Phrase Expr)}
    (nonempty : names ≠ []) (named : names.all WellFormed.binder)
    (listed : values ≠ [] → Listed values rest)
    (ended : Leads (fun kind => kind ≠ .symbol .comma ∧ kind ≠ .symbol .eq) rest) :
    AsStmt (localVars names values) rest := by
  intro n
  have noComma := ended.mono fun _ => And.left
  simp only [localVars, List.cons_append, List.append_assoc]
  apply spanned_reads
  apply peek_takes_first.next
  rintro _ rfl
  have first : Leads (· = .ident) (Render.separated (names.map ([Render.binder ·]))) := by
    obtain ⟨b, bs, rfl⟩ := List.exists_cons_of_ne_nil nonempty
    have binder : Leads (· = .ident) [Render.binder b] := .cons rfl
    exact leads_separated binder _
  apply (peekSecond_takes_leads (first.append _)).next
  rintro _ rfl
  apply (keyword_takes .local_).next
  intro _ _
  have namesEnd : Leads (· ≠ .symbol .comma) (valuesText values ++ rest) := by
    unfold valuesText
    split
    · exact noComma
    · exact .cons (by decide)
  apply (binders_reads nonempty named namesEnd).next
  intro names' sameNames
  apply (values_reads listed noComma n).bind (ended.mono fun _ => And.right) id
  intro fit values' sameValues
  refine .pure fit fun outer => ?_
  simp only [SameStmt, Relabeling.stmt, sameNames, sameValues]
  rfl

theorem statement_reads_head {text final : List Lexeme} (starts : Leads (·.startsHead) text)
    {fits : Prop} {ok : Stmt → Prop} {inner : Level}
    (reads : Reads fits (fun build => ∀ span, ok (build span)) (exprStmt inner)
      (text ++ rest) final) : Reads fits ok (statement inner) (text ++ rest) final := by
  apply spanned_reads
  apply (peek_takes (starts.append rest)).next
  intro kind starts
  unfold Kind.startsHead at starts
  split at starts
  · exact reads
  · exact reads
  · cases starts

def callStmt (call : Phrase Expr) : Phrase Stmt :=
  ⟨call.text, call.levels, .call default call.tree⟩

/-- What may follow a call that is a statement: nothing that makes the statement an assignment. -/
def EndsCall (kind : Kind) : Prop :=
  kind.startsSuffix = false ∧ BinaryOp.ofCompound? kind = none ∧ kind ≠ .symbol .eq ∧
    kind ≠ .symbol .comma

theorem asStmt_callStmt {call : Phrase Expr} (reads : AsHead call)
    (starts : Leads (·.startsHead) call.text) (isCall : call.tree.isCall)
    (ended : Leads EndsCall rest) : AsStmt (callStmt call) rest := by
  intro n
  apply statement_reads_head starts
  apply (reads.suffixed_reads n (ended.mono fun _ => And.left)).bind id
  intro fit call' same
  apply (peek_takes ended).next
  rintro kind ⟨_, noCompound, noEquals, noComma⟩
  have isCall' : call'.isCall := by rw [same.isCall, isCall]
  rw [noCompound]
  simp only [noEquals, noComma, or_self, if_false, isCall', if_true]
  refine .pure fit fun outer => ?_
  simp only [callStmt, SameStmt, Relabeling.stmt, same]
  rfl

theorem checkAssignable_takes {targets : List Expr} (assignable : targets.all Expr.isAssignable) :
    Takes (fun _ => True) (targets.forM checkAssignable) rest rest := by
  induction targets with
  | nil => exact .pure trivial trivial
  | cons target targets ih =>
    simp only [List.all_cons, Bool.and_eq_true] at assignable
    have one : Takes (fun _ => True) (checkAssignable target) rest rest := by
      rw [checkAssignable, if_pos assignable.1]
      exact .pure trivial trivial
    apply one.next
    intro _ _
    exact ih assignable.2

theorem all_isAssignable_of_same {targets targets' : List Expr}
    (same : SameExprs targets' targets) :
    targets'.all Expr.isAssignable = targets.all Expr.isAssignable := by
  have erased (es : List Expr) :
      es.all Expr.isAssignable = (eraseSpans.exprs es).all Expr.isAssignable := by
    simp [exprs_eq_map, Function.comp_def, isAssignable_expr]
  rw [erased, same, ← erased]

def height (ps : List (Phrase Expr)) : Nat := (ps.map levels).foldr max 0

theorem height_le_iff {ps : List (Phrase Expr)} {n : Nat} :
    height ps ≤ n ↔ ∀ p ∈ ps, p.levels ≤ n := by
  induction ps with
  | nil => simp [height]
  | cons p ps ih =>
    simp only [height, List.map_cons, List.foldr_cons, Nat.max_le, List.forall_mem_cons] at ih ⊢
    rw [ih]

theorem targets_reads {targets : List (Phrase Expr)} (each : ∀ p ∈ targets, AsHead p) (n : Nat) :
    OptionalReads .comma (height targets ≤ n) (SameExprs · (targets.map tree))
      (commaSeparated (suffixed (Level.free n))) [] (ofSymbol .eq :: rest)
      (Render.further (targets.map text)) := by
  have one : ∀ p ∈ targets, ∀ tail, Leads (·.startsSuffix = false) tail →
      Reads (p.levels ≤ n) (fun a => eraseSpans.expr a = eraseSpans.expr p.tree)
        (suffixed (Level.free n)) (p.text ++ tail) tail :=
    fun p member tail ended => (each p member).suffixed_reads n ended
  have ended : Leads (·.startsSuffix = false) (ofSymbol .eq :: rest) := .cons rfl
  have reads := further_reads (·.startsSuffix = false) rfl one ended (.cons (by decide))
  rw [height_le_iff]
  simpa only [SameExprs, exprs_eq_map, List.map_map, Function.comp_def] using reads

def assign (targets values : List (Phrase Expr)) : Phrase Stmt :=
  ⟨texts targets ++ ofSymbol .eq :: texts values, max (height targets) (depth values),
    .assign default (targets.map tree) (values.map tree)⟩

theorem asStmt_assign {targets values : List (Phrase Expr)} (nonempty : targets ≠ [])
    (starts : ∀ p ∈ targets, Leads (·.startsHead) p.text)
    (assignable : (targets.map tree).all Expr.isAssignable) (each : ∀ p ∈ targets, AsHead p)
    (listed : Listed values rest) (noComma : Leads (· ≠ .symbol .comma) rest) :
    AsStmt (assign targets values) rest := by
  intro n
  obtain ⟨first, more, rfl⟩ := List.exists_cons_of_ne_nil nonempty
  have moreReads := fun p member => each p (List.mem_cons_of_mem first member)
  have text : (assign (first :: more) values).text ++ rest = first.text ++
      (Render.further (more.map Phrase.text) ++ ofSymbol .eq :: (texts values ++ rest)) := by
    simp [assign, texts, Render.separated_eq_further]
  have levels : (assign (first :: more) values).levels =
      max (max first.levels (height more)) (depth values) := rfl
  rw [text, levels]
  apply statement_reads_head (starts first List.mem_cons_self)
  have follows : Leads (fun kind => kind = .symbol .comma ∨ kind = .symbol .eq)
      (Render.further (more.map Phrase.text) ++ ofSymbol .eq :: (texts values ++ rest)) := by
    cases more
    · exact .cons (.inr rfl)
    · exact .cons (.inl rfl)
  have ended := follows.mono (Q := (·.startsSuffix = false)) (by rintro _ (rfl | rfl) <;> rfl)
  apply ((each first List.mem_cons_self).suffixed_reads n ended).bind (by omega)
  intro firstFit first' sameFirst
  have assigned : Reads (max (max first.levels (height more)) (depth values) ≤ n)
      (fun build => ∀ outer, SameStmt (build outer) (assign (first :: more) values).tree)
      (assignment (Level.free n) first')
      (Render.further (more.map Phrase.text) ++ ofSymbol .eq :: (texts values ++ rest)) rest := by
    apply (targets_reads moreReads n).bind (.cons (by decide)) (by omega)
    intro moreFit more' sameMore
    have same : SameExprs (first' :: more') ((first :: more).map tree) := by
      simp only [SameExprs, List.map_cons, Relabeling.exprs, sameFirst, sameMore]
    apply (checkAssignable_takes (by rw [all_isAssignable_of_same same, assignable])).next
    intro _ _
    apply (symbol_takes .eq).next
    intro _ _
    apply (listed.exprs_reads noComma n).bind (by omega)
    intro valuesFit values' sameValues
    refine .pure (by omega) fun outer => ?_
    simp only [assign, SameStmt, Relabeling.stmt, same, sameValues]
    rfl
  -- Whether a comma or the equals sign comes next, the statement is an assignment.
  apply (peek_takes follows).next
  rintro _ (rfl | rfl)
  · exact assigned
  · exact assigned

def compound (sign : Symbol) (op : BinaryOp) (target value : Phrase Expr) : Phrase Stmt :=
  ⟨target.text ++ ofSymbol sign :: value.text, max target.levels (value.levels + 1),
    .assign default [target.tree] [.binary default op target.tree value.tree]⟩

theorem asStmt_compound {sign : Symbol} {op : BinaryOp} {target value : Phrase Expr}
    (isCompound : BinaryOp.ofCompound? (.symbol sign) = some op)
    (noSuffix : (Kind.symbol sign).startsSuffix = false) (reads : AsHead target)
    (starts : Leads (·.startsHead) target.text) (assignable : target.tree.isAssignable)
    (valueReads : AsExpr 0 value rest) : AsStmt (compound sign op target value) rest := by
  intro n
  have text : (compound sign op target value).text ++ rest =
      target.text ++ ofSymbol sign :: (value.text ++ rest) := by simp [compound]
  have levels : (compound sign op target value).levels =
      max target.levels (value.levels + 1) := rfl
  rw [text, levels]
  apply statement_reads_head starts
  apply (reads.suffixed_reads n (.cons noSuffix)).bind (by omega)
  intro fit target' sameTarget
  apply peek_takes_first.next
  rintro _ rfl
  simp only [ofSymbol, isCompound]
  apply advance_takes.next
  intro _ _
  have checked : Takes (fun _ => True) (checkAssignable target') (value.text ++ rest)
      (value.text ++ rest) := by
    rw [checkAssignable, if_pos (by rw [sameTarget.isAssignable, assignable])]
    exact .pure trivial trivial
  apply checked.next
  intro _ _
  apply (valueReads n).bind (by omega)
  intro valueFit value' sameValue
  refine .pure (by omega) fun outer => ?_
  simp only [compound, SameStmt, Expr.ofBinary, Relabeling.stmt, Relabeling.exprs,
    Relabeling.expr, sameTarget, sameValue]
  rfl

def returnStmt (values : List (Phrase Expr)) : Phrase Stmt :=
  ⟨ofKeyword .return_ :: texts values, depth values, .returnStmt default (values.map tree)⟩

theorem returnStmt_reads {values : List (Phrase Expr)}
    (listed : values ≠ [] → Listed values rest)
    (starts : ∀ p ∈ values, Leads (·.startsTerm) p.text)
    (ended : Leads (fun kind => kind.endsBlock ∨ kind = .symbol .semicolon) rest) (n : Nat) :
    Reads (depth values ≤ n) (SameStmt · (returnStmt values).tree)
      (Grammar.returnStmt (Level.free n)) ((returnStmt values).text ++ rest) rest := by
  simp only [returnStmt, List.cons_append]
  apply spanned_reads
  apply (keyword_takes .return_).next
  intro _ _
  by_cases nonempty : values = []
  · subst nonempty
    obtain ⟨l, front, ends⟩ := ended
    have bare : (l.1.endsBlock || decide (l.1 = .symbol .semicolon)) = true := by simpa using ends
    apply (peek_takes (P := (· = l.1)) ⟨l, front, rfl⟩).next
    rintro _ rfl
    have tested : Takes (· = decide (l.1 = .symbol .semicolon))
        (isAt (.symbol .semicolon)) rest rest := by
      apply (peek_takes (P := (· = l.1)) ⟨l, front, rfl⟩).next
      rintro _ rfl
      exact .pure trivial rfl
    apply tested.next
    rintro _ rfl
    simp only [bare, if_true]
    exact .pure (Nat.zero_le n) fun outer => rfl
  · have first := (leads_texts nonempty starts).append rest
    have noComma : Leads (· ≠ .symbol .comma) rest := by
      apply ended.mono
      rintro _ ends rfl
      rcases ends with ends | ends <;> cases ends
    apply (peek_takes first).next
    intro kind starts
    apply (isAt_takes_false (first.mono ?_)).next
    · rintro _ rfl
      simp only [Kind.noBlockEnd_of_startsTerm starts, Bool.or_false]
      apply ((listed nonempty).exprs_reads noComma n).bind id
      intro fit values' same
      refine .pure fit fun outer => ?_
      simp only [SameStmt, Relabeling.stmt, same]
      rfl
    · rintro _ starts rfl
      cases starts

end Phrase

end LuaSearch
