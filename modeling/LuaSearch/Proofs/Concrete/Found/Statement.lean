import LuaSearch.Proofs.Concrete.Found.Expression

/-!
Whatever is read as a block is the text of a formed concrete tree. A statement is found with what
it needs of the lexemes behind it, that no parenthesis stands behind an open end; of a body of
statements nothing is needed.
-/
namespace LuaSearch

open Lexeme Parse Grammar

namespace Concrete

variable {input rest : List Lexeme}

theorem binders_found :
    Leaves input (fun _ rest => ∃ (first : Name) (more : List Name), input =
      Render.separated (((first :: more).map Name.binder).map ([Render.binder ·])) ++ rest)
      (commaSeparated binder) := by
  refine commaSeparated_leaves
    (I := fun input _ rest => ∃ name : Name, input = ofName name.1 :: rest)
    (K := fun input _ rest => ∃ (first : Name) (more : List Name), input =
      Render.separated (((first :: more).map Name.binder).map ([Render.binder ·])) ++ rest) ?_ ?_ ?_
  · intro input
    apply ident_leaves.bind
    rintro _ _ ⟨named, taken⟩
    exact .pure ⟨⟨_, named⟩, taken⟩
  · rintro _ _ rest ⟨name, rfl⟩
    exact ⟨name, [], rfl⟩
  · rintro _ _ _ _ rest ⟨name, rfl⟩ ⟨first, more, rfl⟩
    exact ⟨name, first :: more, rfl⟩

theorem names_ne_nil {names : List Name} (some : names ≠ []) :
    (names.map Subtype.val).map ([ofName ·]) ≠ [] := by
  intro empty
  exact some (List.map_eq_nil_iff.mp (List.map_eq_nil_iff.mp empty))

theorem names_found :
    Leaves input (fun _ rest => ∃ names : List Name, names ≠ [] ∧
      input = Render.separated ((names.map Subtype.val).map ([ofName ·])) ++ rest)
      (commaSeparated ident) := by
  refine commaSeparated_leaves (K := fun input _ rest => ∃ names : List Name, names ≠ [] ∧
    input = Render.separated ((names.map Subtype.val).map ([ofName ·])) ++ rest)
    (fun _ => ident_leaves) ?_ ?_
  · rintro _ token rest ⟨named, rfl⟩
    exact ⟨[⟨_, named⟩], List.cons_ne_nil _ _, rfl⟩
  · rintro _ token _ _ rest ⟨named, rfl⟩ ⟨names, some, rfl⟩
    refine ⟨⟨_, named⟩ :: names, List.cons_ne_nil _ _, ?_⟩
    rw [List.map_cons, List.map_cons, Render.separated_cons _ (names_ne_nil some)]
    rfl

theorem furtherNames_found :
    OptionalLeaves .comma input (fun _ rest => ∃ more : List Name,
      input = Render.further ((more.map Subtype.val).map ([ofName ·])) ++ rest)
      (commaSeparated ident) [] where
  present := by
    rintro _ rfl
    apply names_found.mono
    rintro _ rest ⟨more, some, rfl⟩
    refine ⟨more, ?_⟩
    rw [Render.further, if_neg (by simpa only [List.isEmpty_iff] using names_ne_nil some)]
    rfl
  absent := ⟨[], rfl⟩

theorem functionPath_found :
    Leaves input (fun _ rest => ∃ path : Path, input = Render.path path.tree ++ rest)
      functionPath := by
  rw [Phrase.functionPath_eq]
  apply ident_leaves.bind
  rintro name middle ⟨named, taken⟩
  refine chain_leaves (I := fun _ rest => ∃ path : Path, input = Render.path path.tree ++ rest)
    ?_ ⟨.name ⟨_, named⟩, taken⟩
  rintro a input ⟨path, taken⟩
  apply (eatSymbol_leaves .dot).bind
  rintro _ _ (⟨rfl⟩ | _)
  · apply ident_leaves.bind
    rintro token rest ⟨named, rfl⟩
    refine .pure (.more ⟨.field path ⟨_, named⟩, ?_⟩)
    simp [taken, Path.tree, Render.path]
  · exact .pure (.last ⟨path, taken⟩)

def StmtFound (input rest : List Lexeme) : Prop :=
  ∃ c : Command, c.formed ∧ input = (c.phrase id).text ++ rest ∧
    (c.isOpen → kindOf rest ≠ .symbol .lparen)

def ValuesFound (input rest : List Lexeme) : Prop :=
  ∃ vs : Values, vs.formed ∧ input = Phrase.texts (vs.phrases id) ++ rest ∧
    (vs.isOpen → (kindOf rest).startsSuffix = false)

theorem noGroup_of_noSuffix {kind : Kind} (noSuffix : kind.startsSuffix = false) :
    kind ≠ .symbol .lparen := by
  rintro rfl
  cases noSuffix

theorem TermsFound.values (found : TermsFound input rest) : ValuesFound input rest := by
  obtain ⟨ts, formed, text, noSuffix⟩ := found
  exact ⟨.given ts, formed, text, noSuffix⟩

theorem checkAssignable_leaves (target : Expr) :
    Leaves input (fun _ rest => target.isAssignable ∧ rest = input) (checkAssignable target) := by
  unfold checkAssignable
  split
  · rename_i assignable
    exact .pure ⟨assignable, rfl⟩
  · exact .fail _ _

theorem checkAll_leaves (targets : List Expr) :
    Leaves input (fun _ rest => targets.all Expr.isAssignable ∧ rest = input)
      (targets.forM checkAssignable) := by
  induction targets with
  | nil => exact .pure ⟨rfl, rfl⟩
  | cons target targets ih =>
    apply (checkAssignable_leaves target).bind
    rintro _ _ ⟨assignable, rfl⟩
    apply ih.mono
    rintro _ _ ⟨others, rfl⟩
    exact ⟨by simpa [assignable] using others, rfl⟩

def TargetsFound (input : List Lexeme) (as : List Expr) (rest : List Lexeme) : Prop :=
  ∃ ts : Targets, (as.all Expr.isAssignable → ts.formed) ∧
    input = Phrase.texts (ts.phrases id) ++ rest

theorem TargetsFound.one {a : Expr} (found : HeadFound input a rest) :
    TargetsFound input [a] rest := by
  obtain ⟨h, formed, text, like⟩ := found
  refine ⟨.one h, ?_, text⟩
  simp [formed, like.isAssignable]

theorem TargetsFound.more {a : Expr} {as : List Expr} {middle : List Lexeme}
    (found : HeadFound input a (ofSymbol .comma :: middle)) (others : TargetsFound middle as rest) :
    TargetsFound input (a :: as) rest := by
  obtain ⟨h, formed, rfl, like⟩ := found
  obtain ⟨ts, othersFormed, rfl⟩ := others
  refine ⟨.more h ts, ?_, ?_⟩
  · simp only [List.all_cons, Bool.and_eq_true, like.isAssignable, Targets.formed, formed, and_true]
    exact And.imp_right othersFormed
  · have text : Phrase.texts ((Targets.more h ts).phrases id) =
        h.text ++ ofSymbol .comma :: Phrase.texts (ts.phrases id) :=
      Render.separated_cons _ (by simp [targets_ne_nil])
    rw [text, List.append_assoc, List.cons_append]

theorem compound_of_sign {kind : Kind} {op : BinaryOp}
    (seen : BinaryOp.ofCompound? kind = some op) :
    ∃ compound : Compound, kind = .symbol compound.sign := by
  unfold BinaryOp.ofCompound? at seen
  split at seen
  · exact ⟨.add, rfl⟩
  · exact ⟨.sub, rfl⟩
  · exact ⟨.mul, rfl⟩
  · exact ⟨.div, rfl⟩
  · exact ⟨.mod, rfl⟩
  · exact ⟨.pow, rfl⟩
  · exact ⟨.concat, rfl⟩
  · cases seen

theorem kindOf_of_startsGroup {body : Body} (group : body.startsGroup) :
    kindOf (body.text ++ rest) = .symbol .lparen := by
  cases body with
  | more command others =>
    have starts := kindOf_of_leads (((leads_command command).append others.text).append rest)
    exact starts.2.mp group
  | _ => cases group

theorem StmtFound.follow {middle : List Lexeme} (found : StmtFound input middle)
    (others : BodyFound middle rest) : BodyFound input rest := by
  obtain ⟨c, formed, rfl, noGroup⟩ := found
  obtain ⟨body, othersFormed, rfl⟩ := others
  have apart : (c.isOpen && body.startsGroup) = false := by
    rw [Bool.and_eq_false_imp]
    intro opened
    exact Bool.eq_false_iff.mpr fun group => noGroup opened (kindOf_of_startsGroup group)
  refine ⟨.more c body, by simp [formed, apart, othersFormed], ?_⟩
  simp [Body.text, Phrase.follow]

theorem BodyFound.pending (count : Nat) (found : BodyFound input rest) :
    BodyFound (Phrase.pending count ++ input) rest := by
  induction count with
  | zero => exact found
  | succ count ih =>
    obtain ⟨body, formed, text⟩ := ih
    exact ⟨.semicolon body, formed, congrArg (ofSymbol .semicolon :: ·) text⟩

theorem semicolons_found :
    Leaves input (fun _ rest => ∃ count, input = Phrase.pending count ++ rest) semicolons := by
  refine iterate_leaves_back
    (K := fun _ input _ rest => ∃ count, input = Phrase.pending count ++ rest) ?_ _
  intro _ input
  apply (eatSymbol_leaves .semicolon).bind
  rintro _ _ (⟨rfl⟩ | _)
  · refine .pure (.again ?_)
    rintro _ _ ⟨count, rfl⟩
    exact ⟨count + 1, rfl⟩
  · exact .pure (.done ⟨0, rfl⟩)

section

variable {inner : Level} (finds : Level.Finds inner)

include finds

theorem ending_found (word : Keyword) :
    Leaves input (fun _ rest => BodyFound input (ofKeyword word :: rest)) (ending inner word) := by
  apply (finds.block input).bind
  intro _ _ found
  apply (keyword_leaves word).bind
  rintro _ _ rfl
  exact .pure found

theorem doBlock_found : Leaves input (fun _ => StmtFound input) (doBlock inner) := by
  apply (keyword_leaves .do_).bind
  rintro _ _ rfl
  apply (ending_found finds .end_).bind
  rintro _ _ ⟨body, formed, rfl⟩
  refine .pure ⟨.doBlock body, formed, ?_, nofun⟩
  simp [Phrase.doBlock]

theorem whileLoop_found : Leaves input (fun _ => StmtFound input) (whileLoop inner) := by
  apply (keyword_leaves .while_).bind
  rintro _ _ rfl
  apply (expr_found finds).bind
  rintro _ _ ⟨condition, conditionFormed, rfl, _, _⟩
  apply (keyword_leaves .do_).bind
  rintro _ _ rfl
  apply (ending_found finds .end_).bind
  rintro _ _ ⟨body, formed, rfl⟩
  refine .pure ⟨.whileLoop condition body, by simp [conditionFormed, formed], ?_,
    nofun⟩
  simp [Phrase.whileLoop]

theorem repeatLoop_found : Leaves input (fun _ => StmtFound input) (repeatLoop inner) := by
  apply (keyword_leaves .repeat_).bind
  rintro _ _ rfl
  apply (ending_found finds .until_).bind
  rintro _ _ ⟨body, formed, rfl⟩
  apply (expr_found finds).bind
  rintro _ _ ⟨condition, conditionFormed, rfl, ends, _⟩
  refine .pure ⟨.repeatLoop body condition, by simp [conditionFormed, formed], ?_,
    fun opened => noGroup_of_noSuffix (ends.noSuffix opened)⟩
  simp [Phrase.repeatLoop]

theorem elseBody_found : Leaves input (fun _ => BranchFound input) (elseBody inner) := by
  apply peek_leaves
  split
  · rename_i seen
    apply (finds.elseif seen).bind
    intro _ _ found
    exact .pure found
  · rename_i seen
    apply (advance_leaves_keyword seen).bind
    rintro _ _ rfl
    apply (ending_found finds .end_).mono
    rintro _ _ ⟨body, formed, rfl⟩
    refine ⟨.otherwise body, formed, ?_⟩
    simp [Phrase.elseBlock]
  · apply (keyword_leaves .end_).bind
    rintro _ _ rfl
    exact .pure ⟨.none, rfl, rfl⟩

theorem conditional_found {word : Keyword} (seen : kindOf input = .keyword word) :
    Leaves input (fun _ rest => ∃ (condition : Term) (body : Body) (branch : Branch),
      condition.formed 0 ∧ body.formed ∧ branch.formed ∧ input = ofKeyword word ::
        Phrase.conditionalText (condition.phrase id) (body.phrase id) (branch.phrase id) ++ rest)
      (conditional inner) := by
  apply (advance_leaves_keyword seen).bind
  rintro _ _ rfl
  apply (expr_found finds).bind
  rintro _ _ ⟨condition, conditionFormed, rfl, _, _⟩
  apply (keyword_leaves .then_).bind
  rintro _ _ rfl
  apply (finds.block _).bind
  rintro _ _ ⟨body, formed, rfl⟩
  apply (elseBody_found finds).bind
  rintro _ _ ⟨branch, branchFormed, rfl⟩
  refine .pure ⟨condition, body, branch, conditionFormed, formed, branchFormed, ?_⟩
  simp [Phrase.conditionalText]

theorem ifStmt_found (seen : kindOf input = .keyword .if_) :
    Leaves input (fun _ => StmtFound input) (conditional inner) := by
  apply (conditional_found finds seen).mono
  rintro _ rest ⟨condition, body, branch, conditionFormed, formed, branchFormed, rfl⟩
  exact ⟨.ifThen condition body branch, by simp [*], rfl, nofun⟩

theorem elseif_found (seen : kindOf input = .keyword .elseif_) :
    Leaves input (fun _ => BranchFound input) (spanned (conditional inner)) := by
  apply spanned_leaves
  apply (conditional_found finds seen).mono
  rintro _ rest ⟨condition, body, branch, conditionFormed, formed, branchFormed, rfl⟩ _
  exact ⟨.elseif false condition body branch, by simp [*], rfl⟩

theorem step_found :
    OptionalLeaves .comma input (fun _ rest => ∃ step : Step, step.formed ∧
      input = Phrase.stepText (step.phrase? id) ++ rest) (some <$> Grammar.expr inner) none where
  present := by
    rintro _ rfl
    apply (expr_found finds).bind
    rintro _ _ ⟨t, formed, rfl, _, _⟩
    exact .pure ⟨.by t, formed, rfl⟩
  absent := ⟨.none, rfl, rfl⟩

theorem numericFor_found (var : Name) :
    Leaves input (fun _ => StmtFound (ofKeyword .for_ :: ofName var.1 :: ofSymbol .eq :: input))
      (numericFor inner var.1) := by
  apply (expr_found finds).bind
  rintro _ _ ⟨start, startFormed, rfl, _, _⟩
  apply (symbol_leaves .comma).bind
  rintro _ _ rfl
  apply (expr_found finds).bind
  rintro _ _ ⟨limit, limitFormed, rfl, _, _⟩
  apply (step_found finds).bind
  rintro _ _ ⟨step, stepFormed, rfl⟩
  apply (keyword_leaves .do_).bind
  rintro _ _ rfl
  apply (ending_found finds .end_).bind
  rintro _ _ ⟨body, formed, rfl⟩
  refine .pure ⟨.numericFor var start limit step body, by simp [*], ?_, nofun⟩
  simp [Phrase.numericFor]

theorem genericFor_found (first : Name) :
    Leaves input (fun _ => StmtFound (ofKeyword .for_ :: ofName first.1 :: input))
      (genericFor inner first.1) := by
  apply furtherNames_found.bind
  rintro _ _ ⟨more, rfl⟩
  apply (keyword_leaves .in_).bind
  rintro _ _ rfl
  apply (exprs_found finds).bind
  rintro _ _ ⟨values, valuesFormed, rfl, _⟩
  apply (keyword_leaves .do_).bind
  rintro _ _ rfl
  apply (ending_found finds .end_).bind
  rintro _ _ ⟨body, formed, rfl⟩
  refine .pure ⟨.genericFor first more values body, by simp [*], ?_, nofun⟩
  simp [Phrase.genericFor]

theorem forLoop_found : Leaves input (fun _ => StmtFound input) (forLoop inner) := by
  apply (keyword_leaves .for_).bind
  rintro _ _ rfl
  apply ident_leaves.bind
  rintro token _ ⟨named, rfl⟩
  apply (eatSymbol_leaves .eq).bind
  rintro _ _ (⟨rfl⟩ | _)
  · exact numericFor_found finds ⟨_, named⟩
  · exact genericFor_found finds ⟨_, named⟩

theorem function_found : Leaves input (fun _ => StmtFound input) (function inner) := by
  apply (keyword_leaves .function_).bind
  rintro _ _ rfl
  apply functionPath_found.bind
  rintro _ _ ⟨path, rfl⟩
  apply (eatSymbol_leaves .colon).bind
  rintro _ _ (⟨rfl⟩ | _)
  · apply ident_leaves.bind
    rintro method _ ⟨named, rfl⟩
    apply (functionBody_found finds).bind
    rintro _ _ ⟨ps, body, formed, rfl⟩
    refine .pure ⟨.method path ⟨_, named⟩ ps body, formed, ?_, nofun⟩
    simp [Phrase.method]
  · apply (functionBody_found finds).bind
    rintro _ _ ⟨ps, body, formed, rfl⟩
    refine .pure ⟨.function path ps body, formed, ?_, nofun⟩
    simp [Phrase.function_]

theorem localFunction_found : Leaves input (fun _ => StmtFound input) (localFunction inner) := by
  apply (keyword_leaves .local_).bind
  rintro _ _ rfl
  apply (keyword_leaves .function_).bind
  rintro _ _ rfl
  apply ident_leaves.bind
  rintro name _ ⟨named, rfl⟩
  apply (functionBody_found finds).bind
  rintro _ _ ⟨ps, body, formed, rfl⟩
  exact .pure ⟨.localFunction ⟨_, named⟩ ps body, formed, rfl, nofun⟩

theorem localValues_found :
    OptionalLeaves .eq input (fun _ rest => ∃ values : Values, values.formed ∧
      input = Phrase.valuesText (values.phrases id) ++ rest ∧
      (values.isOpen → (kindOf rest).startsSuffix = false)) (exprs inner) [] where
  present := by
    rintro _ rfl
    apply (exprs_found finds).mono
    rintro _ _ ⟨ts, formed, rfl, noSuffix⟩
    refine ⟨.given ts, formed, ?_, noSuffix⟩
    simp [Phrase.valuesText, phrases_ne_nil]
  absent := ⟨.none, rfl, rfl, nofun⟩

theorem localVars_found : Leaves input (fun _ => StmtFound input) (localVars inner) := by
  apply (keyword_leaves .local_).bind
  rintro _ _ rfl
  apply binders_found.bind
  rintro _ _ ⟨first, more, rfl⟩
  apply (localValues_found finds).bind
  rintro _ _ ⟨values, formed, rfl, noSuffix⟩
  refine .pure ⟨.localVars first more values, formed, ?_,
    fun opened => noGroup_of_noSuffix (noSuffix opened)⟩
  simp [Phrase.localVars]

theorem targets_found :
    Leaves input (TargetsFound input) (commaSeparated (suffixed inner)) := by
  refine commaSeparated_leaves (fun _ => (suffixed_found finds).mono fun _ _ => And.left) ?_ ?_
  · exact fun _ _ _ => TargetsFound.one
  · exact fun _ _ _ _ _ => TargetsFound.more

theorem assignment_found {whole : List Lexeme} {first : Expr}
    (found : HeadFound whole first input) :
    Leaves input (fun _ => StmtFound whole) (assignment inner first) := by
  have further : OptionalLeaves .comma input (fun as => TargetsFound whole (first :: as))
      (commaSeparated (suffixed inner)) [] :=
    { present := by
        rintro _ rfl
        exact (targets_found finds).mono fun _ _ => TargetsFound.more found
      absent := .one found }
  apply further.bind
  rintro as _ ⟨targets, targetsFormed, rfl⟩
  apply (checkAll_leaves (first :: as)).bind
  rintro _ _ ⟨assignable, rfl⟩
  apply (symbol_leaves .eq).bind
  rintro _ _ rfl
  apply (exprs_found finds).bind
  rintro _ _ ⟨values, formed, rfl, noSuffix⟩
  refine .pure ⟨.assign targets values, ?_, ?_, fun opened => noGroup_of_noSuffix (noSuffix opened)⟩
  · simp [targetsFormed assignable, formed]
  · simp [Phrase.assign]

theorem compound_found {whole : List Lexeme} {target : Expr} {op : BinaryOp}
    (found : HeadFound whole target input)
    (seen : BinaryOp.ofCompound? (kindOf input) = some op) :
    Leaves input (fun _ => StmtFound whole) (compound inner op target) := by
  obtain ⟨sign, isSign⟩ := compound_of_sign seen
  apply (advance_leaves_symbol isSign).bind
  rintro _ _ rfl
  apply (checkAssignable_leaves target).bind
  rintro _ _ ⟨assignable, rfl⟩
  apply (expr_found finds).bind
  rintro _ _ ⟨value, valueFormed, rfl, ends, _⟩
  obtain ⟨h, formed, rfl, like⟩ := found
  refine .pure ⟨.compound false sign h value, ?_, ?_,
    fun opened => noGroup_of_noSuffix (ends.noSuffix opened)⟩
  · simp [← like.isAssignable, assignable, formed, valueFormed]
  · simp [Phrase.compound]

theorem exprStmt_found : Leaves input (fun _ => StmtFound input) (exprStmt inner) := by
  apply (suffixed_found finds).bind
  rintro first middle ⟨found, noSuffix⟩
  apply peek_leaves
  split
  · rename_i op seen
    exact compound_found finds found seen
  · split
    · exact assignment_found finds found
    · split
      · rename_i isCall
        obtain ⟨h, formed, rfl, like⟩ := found
        refine .pure ⟨.call h, ?_, rfl, fun _ => noGroup_of_noSuffix noSuffix⟩
        simp [formed, ← like.isCall, isCall]
      · exact .fail _ _

theorem statement_found : Leaves input (fun _ => StmtFound input) (statement inner) := by
  apply spanned_leaves
  suffices all : Leaves input (fun _ => StmtFound input) _ from all.mono fun _ _ found _ => found
  apply peek_leaves
  split
  · exact doBlock_found finds
  · exact whileLoop_found finds
  · exact repeatLoop_found finds
  · rename_i seen
    exact ifStmt_found finds seen
  · exact forLoop_found finds
  · exact function_found finds
  · apply peekSecond_leaves
    intro second
    split
    · exact localFunction_found finds
    · exact localVars_found finds
  · rename_i seen
    apply (advance_leaves_keyword seen).bind
    rintro _ _ rfl
    exact .pure ⟨.breakStmt, rfl, rfl, nofun⟩
  · rename_i seen
    apply (advance_leaves_keyword seen).bind
    rintro _ _ rfl
    exact .pure ⟨.continueStmt, rfl, rfl, nofun⟩
  · exact exprStmt_found finds

theorem nextStatement_found :
    Leaves input (fun _ middle => ∀ rest, BodyFound middle rest → BodyFound input rest)
      (nextStatement inner) := by
  apply semicolons_found.bind
  rintro _ middle ⟨count, rfl⟩
  apply peek_leaves
  split
  · exact .pure fun _ => BodyFound.pending count
  · apply (statement_found finds).bind
    intro _ _ found
    exact .pure fun _ others => (found.follow others).pending count

theorem statements_found :
    Leaves input (fun _ middle => ∀ rest, BodyFound middle rest → BodyFound input rest)
      (many (nextStatement inner)) := by
  refine many_leaves (K := fun input middle => ∀ rest, BodyFound middle rest → BodyFound input rest)
    ?_
  intro input
  apply (nextStatement_found finds).mono
  rintro (_ | _) middle found
  · exact found
  · exact fun _ others rest last => found rest (others rest last)

theorem returnStmt_found :
    Leaves input (fun _ rest => ∃ values : Values, values.formed ∧
      input = (Phrase.returnStmt (values.phrases id)).text ++ rest) (returnStmt inner) := by
  apply spanned_leaves
  apply (keyword_leaves .return_).bind
  rintro _ _ rfl
  apply peek_leaves
  apply isAt_leaves
  dsimp only
  split
  · exact .pure fun _ => ⟨.none, rfl, rfl⟩
  · apply (exprs_found finds).bind
    rintro _ _ ⟨ts, formed, rfl, _⟩
    exact .pure fun _ => ⟨.given ts, formed, rfl⟩

theorem block_found : Leaves input (fun _ => BodyFound input) (block inner) := by
  apply (statements_found finds).bind
  intro body middle before
  apply isAt_leaves
  by_cases returns : kindOf middle = .keyword .return_
  · simp only [returns, decide_true, if_true]
    apply (returnStmt_found finds).bind
    rintro _ tail ⟨values, formed, rfl⟩
    apply (eatSymbol_leaves .semicolon).bind
    rintro _ rest (⟨rfl⟩ | _)
    · refine .pure (before rest ⟨.result values true, formed, ?_⟩)
      simp [Body.text, Phrase.result]
    · refine .pure (before tail ⟨.result values false, formed, ?_⟩)
      simp [Body.text, Phrase.result]
  · simp only [returns, decide_false]
    exact .pure (before middle ⟨.none, rfl, rfl⟩)

end

theorem finds_free (levels : Nat) : Level.Finds (Level.free levels) := by
  induction levels with
  | zero =>
    exact {
      operators := fun _ _ => currentSpan_leaves fun _ => .fail _ _
      block := fun _ => currentSpan_leaves fun _ => .fail _ _
      elseif := fun _ => currentSpan_leaves fun _ => .fail _ _ }
  | succ levels ih =>
    exact {
      operators := fun limit _ => operators_found ih limit
      block := fun _ => block_found ih
      elseif := elseif_found ih }

end Concrete

end LuaSearch
