import LuaSearch.Proofs.Parse.Levels
import LuaSearch.Proofs.Parse.Lands
import LuaSearch.Proofs.Parse.Unended.Expression

/-!
The readers of statements and blocks on tokens without an end marker. Of the statements only
`break` and `continue` are content with the last token alone. So a chunk of such tokens is never
accepted, and the reader is cut off only where the last token can be taken for ever.
-/
namespace LuaSearch

open Parse

namespace Grammar

variable {inner : Level} {c : Cursor}

theorem functionPath_settles : Rests c (· = .ident) functionPath := by
  apply ident_settles.after
  intro name c
  refine chain_settles ?_ _
  intro path c
  apply (eatSymbol_settles .dot).bind
  · intro dotted c' _
    apply Settles.ite
    · apply ident_settles.finishes.after
      intro field c
      exact .pure trivial
    · exact .pure trivial
  · rintro (_ | _) seen
    · exact .pure nofun
    · -- The name behind a dot that is the last token would be the dot itself.
      refine (ident_settles.after fun field c => .pure trivial).mono ?_
      intro _ past _
      exact (past.absurd (seen rfl) (by simp)).elim

theorem checkAssignable_settles (target : Expr) : Finishes c (checkAssignable target) :=
  .ite (.pure trivial) (.fail (by simp) _)

theorem checkAll_settles (targets : List Expr) : Finishes c (targets.forM checkAssignable) := by
  induction targets generalizing c with
  | nil => exact .pure trivial
  | cons target targets ih => exact (checkAssignable_settles target).after fun _ _ => ih

theorem semicolons_settles : Finishes c semicolons := by
  refine iterate_settles (Q := fun _ _ => True) ?_ _
  intro _ c
  apply (eatSymbol_settles .semicolon).bind
  · intro eaten c' _
    exact .ite (.pure trivial) (.pure trivial)
  · rintro (_ | _) seen
    · exact .pure trivial
    · exact .pure ((seen rfl).mono (by rintro _ rfl; rfl))

section

variable (settles : inner.Settles)

include settles

theorem ending_settles (word : Keyword) : Rests c (· = .keyword word) (ending inner word) := by
  refine (settles.block c).anyway (R := fun c _ => c.Past (· = .keyword word)) ?_
  intro body c
  apply (keyword_settles word).after
  intro _ c
  exact .pure trivial

theorem doBlock_settles : Advances c (doBlock inner) := by
  refine (keyword_settles .do_).clash (L := (· = .keyword .end_)) ?_ (by simp)
  intro _ c
  apply (ending_settles settles .end_).after
  intro body c
  exact .pure trivial

theorem whileLoop_settles : Advances c (whileLoop inner) := by
  refine (keyword_settles .while_).clash (L := (·.isAtom = true)) ?_ (by simp [Kind.isAtom])
  intro _ c
  apply (expr_settles settles).after
  intro condition c
  apply (keyword_settles .do_).finishes.after
  intro _ c
  apply (ending_settles settles .end_).finishes.after
  intro body c
  exact .pure trivial

theorem repeatLoop_settles : Advances c (repeatLoop inner) := by
  refine (keyword_settles .repeat_).clash (L := (· = .keyword .until_)) ?_ (by simp)
  intro _ c
  apply (ending_settles settles .until_).after
  intro body c
  apply (expr_settles settles).finishes.after
  intro condition c
  exact .pure trivial

theorem elseBody_finishes : Finishes c (elseBody inner) := by
  apply peek_settles
  split
  · apply (settles.elseif c).finishes.after
    intro s c
    exact .pure trivial
  · rename_i seen
    apply (advance_settles seen).finishes.after
    intro _ c
    exact (ending_settles settles .end_).finishes
  · apply (keyword_settles .end_).finishes.after
    intro _ c
    exact .pure trivial

theorem conditional_settles : Advances c (conditional inner) := by
  refine (advance_settles rfl).anyway (R := fun _ _ => False) ?_
  intro _ c
  refine (expr_settles settles).clash (L := (· = .keyword .then_)) ?_
    (by rintro _ atom rfl; cases atom)
  intro condition c
  apply (keyword_settles .then_).after
  intro _ c
  apply (settles.block c).after
  intro thenBody c
  apply (elseBody_finishes settles).after
  intro elseBody c
  exact .pure trivial

theorem numericFor_finishes (var : String) : Finishes c (numericFor inner var) := by
  apply (expr_settles settles).finishes.after
  intro start c
  apply (symbol_settles .comma).finishes.after
  intro _ c
  apply (expr_settles settles).finishes.after
  intro limit c
  have stepped {c : Cursor} : Finishes c (some <$> expr inner) := by
    rw [map_eq_pure_bind]
    apply (expr_settles settles).finishes.after
    intro step c
    exact .pure trivial
  apply (eatSymbol_settles .comma).finishes.after
  intro further c
  apply stepped.optional
  intro step? c
  apply (keyword_settles .do_).finishes.after
  intro _ c
  apply (ending_settles settles .end_).finishes.after
  intro body c
  exact .pure trivial

theorem genericFor_finishes (first : String) : Finishes c (genericFor inner first) := by
  apply (eatSymbol_settles .comma).finishes.after
  intro further c
  apply (commaSeparated_settles (by simp) fun _ => ident_settles).optional
  intro more c
  apply (keyword_settles .in_).finishes.after
  intro _ c
  apply (exprs_settles settles).finishes.after
  intro values c
  apply (keyword_settles .do_).finishes.after
  intro _ c
  apply (ending_settles settles .end_).finishes.after
  intro body c
  exact .pure trivial

theorem forLoop_settles : Advances c (forLoop inner) := by
  refine (keyword_settles .for_).clash (L := (· = .ident)) ?_ (by simp)
  intro _ c
  apply ident_settles.after
  intro first c
  apply (eatSymbol_settles .eq).finishes.after
  intro numeric c
  exact .ite (numericFor_finishes settles _) (genericFor_finishes settles _)

theorem function_settles : Advances c (function inner) := by
  refine (keyword_settles .function_).clash (L := (· = .ident)) ?_ (by simp)
  intro _ c
  refine functionPath_settles.after ?_
  intro target c
  apply (eatSymbol_settles .colon).finishes.after
  intro isMethod c
  apply Settles.ite
  · apply ident_settles.finishes.after
    intro method c
    refine (functionBody_settles settles).finishes.after ?_
    intro given c
    exact .pure trivial
  · refine (functionBody_settles settles).finishes.after ?_
    intro given c
    exact .pure trivial

theorem localFunction_settles : Advances c (localFunction inner) := by
  refine (keyword_settles .local_).clash (L := (· = .keyword .function_)) ?_ (by simp)
  intro _ c
  refine (keyword_settles .function_).after ?_
  intro _ c
  apply ident_settles.finishes.after
  intro name c
  refine (functionBody_settles settles).finishes.after ?_
  intro given c
  exact .pure trivial

theorem localVars_settles : Advances c (localVars inner) := by
  refine (keyword_settles .local_).clash (L := (· = .ident)) ?_ (by simp)
  intro _ c
  apply (commaSeparated_settles (by simp) fun _ => binder_settles).after
  intro names c
  apply (eatSymbol_settles .eq).finishes.after
  intro given c
  apply (exprs_settles settles).optional
  intro values c
  exact .pure trivial

theorem returnStmt_finishes : Finishes c (returnStmt inner) := by
  apply spanned_settles
  apply (keyword_settles .return_).finishes.after
  intro _ c
  apply peek_settles
  apply isAt_settles
  apply (exprs_settles settles).ruledOut
  intro values c
  exact .pure trivial

theorem compound_finishes (op : BinaryOp) (target : Expr) :
    Finishes c (compound inner op target) := by
  apply (advance_settles rfl).finishes.after
  intro _ c
  apply (checkAssignable_settles target).after
  intro _ c
  apply (expr_settles settles).finishes.after
  intro value c
  exact .pure trivial

theorem assignment_finishes (first : Expr) : Finishes c (assignment inner first) := by
  apply (eatSymbol_settles .comma).finishes.after
  intro further c
  have target (c : Cursor) : Rests c (· = .ident) (suffixed inner) :=
    (suffixed_settles settles).mono fun _ holds => holds.1
  apply (commaSeparated_settles (by simp) target).optional
  intro more c
  apply (checkAll_settles _).after
  intro _ c
  apply (symbol_settles .eq).finishes.after
  intro _ c
  apply (exprs_settles settles).finishes.after
  intro values c
  exact .pure trivial

theorem exprStmt_settles : Advances c (exprStmt inner) := by
  apply (suffixed_settles settles).bind
  · intro first c' _
    apply peek_settles
    split
    · exact compound_finishes settles _ first
    · apply Settles.ite
      · exact assignment_finishes settles first
      · exact .ite (.pure trivial) (.fail (by simp) _)
  · rintro first ⟨past, notCall⟩
    apply peek_settles
    simp only [past.kind, notCall]
    exact .fail (by simp) _

theorem statement_settles : Rests c (·.repeats = true) (statement inner) := by
  apply spanned_settles
  apply peek_settles
  split
  · exact (doBlock_settles settles).advances
  · exact (whileLoop_settles settles).advances
  · exact (repeatLoop_settles settles).advances
  · exact (conditional_settles settles).advances
  · exact (forLoop_settles settles).advances
  · exact (function_settles settles).advances
  · apply peekSecond_settles
    exact .ite (localFunction_settles settles).advances (localVars_settles settles).advances
  · rename_i seen
    exact (token_settles seen _).mono fun _ past => past.mono (by rintro _ rfl; rfl)
  · rename_i seen
    exact (token_settles seen _).mono fun _ past => past.mono (by rintro _ rfl; rfl)
  · exact (exprStmt_settles settles).advances

theorem nextStatement_settles : Fades c (nextStatement inner) := by
  refine semicolons_settles.anyway (R := fun c (s? : Option Stmt) => s?.isSome → c.Stuck) ?_
  intro _ c
  apply peek_settles
  apply Settles.ite
  · exact .pure nofun
  · refine ((statement_settles settles).after fun s c => .pure trivial).mono ?_
    intro _ stuck _
    exact stuck

theorem block_finishes : Finishes c (block inner) := by
  apply (many_settles fun _ => nextStatement_settles settles).after
  intro body c
  apply isAt_settles
  apply Settles.ite
  · apply (returnStmt_finishes settles).after
    intro last c
    apply (eatSymbol_settles .semicolon).finishes.after
    intro _ c
    exact .pure trivial
  · exact .pure trivial

theorem Level.Settles.above : (Level.above inner).Settles where
  operators _ := operators_settles settles
  block _ := block_finishes settles
  elseif _ := spanned_settles (conditional_settles settles)

end

theorem Level.settles_free (levels : Nat) : (Level.free levels).Settles := by
  induction levels with
  | zero =>
    have tooDeep : Fault.tooDeep ≠ .stalled := by simp
    exact ⟨fun _ _ => .fail_here tooDeep, fun _ => .fail_here tooDeep, fun _ => .fail_here tooDeep⟩
  | succ levels ih => exact ih.above

/-- Where the cursor is stuck, one of the repetitions goes on without moving. -/
theorem goesOn_of_stuck (inner : Level) (stuck : c.Stuck) :
    (eatSymbol .semicolon).runOn c = (.ok true, c) ∨
    (∃ s, (nextStatement inner).runOn c = (.ok (some s), c)) ∨
    ∀ start object, ∃ e, (suffix inner start object).runOn c = (.ok (some e), c) := by
  obtain ⟨rest, kind⟩ := stuck
  rcases c with ⟨previous?, tokens, left, ⟨last, span, text⟩, depth, counted⟩
  obtain rfl : tokens = [] := rest
  obtain rfl : left = 0 := counted
  obtain rfl | rfl | rfl | rfl | rfl := (Kind.repeats_iff last).mp kind
  · exact .inl rfl
  · exact .inr (.inl (by cases previous? <;> exact ⟨_, rfl⟩))
  · exact .inr (.inl (by cases previous? <;> exact ⟨_, rfl⟩))
  · exact .inr (.inr fun start object => by cases previous? <;> exact ⟨_, rfl⟩)
  · exact .inr (.inr fun start object => by cases previous? <;> exact ⟨_, rfl⟩)

end Grammar

namespace Parser

theorem chunkReader_fails {c : Cursor} (ahead : ∀ token ∈ c.rest, token.kind ≠ .eof)
    (final : c.final.kind ≠ .eof) :
    ∃ e c', chunkReader.runOn c = (.error e, c') ∧ c'.final = c.final ∧
      (e.fault = .stalled → c'.Stuck) := by
  have rejected {c' : Cursor} (fewer : c'.rest <:+ c.rest) (same : c'.final = c.final) :
      (expect .eof).runOn c' =
        (.error ⟨.unexpected (.token .eof) c'.current.kind, c'.current.span⟩, c') := by
    rw [runOn_expect, if_neg]
    unfold Cursor.current
    cases rest : c'.rest with
    | nil => simpa [same] using final
    | cons token tokens => exact ahead token (fewer.subset (by simp [rest]))
  have block := (Grammar.Level.settles_free maxNesting).block c
  unfold Finishes Settles at block
  unfold chunkReader Grammar.chunk
  generalize ran : Machine.runOn _ c = result at block
  cases block with
  | @moved result c' further sound =>
    cases result with
    | error e => exact ⟨e, c', Machine.runOn_bind_error _ ran, further.final, sound e rfl⟩
    | ok body =>
      rw [Machine.runOn_bind_ok _ ran,
        Machine.runOn_bind_error _ (rejected further.ahead further.final)]
      exact ⟨_, c', rfl, further.final, nofun⟩
  | @stood result _ sound =>
    cases result with
    | error e => exact ⟨e, c, Machine.runOn_bind_error _ ran, rfl, sound e rfl⟩
    | ok body =>
      rw [Machine.runOn_bind_ok _ ran,
        Machine.runOn_bind_error _ (rejected (List.suffix_refl _) rfl)]
      exact ⟨_, c, rfl, rfl, nofun⟩

section

variable (sourceLength : Nat) {tokens : List Token} (nonempty : tokens ≠ [])
  (unended : ∀ token ∈ tokens, token.kind ≠ .eof)

include nonempty unended

theorem chunk_fails :
    ∃ e p', (ofTokens sourceLength tokens).chunk = (.error e, p') ∧
      (e.fault = .stalled → p'.cursor.Stuck ∧ p'.cursor.current = tokens.getLast nonempty) := by
  cases found : tokens.find? (·.kind = .error) with
  | some bad =>
    simp only [chunk, ofTokens, found]
    exact ⟨_, _, rfl, by simp⟩
  | none =>
    have last : (Cursor.start sourceLength tokens).final = tokens.getLast nonempty := by
      simp [Cursor.start, List.getLast?_eq_some_getLast nonempty]
    obtain ⟨e, c', ran, final, sound⟩ := chunkReader_fails (c := .start sourceLength tokens) unended
      (last ▸ unended _ (List.getLast_mem nonempty))
    refine ⟨e, ⟨tokens, c'⟩, ?_, ?_⟩
    · rw [chunk_eq_run rfl found, run, ofTokens, ran]
    · intro stalled
      have stuck := sound stalled
      refine ⟨stuck, ?_⟩
      rw [Cursor.current, stuck.rest, ← last, ← final]
      rfl

/-- Where reading the tokens stalls, the parser stands before a repetition that goes on for ever: it
    takes what it took, without moving. -/
theorem goesOn_of_stalled {span : Span} {p' : Parser}
    (stalled : (ofTokens sourceLength tokens).chunk = (.error ⟨.stalled, span⟩, p')) :
    (eatSymbol .semicolon).runOn p'.cursor = (.ok true, p'.cursor) ∨
    (∃ s, (Grammar.nextStatement .outermost).runOn p'.cursor = (.ok (some s), p'.cursor)) ∨
    ∀ start object, ∃ e,
      (Grammar.suffix .outermost start object).runOn p'.cursor = (.ok (some e), p'.cursor) := by
  obtain ⟨e, _, ran, sound⟩ := chunk_fails sourceLength nonempty unended
  obtain ⟨same, rfl⟩ := Prod.mk.inj (stalled.symm.trans ran)
  obtain rfl := Except.error.inj same
  exact Grammar.goesOn_of_stuck .outermost (sound rfl).1

end

/-- Tokens without an end marker are never accepted. They are rejected with an error of the grammar,
    unless the last one is a semicolon, `break`, `continue` or a string, which a repetition may take
    for ever. -/
theorem chunk_without_end (sourceLength : Nat) (tokens : List Token) (some : tokens ≠ [])
    (unended : ∀ token ∈ tokens, token.kind ≠ .eof) :
    ∃ e, (ofTokens sourceLength tokens).chunk.1 = .error e ∧
      (e.fault = .stalled → (tokens.getLast some).kind.repeats = true) := by
  obtain ⟨e, p', ran, sound⟩ := chunk_fails sourceLength some unended
  refine ⟨e, congrArg Prod.fst ran, ?_⟩
  intro stalled
  obtain ⟨stuck, seen⟩ := sound stalled
  exact seen ▸ stuck.kind

/-- One name, which is no statement. -/
theorem chunk_without_end_name :
    ∃ e, (ofTokens 1 [⟨.ident, ⟨0, 1⟩, "f"⟩]).chunk.1 = .error e ∧
      (e.fault = .stalled → Kind.ident.repeats = true) :=
  chunk_without_end 1 [⟨.ident, ⟨0, 1⟩, "f"⟩] (by simp) (by simp)

/-- One semicolon, which any number of rounds only takes again. -/
theorem chunk_without_end_semicolon :
    let tokens : List Token := [⟨.symbol .semicolon, ⟨0, 1⟩, ";"⟩]
    (ofTokens 1 tokens).chunk.1 = .error ⟨.stalled, ⟨0, 1⟩⟩ ∧
    ∀ fuel, ((rounds (fun _ => do
      if ← eatSymbol .semicolon then return .again () else return .done ()) fuel ()).runOn
        (Cursor.start 1 tokens).advance).1 = .error ⟨.stalled, ⟨0, 1⟩⟩ := by
  refine ⟨rfl, fun fuel => congrArg Prod.fst (rounds_endless ?_ fuel ())⟩
  exact fun _ => ⟨(), rfl⟩

end Parser

end LuaSearch
