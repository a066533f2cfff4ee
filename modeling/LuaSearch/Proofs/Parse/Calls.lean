import LuaSearch.Proofs.Parse.Forward

/-!
Calls on one parser, one after another. Each starts where the one before it stopped, whether that
one gave a tree or failed. A call goes forward and comes to an end, and all that it leaves behind is
the place that it reached: the counter of levels is back at zero, and the next call gives what a new
parser gives that has only the tokens from there on.
-/
namespace LuaSearch

open Parse

inductive Call where
  | expr
  | chunk
  deriving DecidableEq, Repr

namespace Parser

def position (p : Parser) : Nat := p.tokens.length - p.cursor.left

def call (p : Parser) : Call → Except SyntaxError (Expr ⊕ Block) × Parser
  | .expr => p.expr.map (Except.map .inl) id
  | .chunk => p.chunk.map (Except.map .inr) id

def after (p : Parser) (calls : List Call) : Parser :=
  calls.foldl (fun p call => (p.call call).2) p

def behind (source : String) (taken : Nat) : Parser := ⟨tokenize source, .behind source taken⟩

def fresh (source : String) (skipped : Nat) : Parser :=
  ofTokens source.utf8ByteSize ((tokenize source).drop skipped)

theorem depth_behind (source : String) (taken : Nat) : (behind source taken).depth = 0 :=
  Cursor.depth_behind source taken

theorem position_behind {source : String} {taken : Nat}
    (inside : taken ≤ (tokenize source).length) : (behind source taken).position = taken := by
  simp only [position, behind, Cursor.left_behind]
  omega

end Parser

section

variable {source : String} {start : Nat} (inside : start ≤ (tokenize source).length)

include inside

theorem Parser.expr_behind :
    ∃ result stop, (behind source start).expr = (result, behind source stop) ∧
      Went source start stop result ∧ (start < stop → stop < (tokenize source).length) ∧
      ∀ e, result = .ok e → start < stop := by
  obtain ⟨result, stop, ran, went, before, moved⟩ :=
    (Grammar.Level.goesForward_ofNat source (maxNesting + 1)).expr.fresh start inside
  refine ⟨result, stop, ?_, went, before, fun e given => moved e given trivial⟩
  rw [← Grammar.Level.outermost] at ran
  simp only [Parser.expr, Parser.run, behind, ran]

/-- The block stops before the end marker or is past it already. In either case what is left is
    nothing once the end marker was asked for. -/
theorem Parser.outermost_behind :
    ∃ result stop, (Grammar.chunk .outermost).runOn (.behind source start) =
        (result, .behind source stop) ∧
      Went source start stop result ∧ (∀ b, result = .ok b → stop = (tokenize source).length) ∧
      ∀ e, result = .error e → start < stop → stop < (tokenize source).length := by
  obtain ⟨result, stop, ran, went, before, _⟩ :=
    (Grammar.Level.goesForward_ofNat source (maxNesting + 1)).block.fresh start inside
  rw [← Grammar.Level.outermost] at ran
  obtain ⟨finished, forward, within⟩ := went
  rw [Grammar.chunk]
  cases result with
  | error e =>
    rw [Machine.runOn_bind_error _ ran]
    exact ⟨.error e, stop, rfl, ⟨.error (finished e rfl), forward, within⟩, by simp,
      fun _ _ => before⟩
  | ok body =>
    rw [Machine.runOn_bind_ok _ ran]
    have expected := runOn_expect .eof (.behind source stop)
    by_cases ends : (Cursor.behind source stop).current.kind = .eof
    · rw [if_pos ends, Cursor.advance_behind_of_end within ((Cursor.isEnd_behind _ _).mp ends)]
        at expected
      rw [Machine.runOn_bind_ok _ expected]
      exact ⟨.ok body, _, rfl, ⟨.ok body, inside, Nat.le_refl _⟩, fun _ _ => rfl, by simp⟩
    · rw [if_neg ends] at expected
      rw [Machine.runOn_bind_error _ expected]
      exact ⟨_, stop, rfl, ⟨.error (by simp), forward, within⟩, by simp, fun _ _ => before⟩

theorem Parser.chunk_behind :
    ∃ result stop, (behind source start).chunk = (result, behind source stop) ∧
      Went source start stop result ∧ (∀ b, result = .ok b → stop = (tokenize source).length) ∧
      ∀ e, result = .error e → start < stop → stop < (tokenize source).length := by
  rw [Parser.chunk]
  split
  · -- An error token is reported before anything is read.
    exact ⟨_, start, rfl, ⟨.error (by simp), Nat.le_refl _, inside⟩, by simp,
      fun _ _ moved => absurd moved (Nat.lt_irrefl _)⟩
  · obtain ⟨result, stop, ran, facts⟩ := Parser.outermost_behind inside
    refine ⟨result, stop, ?_, facts⟩
    simp only [Parser.run, behind, ran]

theorem Parser.call_behind (call : Call) :
    ∃ result stop, (behind source start).call call = (result, behind source stop) ∧
      Went source start stop result := by
  cases call with
  | expr =>
    obtain ⟨result, stop, ran, went, _⟩ := Parser.expr_behind inside
    refine ⟨result.map .inl, stop, ?_, went.map _⟩
    simp only [Parser.call, ran, Prod.map, id]
  | chunk =>
    obtain ⟨result, stop, ran, went, _⟩ := Parser.chunk_behind inside
    refine ⟨result.map .inr, stop, ?_, went.map _⟩
    simp only [Parser.call, ran, Prod.map, id]

theorem Parser.after_behind (calls : List Call) :
    ∃ stop ≤ (tokenize source).length, (behind source start).after calls = behind source stop := by
  induction calls generalizing start with
  | nil => exact ⟨start, inside, rfl⟩
  | cons call calls ih =>
    obtain ⟨result, middle, ran, went⟩ := Parser.call_behind inside call
    obtain ⟨stop, within, rest⟩ := ih went.inside
    refine ⟨stop, within, ?_⟩
    rw [← rest, Parser.after, List.foldl_cons, ran]
    rfl

end

theorem Parser.after_ofSource (source : String) (calls : List Call) :
    ∃ stop ≤ (tokenize source).length, (ofSource source).after calls = behind source stop :=
  Parser.after_behind (Nat.zero_le _) calls

/-- Reading goes forward and comes to an end. In a source, expressions, statements and every round
    of repetition take a token, at any place and with any number of levels, and neither they nor
    blocks take the end marker. Whatever was called before, a call ends by itself, not before its
    start and not behind the last token; with an expression it has taken a token but not the end
    marker, and with a whole text it has taken all tokens. -/
theorem parsing_goes_forward (source : String) :
    (∀ levels, (Grammar.Level.ofNat levels).GoesForward source) ∧
    ∀ calls : List Call,
      let p := (Parser.ofSource source).after calls
      let count := (tokenize source).length
      p = .behind source p.position ∧
      (∀ call, Went source p.position (p.call call).2.position (p.call call).1) ∧
      (∀ e, p.expr.1 = .ok e → p.position < p.expr.2.position) ∧
      (p.position < p.expr.2.position → p.expr.2.position < count) ∧
      (∀ body, p.chunk.1 = .ok body → p.chunk.2.position = count) ∧
      ∀ e, p.chunk.1 = .error e → p.position < p.chunk.2.position → p.chunk.2.position < count := by
  refine ⟨Grammar.Level.goesForward_ofNat source, ?_⟩
  intro calls p count
  obtain ⟨start, inside, here⟩ := Parser.after_ofSource source calls
  obtain ⟨exprResult, exprStop, exprRan, exprWent, exprBefore, exprMoved⟩ :=
    Parser.expr_behind inside
  obtain ⟨chunkResult, chunkStop, chunkRan, chunkWent, chunkAll, chunkBefore⟩ :=
    Parser.chunk_behind inside
  have p_eq : p = .behind source start := here
  rw [p_eq, Parser.position_behind inside, exprRan, chunkRan,
    Parser.position_behind exprWent.inside, Parser.position_behind chunkWent.inside]
  refine ⟨rfl, ?_, exprMoved, exprBefore, chunkAll, chunkBefore⟩
  intro call
  obtain ⟨result, stop, ran, went⟩ := Parser.call_behind inside call
  rw [ran, Parser.position_behind went.inside]
  exact went

/-- A call that stops behind the braces, and one that reads the rest. -/
theorem parsing_goes_forward_twice :
    let p := (Parser.ofSource "f { 1 } g()").after [.expr]
    p.position = 4 ∧ ∃ body, p.chunk.1 = .ok body ∧ p.chunk.2.position = 8 := by
  intro p
  obtain ⟨_, calls⟩ := parsing_goes_forward "f { 1 } g()"
  obtain ⟨_, _, _, _, whole, _⟩ := calls [.expr]
  have read : p.chunk.1.isOk := by decide +kernel
  cases given : p.chunk.1 with
  | error e =>
    rw [given] at read
    cases read
  | ok body =>
    exact ⟨by decide +kernel, body, rfl, (whole body given).trans (by decide +kernel)⟩

/-- A new parser over the tokens that are left is at the same place, though it has taken none. -/
theorem Cursor.samePlace_fresh (source : String) (taken : Nat) :
    (behind source taken).SamePlace (Parser.fresh source taken).cursor where
  rest := rest_behind source taken
  final := by
    obtain ⟨front, split, _⟩ := tokenize_ends source
    rw [final_behind]
    simp only [Parser.fresh, Parser.ofTokens, Cursor.start, List.getLast?_drop]
    split
    · rfl
    · simp [split]
  depth := depth_behind source taken

theorem Parser.expr_fresh (source : String) {taken : Nat}
    (inside : taken ≤ (tokenize source).length) :
    (behind source taken).expr.1 = (fresh source taken).expr.1 ∧
      (behind source taken).expr.2.position = taken + (fresh source taken).expr.2.position := by
  have ended := Cursor.ended_behind source taken
  have same := Cursor.samePlace_fresh source taken
  have before := Cursor.left_behind source taken
  have after : (fresh source taken).cursor.left = (tokenize source).length - taken :=
    same.left.symm.trans before
  have stepped := (Grammar.Level.steps_ofNat (maxNesting + 1)).operators 0 ended same
  rw [← Grammar.Level.outermost] at stepped
  simp only [Parser.expr, Grammar.expr, Parser.run, position, behind]
  generalize Machine.runOn _ (Cursor.behind source taken) = ran at stepped ⊢
  generalize Machine.runOn _ (fresh source taken).cursor = again at stepped ⊢
  have count : (fresh source taken).tokens.length = (tokenize source).length - taken :=
    List.length_drop
  rw [count]
  cases stepped with
  | @taken result c' further finished =>
    have shorter := further.shorter
    refine ⟨rfl, ?_⟩
    simp only
    omega
  | still free finished =>
    refine ⟨rfl, ?_⟩
    simp only
    omega

/-- Nothing but the position is kept from one call to the next. After every call, however it ended,
    the counter of levels is at zero. And whatever was called before, an expression is read as by a
    new parser that has only the tokens from the position on: with the same tree and the same spans,
    or the same fault at the same place, and with as many tokens taken. -/
theorem calls_keep_only_position (source : String) (calls : List Call) :
    let p := (Parser.ofSource source).after calls
    let fresh := Parser.fresh source p.position
    p = .behind source p.position ∧ p.depth = 0 ∧ (∀ call, (p.call call).2.depth = 0) ∧
    p.expr.1 = fresh.expr.1 ∧ p.expr.2.position = p.position + fresh.expr.2.position := by
  intro p fresh
  obtain ⟨taken, inside, here⟩ := Parser.after_ofSource source calls
  have p_eq : p = .behind source taken := here
  have fresh_eq : fresh = .fresh source taken := by
    rw [← Parser.position_behind inside, ← p_eq]
  rw [fresh_eq, p_eq, Parser.position_behind inside]
  refine ⟨rfl, Parser.depth_behind source taken, ?_, Parser.expr_fresh source inside⟩
  intro call
  obtain ⟨result, stop, ran, _⟩ := Parser.call_behind inside call
  rw [ran]
  exact Parser.depth_behind source stop

/-- A call that fails two levels in, at the second of two names. -/
example :
    let p := (Parser.ofSource "f(-(a b .. c").after [.expr]
    p.position = 5 ∧ p.depth = 0 ∧ p.expr.2.position = 8 := by
  decide +kernel

end LuaSearch
