import LuaSearch.Proofs.Match.Independence

/-!
The template without statements. It is refused where a template is made, but a session can be
opened with it. The greedy pass asks for a first statement of the template and finds nothing when
there is none. The exhaustive pass has no such test: at the first statement of a block nothing is
left to compare, so every block with a statement is a match at its front, and a function literal
with such a body is a match in an expression. In either mode nothing is compared, so nothing is
recorded; and a block past the depth limit is an error as for any other template.
-/
namespace LuaSearch

def Options.meetsEmpty (options : Options) (block : Block) : Bool :=
  options.scan = .exhaustive && !block.isEmpty

theorem levels_empty_succ (options : Options) (left : Nat) (block : Block) :
    Scan.levels [] options (left + 1) block =
      pure (if options.meetsEmpty block then .found 0 0 else .noMatch) := by
  obtain ⟨mode, policy, limit⟩ := options
  cases mode with
  | greedy => rfl
  | exhaustive =>
    cases block with
    | nil => rfl
    | cons s rest => rfl

theorem levels_empty (options : Options) (left : Nat) (block : Block) :
    Scan.levels [] options left block =
      if 0 < left then pure (if options.meetsEmpty block then .found 0 0 else .noMatch)
      else .fail (.depthExceeded options.maxDepth) := by
  cases left with
  | zero => rfl
  | succ left => rw [levels_empty_succ, if_pos (Nat.succ_pos left)]

theorem inAny_empty (options : Options) (left : Nat) (bodies : List Block) :
    Scan.inAny (Scan.levels [] options left) bodies =
      if 0 < left ∨ bodies = [] then pure (bodies.any options.meetsEmpty)
      else .fail (.depthExceeded options.maxDepth) := by
  induction bodies with
  | nil => simp [Scan.inAny]
  | cons body bodies ih =>
    rw [Scan.inAny, Scan.matchesIn, levels_empty, ih]
    by_cases room : 0 < left
    · cases meets : options.meetsEmpty body <;> simp [room, meets, Verdict.isMatch]
    · simp [room, Outcome.fail]

theorem ask_of_outcome {session : Session} {question : Question}
    {answer : Except MatchError Answer} (given : session.outcome question = ⟨answer, ∅⟩) :
    session.ask question = (answer, session) := by
  rw [ask_eq, given, Session.record_empty]

/-- Searching for the template without statements, in any session that was opened with it, whatever
    the session holds and however deep it is. A block is a match at its front if the mode is
    exhaustive and the block has a statement, and none otherwise; expressions hold a match if the
    body of one of their function literals is such a block. Where a block has to be entered and no
    level is left, the answer is the error of the depth limit. The session is left as it was,
    captures included. -/
theorem empty_template_answers (session : Session) (empty : session.template = []) :
    let options := session.options
    let room := session.depth < options.maxDepth
    let tooDeep := MatchError.depthExceeded options.maxDepth
    (∀ chunk, session.ask (.scan chunk) =
      (if room then .ok (.verdict (if options.meetsEmpty chunk then .found 0 0 else .noMatch))
        else .error tooDeep, session)) ∧
    ∀ es, session.ask (.traverse es) =
      (if room ∨ Literals.exprs es = [] then
          .ok (.flag ((Literals.exprs es).any options.meetsEmpty))
        else .error tooDeep, session) := by
  intro options room tooDeep
  have levels : 0 < options.maxDepth - session.depth ↔ room := Nat.sub_pos_iff_lt
  constructor
  · intro chunk
    apply ask_of_outcome
    rw [Session.outcome, Question.outcome, empty, levels_empty]
    by_cases inside : room
    · rw [if_pos (levels.mpr inside), if_pos inside]
      rfl
    · rw [if_neg (mt levels.mp inside), if_neg inside]
      rfl
  · intro es
    apply ask_of_outcome
    have levels := or_congr_left (c := Literals.exprs es = []) levels
    rw [Session.outcome, Question.outcome, empty, Scan.traverse_eq_inAny, inAny_empty]
    by_cases inside : room ∨ Literals.exprs es = []
    · rw [if_pos (levels.mpr inside), if_pos inside]
      rfl
    · rw [if_neg (mt levels.mp inside), if_neg inside]
      rfl

/-- A session that holds a capture and is one level deep: the greedy mode finds nothing in a block
    with a loop and nothing in a function literal, and keeps what it holds. -/
theorem empty_template_answers_greedy :
    let session : Session :=
      ⟨[], ⟨.greedy, .discard, 2⟩, ⟨[.number ⟨0, 1⟩ "1"], []⟩, 1⟩
    let body : Block := [.breakStmt ⟨9, 14⟩]
    session.template = [] ∧
      session.ask (.scan [.doBlock ⟨6, 18⟩ body]) = (.ok (.verdict .noMatch), session) ∧
      session.ask (.traverse [.function ⟨0, 18⟩ ⟨[], false⟩ body]) =
        (.ok (.flag false), session) := by
  intro session body
  obtain ⟨scans, traverses⟩ := empty_template_answers session rfl
  exact ⟨rfl, scans _, traverses _⟩

/-- The exhaustive mode finds the template without statements in front of one statement, and in the
    function literal that has the statement for its body. -/
theorem empty_template_found :
    let session := Session.new [] ⟨.exhaustive, .retain, defaultMaxDepth⟩
    let block : Block := [.breakStmt ⟨0, 5⟩]
    session.ask (.scan block) = (.ok (.verdict (.found 0 0)), session) ∧
      session.ask (.traverse [.function ⟨0, 18⟩ ⟨[], false⟩ block]) =
        (.ok (.flag true), session) :=
  ⟨rfl, rfl⟩

end LuaSearch
