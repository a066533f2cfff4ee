import LuaSearch.Proofs.Match.Simulation

/-!
Questions asked in one session do not disturb each other. Every question is a walk that does what
an outcome says, and that outcome depends on the template, the settings and the depth alone. So
what was recorded before a question neither changes its answer nor is changed by it, and the
question leaves the depth as it found it, also where it ends with an error. Asking several
questions in turn is then asking each of them in a session of its own and joining what is
recorded.
-/
namespace LuaSearch

def Question.outcome (template : List Stmt) (options : Options) (left : Nat) :
    Question → Outcome Answer
  | scan chunk => return .verdict (← Scan.levels template options left chunk)
  | exprEqual e t => return .flag (← .ofComparison (Compare.expr e t))
  | exprsEqual es ts => return .flag (← .ofComparison (Compare.exprs es ts))
  | stmtEqual s t => return .flag (← .ofComparison (Compare.stmt s t))
  | stmtsEqual ss ts => return .flag (← .ofComparison (Compare.stmts ss ts))
  | traverse es => return .flag (← Scan.traverse (Scan.levels template options left) es)

variable {template : List Stmt} {options : Options} {left : Nat}

theorem performs_scan (chunk : Block) :
    Performs template options left (Walk.scan chunk)
      (Scan.levels template options left chunk) := by
  rintro session ⟨rfl, rfl, rfl⟩
  exact scan_runOn session chunk

theorem performs_inAny {walk : Block → Walk Verdict} {inner : Block → Outcome Verdict}
    (each : ∀ body, Performs template options left (walk body) (inner body))
    (bodies : List Block) :
    Performs template options left (Scan.inAny walk bodies) (Scan.inAny inner bodies) := by
  induction bodies with
  | nil => exact performs_pure false
  | cons body bodies ih =>
    have first : Performs template options left (Scan.matchesIn walk body)
        (Scan.matchesIn inner body) :=
      performs_bind (each body) (fun verdict => performs_pure verdict.isMatch)
    apply performs_bind first
    intro found
    cases found with
    | true => exact performs_pure true
    | false => exact ih

theorem performs_traverse (es : List Expr) :
    Performs template options left (Walk.traverse es)
      (Scan.traverse (Scan.levels template options left) es) := by
  rw [Walk.traverse, Scan.traverse_eq_inAny, Scan.traverse_eq_inAny]
  exact performs_inAny performs_scan (Literals.exprs es)

theorem performs_question (question : Question) :
    Performs template options left question.walk (question.outcome template options left) := by
  have flag (value : Bool) : Performs template options left (pure (Answer.flag value))
      (pure (Answer.flag value)) := performs_pure (Answer.flag value)
  cases question with
  | scan chunk =>
    exact performs_bind (performs_scan chunk) fun verdict =>
      performs_pure (Answer.verdict verdict)
  | exprEqual => exact performs_bind (performs_compare _) flag
  | exprsEqual => exact performs_bind (performs_compare _) flag
  | stmtEqual => exact performs_bind (performs_compare _) flag
  | stmtsEqual => exact performs_bind (performs_compare _) flag
  | traverse es => exact performs_bind (performs_traverse es) flag

def Session.outcome (session : Session) (question : Question) : Outcome Answer :=
  question.outcome session.template session.options (session.options.maxDepth - session.depth)

theorem ask_eq (session : Session) (question : Question) :
    session.ask question =
      ((session.outcome question).answer, session.record (session.outcome question).captures) :=
  performs_question question session ⟨rfl, rfl, rfl⟩

/-- One question after another: the record grows by what each of them leaves. -/
theorem askAll_eq (session : Session) (questions : List Question) :
    session.askAll questions =
      (questions.map fun q => (session.outcome q).answer,
        session.record (.join (questions.map fun q => (session.outcome q).captures))) := by
  induction questions generalizing session with
  | nil => simp [Session.askAll, Captures.join]
  | cons question rest ih =>
    -- What is asked next does not see the record: only template, settings and depth count.
    have unseen (captures : Captures) :
        (session.record captures).outcome = session.outcome := rfl
    simp only [Session.askAll, ask_eq, ih, unseen, Session.record_record, List.map_cons,
      Captures.join]

/-- Questions asked in turn, from a new session on. Each is answered as in a new session, and what
    is recorded is what each records in a new session, in order. At every moment the depth is back
    at nothing, template and settings are those given, and the next question leaves in place all
    that was recorded before it. -/
theorem askAll_independent (template : List Stmt) (options : Options)
    (questions : List Question) :
    let fresh := Session.new template options
    let answers := (fresh.askAll questions).1
    let after := (fresh.askAll questions).2
    answers = questions.map (fun q => (fresh.ask q).1) ∧
    after.captures = .join (questions.map fun q => (fresh.ask q).2.captures) ∧
    after.depth = 0 ∧ after.template = template ∧ after.options = options ∧
    ∀ next, (after.ask next).1 = (fresh.ask next).1 ∧ (after.ask next).2.depth = 0 ∧
      after.captures.exprs <+: (after.ask next).2.captures.exprs ∧
      after.captures.stmts <+: (after.ask next).2.captures.stmts := by
  intro fresh answers after
  have ran := askAll_eq fresh questions
  have recorded (q : Question) : (fresh.ask q).2.captures = (fresh.outcome q).captures := by
    rw [ask_eq]
    exact Captures.empty_append _
  refine ⟨?_, ?_, ?_, ?_, ?_, ?_⟩
  · simp only [answers, ran, ask_eq]
  · simp only [after, ran, recorded]
    exact Captures.empty_append _
  · simp only [after, ran]
    rfl
  · simp only [after, ran]
    rfl
  · simp only [after, ran]
    rfl
  · intro next
    have kept : after = fresh.record (.join (questions.map fun q => (fresh.outcome q).captures)) :=
      congrArg Prod.snd ran
    rw [ask_eq after, ask_eq fresh, kept]
    refine ⟨rfl, rfl, ?_, ?_⟩
    · exact List.prefix_append _ _
    · exact List.prefix_append _ _

end LuaSearch
