import LuaSearch.Match.Session
import LuaSearch.Proofs.Match.Greedy

/-!
A walk over a session does what the outcome of the search says: it gives the answer, adds the
captures to those already held, and leaves the rest of the session as it was. The work is in the
marks. A run in progress has its captures recorded already, so between two statements the session
is the one before the run with the captures of the run on top; going back to the mark of the run
takes exactly these away. The mark taken at the entry of a block is used last: under the policy
that discards nothing is left on top of it by then.
-/
namespace LuaSearch

/-- A session for the search, in which that many levels are left. -/
structure Ready (template : List Stmt) (options : Options) (left : Nat) (session : Session) :
    Prop where
  template_eq : session.template = template
  options_eq : session.options = options
  left_eq : left = options.maxDepth - session.depth

/-- The walk does what the outcome says. -/
def Performs {α : Type} (template : List Stmt) (options : Options) (left : Nat) (walk : Walk α)
    (outcome : Outcome α) : Prop :=
  ∀ session, Ready template options left session →
    walk.runOn session = (outcome.answer, session.record outcome.captures)

variable {template : List Stmt} {options : Options} {left : Nat} {session : Session}

theorem Ready.record (ready : Ready template options left session) (captures : Captures) :
    Ready template options left (session.record captures) :=
  ⟨ready.template_eq, ready.options_eq, ready.left_eq⟩

theorem performs_pure {α : Type} (a : α) :
    Performs template options left (pure a) (pure a) := by
  intro session ready
  simp

theorem performs_bind {α β : Type} {walk : Walk α} {outcome : Outcome α} {next : α → Walk β}
    {follow : α → Outcome β} (first : Performs template options left walk outcome)
    (second : ∀ a, Performs template options left (next a) (follow a)) :
    Performs template options left (walk >>= next) (outcome >>= follow) := by
  intro session ready
  have ran := first session ready
  rcases outcome with ⟨e | a, before⟩
  · rw [Machine.runOn_bind_error next ran]
    simp
  · rw [Machine.runOn_bind_ok next ran, second a _ (ready.record before)]
    simp

theorem performs_compare (c : Comparison) :
    Performs template options left (Walk.compare c) (Outcome.ofComparison c) := by
  intro session ready
  rfl

theorem performs_comparePairs (ss ts : List Stmt) :
    Performs template options left (Walk.comparePairs ss ts)
      (Outcome.ofComparison (Compare.stmtPairs ss ts)) := by
  induction ss generalizing ts with
  | nil => cases ts <;> exact performs_pure true
  | cons s ss ih =>
    cases ts with
    | nil => exact performs_pure true
    | cons t ts =>
      have sequence : Outcome.ofComparison (Compare.stmtPairs (s :: ss) (t :: ts)) =
          (do if ← Outcome.ofComparison (Compare.stmt s t)
            then Outcome.ofComparison (Compare.stmtPairs ss ts) else return false) := by
        simp only [Compare.stmtPairs, Outcome.ofComparison, Comparison.holds_and,
          Comparison.captures_and]
        rcases Compare.stmt s t with ⟨_ | _, captures⟩ <;> simp
      rw [sequence]
      apply performs_bind (performs_compare _)
      intro holds
      cases holds with
      | true => exact ih ts
      | false => exact performs_pure false

theorem performs_window (stmts : List Stmt) :
    Performs template options left (Walk.window template stmts)
      (Outcome.ofComparison (Scan.window template stmts)) := by
  unfold Walk.window Scan.window
  split
  · exact performs_comparePairs stmts template
  · exact performs_pure false

section Inside

variable {walk : Block → Walk Verdict} {inner : Block → Outcome Verdict}

theorem performs_inOpenings
    (each : ∀ body, Performs template options left (walk body) (inner body))
    (openings : List (Scope × Block)) :
    Performs template options left (Scan.inOpenings walk openings)
      (Scan.inOpenings inner openings) := by
  induction openings with
  | nil => exact performs_pure none
  | cons opening openings ih =>
    obtain ⟨scope, body⟩ := opening
    apply performs_bind (each body)
    intro verdict
    cases verdict with
    | noMatch => exact ih
    | found => exact performs_pure _
    | nested => exact performs_pure _

theorem performs_within
    (each : ∀ body, Performs template options left (walk body) (inner body)) (s : Stmt) :
    Performs template options left (Scan.within walk s) (Scan.within inner s) := by
  rw [Scan.within_eq_inOpenings, Scan.within_eq_inOpenings]
  exact performs_inOpenings each s.openings

end Inside

def held (run? : Option Scan.Run) : Captures := (run?.map Scan.Run.captures).getD ∅

/-- The cursor follows the run, which began when the session was `base`. -/
inductive Tracks (template : List Stmt) (base : Session) :
    Option Walk.Alignment → Option Scan.Run → Prop where
  | idle : Tracks template base none none
  | running {cursor : Walk.Alignment} {run : Scan.Run} (start : cursor.start = run.start)
      (mark : cursor.mark = base.mark) (bounded : cursor.met ≤ template.length)
      (pending : run.pending = template.drop cursor.met) :
      Tracks template base (some cursor) (some run)

def Follows (template : List Stmt) (base : Session) (current : Session)
    (walk : Walk (Option Walk.Alignment)) (outcome : Outcome (Option Scan.Run)) : Prop :=
  ∃ cursor? run?, outcome.answer = .ok run? ∧
    walk.runOn current = (.ok cursor?, base.record (outcome.captures ++ held run?)) ∧
    Tracks template (base.record outcome.captures) cursor? run?

theorem extend_follows {base : Session} {cursor : Walk.Alignment} {run : Scan.Run} (s : Stmt)
    (tracks : Tracks template base (some cursor) (some run))
    (unfinished : cursor.met < template.length) :
    Follows template base (base.record run.captures) (Walk.extend template cursor s)
      (run.meet base.options.captures s) := by
  cases tracks with
  | running start mark bounded pending =>
    obtain ⟨next, wanted⟩ : ∃ t, template[cursor.met]? = some t :=
      ⟨_, List.getElem?_eq_getElem unfinished⟩
    have asks : run.pending = next :: template.drop (cursor.met + 1) := by
      obtain ⟨inside, rfl⟩ := List.getElem?_eq_some_iff.mp wanted
      rw [pending, List.drop_eq_getElem_cons inside]
    have compared : (Walk.meets template cursor.met s).runOn (base.record run.captures) =
        (.ok (Compare.stmt s next).holds,
          base.record (run.captures ++ (Compare.stmt s next).captures)) := by
      simp only [Walk.meets, wanted]
      rw [← Session.record_record]
      rfl
    unfold Walk.extend Scan.Run.meet
    simp only [asks]
    cases holds : (Compare.stmt s next).holds with
    | true =>
      refine ⟨some { cursor with met := cursor.met + 1 }, some ⟨run.start,
        run.captures ++ (Compare.stmt s next).captures, template.drop (cursor.met + 1)⟩,
        rfl, ?_, ?_⟩
      · rw [Machine.runOn_bind_ok _ compared]
        simp [holds, held]
      · exact .running start (by simp [mark]) unfinished rfl
    | false =>
      refine ⟨none, none, rfl, ?_, .idle⟩
      rw [Machine.runOn_bind_ok _ compared]
      have back := Session.discardSince_record
        (run.captures ++ (Compare.stmt s next).captures) (fun _ => mark)
      have ran : (Walk.discardSince cursor.mark).runOn
          (base.record (run.captures ++ (Compare.stmt s next).captures)) =
          (.ok (), base.record (base.options.captures.keep
            (run.captures ++ (Compare.stmt s next).captures))) := by
        rw [← back]
        rfl
      simp only [holds, Bool.false_eq_true, ↓reduceIte]
      rw [Machine.runOn_bind_ok _ ran]
      simp [held]

theorem fresh_follows (base : Session) (nonempty : template ≠ []) (index : Nat) (s : Stmt) :
    Follows template base base
      (do Walk.extend template ⟨0, index, ← Walk.mark⟩ s)
      (Scan.Run.meet base.options.captures ⟨index, ∅, template⟩ s) := by
  have tracks : Tracks template base (some ⟨0, index, base.mark⟩) (some ⟨index, ∅, template⟩) :=
    .running rfl rfl (Nat.zero_le _) rfl
  have step := extend_follows s tracks (List.length_pos_iff.mpr nonempty)
  rw [Session.record_empty] at step
  exact step

theorem align_follows {base : Session} {cursor? : Option Walk.Alignment}
    {run? : Option Scan.Run} (nonempty : template ≠ []) (index : Nat) (s : Stmt)
    (tracks : Tracks template base cursor? run?)
    (unfinished : ∀ cursor, cursor? = some cursor → cursor.met < template.length) :
    Follows template base (base.record (held run?)) (Walk.align template cursor? index s)
      (Scan.advance base.options.captures template run? index s) := by
  cases tracks with
  | idle =>
    have step := fresh_follows base nonempty index s
    rw [show base.record (held none) = base from Session.record_empty base]
    exact step
  | @running cursor run start mark bounded pending =>
    have tracks : Tracks template base (some cursor) (some run) :=
      .running start mark bounded pending
    obtain ⟨longer?, given, answer, ran, next⟩ := extend_follows s tracks (unfinished cursor rfl)
    simp only [Scan.advance, Outcome.bind_eq]
    rcases met : run.meet base.options.captures s with ⟨error | found, kept⟩
    · rw [met] at answer
      contradiction
    rw [met] at answer ran next
    obtain rfl := Except.ok.inj answer
    cases next with
    | @running longer found start mark bounded pending =>
      refine ⟨some longer, some found, rfl, ?_, ?_⟩
      · unfold Walk.align
        rw [show base.record (held (some run)) = base.record run.captures from rfl,
          Machine.runOn_bind_ok _ ran]
        simp
      · exact .running start (by simpa using mark) bounded pending
    | idle =>
      obtain ⟨cursor', run', answer', ran', tracks'⟩ :=
        fresh_follows (base.record kept) nonempty index s
      refine ⟨cursor', run', answer', ?_, ?_⟩
      · unfold Walk.align
        rw [show base.record (held (some run)) = base.record run.captures from rfl,
          Machine.runOn_bind_ok _ ran]
        simpa [held, Captures.append_assoc] using ran'
      · simpa using tracks'

section Blocks

variable {walk : Block → Walk Verdict} {inner : Block → Outcome Verdict} {entry : Mark}

theorem discardSince_entry (ready : Ready template options left session) (captures : Captures)
    (marked : options.captures = .discard → entry = session.mark) :
    (Walk.discardSince entry).runOn (session.record captures) =
      (.ok (), session.record (options.captures.keep captures)) := by
  have policy := ready.options_eq
  subst policy
  rw [← Session.discardSince_record captures marked]
  rfl

theorem mark_record_clean {kept : Captures}
    (marked : options.captures = .discard → entry = session.mark)
    (clean : options.captures = .discard → kept = ∅) :
    options.captures = .discard → entry = (session.record kept).mark := by
  intro discard
  rw [clean discard, Session.record_empty]
  exact marked discard

theorem within_follows
    (each : ∀ body, Performs template options left (walk body) (inner body))
    (reports : ∀ body, ReportsBlock template options.captures True (OccursBelow template body)
      (inner body)) (s : Stmt) {next : Walk Verdict} {follow : Outcome Verdict}
    (ready : Ready template options left session)
    (marked : options.captures = .discard → entry = session.mark)
    (rest : ∀ after, Ready template options left after →
      (options.captures = .discard → entry = after.mark) →
        next.runOn after = (follow.answer, after.record follow.captures)) :
    let outcome := (Scan.within inner s).andThen fun scope? =>
      match scope? with
      | some scope => pure (.nested scope)
      | none => follow
    Machine.runOn (do
      match ← Scan.within walk s with
      | some scope => return .nested scope
      | none => next) session = (outcome.answer, session.record outcome.captures) := by
  have ran := performs_within each s session ready
  rcases given : Scan.within inner s with ⟨error | scope?, kept⟩
  · rw [given] at ran
    rw [Machine.runOn_bind_error _ ran]
    simp
  · rw [given] at ran
    rw [Machine.runOn_bind_ok _ ran]
    cases scope? with
    | some scope => simp
    | none =>
      have clean := within_clean reports given
      have later := rest _ (ready.record kept) (mark_record_clean marked clean)
      simpa using later

theorem greedyFrom_follows
    (each : ∀ body, Performs template options left (walk body) (inner body))
    (reports : ∀ body, ReportsBlock template options.captures True (OccursBelow template body)
      (inner body))
    (nonempty : template ≠ []) (stmts : List Stmt) (index : Nat)
    {cursor? : Option Walk.Alignment} {run? : Option Scan.Run} {base : Session}
    (ready : Ready template options left base) (tracks : Tracks template base cursor? run?)
    (unfinished : ∀ cursor, cursor? = some cursor → cursor.met < template.length)
    (marked : options.captures = .discard → entry = base.mark) :
    (Walk.greedyFrom walk template entry stmts index cursor?).runOn (base.record (held run?)) =
      ((Scan.greedyFrom inner options.captures template stmts index run?).answer,
        base.record
          (Scan.greedyFrom inner options.captures template stmts index run?).captures) := by
  induction stmts generalizing index cursor? run? base with
  | nil =>
    unfold Walk.greedyFrom
    rw [Machine.runOn_bind_ok _ (discardSince_entry ready (held run?) marked)]
    simp [Scan.greedyFrom, held]
  | cons s stmts ih =>
    obtain ⟨cursor', run', answer, ran, tracks'⟩ := align_follows nonempty index s tracks unfinished
    rw [ready.options_eq] at answer ran tracks'
    have clean := advance_clean template options.captures run? index s
    simp only [Scan.greedyFrom, Outcome.bind_eq]
    unfold Walk.greedyFrom
    rw [Machine.runOn_bind_ok _ ran]
    generalize Scan.advance options.captures template run? index s = outcome at *
    obtain ⟨given, kept⟩ := outcome
    simp only at answer clean tracks' ⊢
    subst answer
    have marked' := mark_record_clean marked clean
    have ready' := ready.record kept
    rw [Outcome.andThen_ok]
    cases tracks' with
    | @running cursor run start mark bounded pending =>
      have complete : run.pending.isEmpty = true ↔ cursor.met = template.length := by
        rw [List.isEmpty_iff, pending, List.drop_eq_nil_iff]
        omega
      by_cases done : cursor.met = template.length
      · simp [done, complete.mpr done, start, held]
      · have goes : ¬ run.pending.isEmpty = true := fun all => done (complete.mp all)
        have short : ∀ same, some cursor = some same → same.met < template.length := by
          intro same eq
          obtain rfl := Option.some.inj eq
          omega
        have rest := ih (index + 1) ready' (.running start mark bounded pending) short marked'
        simpa [done, goes] using rest
    | idle =>
      have rest (after : Session) (ready : Ready template options left after)
          (marked : options.captures = .discard → entry = after.mark) :=
        ih (index + 1) ready .idle (fun _ none => by contradiction) marked
      simp only [held, Option.map_none, Option.getD_none, Session.record_empty] at rest
      have inside := within_follows each reports s ready' marked' rest
      simp only [held, Option.map_none, Option.getD_none, Captures.append_empty]
      rw [← Session.record_record]
      exact inside

theorem exhaustiveFrom_follows
    (each : ∀ body, Performs template options left (walk body) (inner body))
    (reports : ∀ body, ReportsBlock template options.captures True (OccursBelow template body)
      (inner body))
    (stmts : List Stmt) (index : Nat) (ready : Ready template options left session)
    (marked : options.captures = .discard → entry = session.mark) :
    (Walk.exhaustiveFrom walk template entry stmts index).runOn session =
      ((Scan.exhaustiveFrom inner options.captures template stmts index).answer,
        session.record
          (Scan.exhaustiveFrom inner options.captures template stmts index).captures) := by
  induction stmts generalizing index session with
  | nil =>
    have ran := discardSince_entry ready ∅ marked
    rw [Session.record_empty] at ran
    unfold Walk.exhaustiveFrom
    rw [Machine.runOn_bind_ok _ ran]
    cases options.captures <;> simp [Scan.exhaustiveFrom, CapturePolicy.keep]
  | cons s stmts ih =>
    have ran := performs_window (s :: stmts) session ready
    simp only [Scan.exhaustiveFrom]
    unfold Walk.exhaustiveFrom
    rw [Machine.runOn_bind_ok _ (Walk.runOn_mark session), Machine.runOn_bind_ok _ ran]
    generalize Scan.window template (s :: stmts) = c
    simp only [Outcome.ofComparison]
    cases c.holds with
    | true => simp
    | false =>
      have back := discardSince_entry ready c.captures (fun _ => rfl)
      have clean := keep_discard options.captures c.captures
      have inside := within_follows each reports s (ready.record _) (mark_record_clean marked clean)
        (fun after ready marked => ih (index + 1) ready marked)
      simp only [Bool.false_eq_true, ↓reduceIte, Outcome.bind_eq, Outcome.tell_andThen]
      rw [← Session.record_record, Machine.runOn_bind_ok _ back]
      exact inside

theorem scanBlock_performs
    (each : ∀ body,
      Performs template options left (walk body) (Scan.levels template options left body))
    (chunk : Block) :
    Performs template options left (Walk.scanBlock walk chunk)
      (Scan.levels template options (left + 1) chunk) := by
  intro session ready
  have reports := levels_reports template options left
  unfold Walk.scanBlock
  rw [Machine.runOn_bind_ok _ (Machine.runOn_get session)]
  simp only [ready.template_eq, ready.options_eq, Scan.levels]
  cases options.scan with
  | greedy =>
    by_cases empty : template = []
    · subst empty
      simp [Walk.greedy, Scan.greedy]
    · have walked := greedyFrom_follows each reports empty chunk 0 ready .idle
        (fun _ none => by contradiction) (fun _ => rfl)
      simp only [Walk.greedy, Scan.greedy, List.isEmpty_iff, empty, if_false]
      rw [Machine.runOn_bind_ok _ (Walk.runOn_mark session)]
      simpa [held] using walked
  | exhaustive =>
    simp only [Walk.exhaustive, Scan.exhaustive]
    rw [Machine.runOn_bind_ok _ (Walk.runOn_mark session)]
    exact exhaustiveFrom_follows each reports chunk 0 ready (fun _ => rfl)

end Blocks

/-- The walk over a block, at every depth, does what the search of the block says. -/
theorem scanWithin_performs (template : List Stmt) (options : Options) (left : Nat)
    (chunk : Block) :
    Performs template options left (Walk.scanWithin left chunk)
      (Scan.levels template options left chunk) := by
  induction left generalizing chunk with
  | zero =>
    intro session ready
    simp only [Scan.levels, Outcome.fail, Session.record_empty, ← ready.options_eq]
    rfl
  | succ left ih =>
    intro session ready
    have levels := ready.left_eq
    have room : session.depth < session.options.maxDepth := by
      rw [ready.options_eq]
      omega
    have entered : Ready template options left session.enter := by
      refine ⟨ready.template_eq, ready.options_eq, ?_⟩
      simp only [Session.enter]
      omega
    exact Walk.runOn_descend room (scanBlock_performs ih chunk _ entered)

theorem scan_runOn (session : Session) (chunk : Block) :
    let outcome := Scan.levels session.template session.options
      (session.options.maxDepth - session.depth) chunk
    (Walk.scan chunk).runOn session = (outcome.answer, session.record outcome.captures) := by
  have ready : Ready session.template session.options
      (session.options.maxDepth - session.depth) session := ⟨rfl, rfl, rfl⟩
  exact scanWithin_performs _ _ _ chunk session ready

/-- Searching a chunk is scanning it in a new session. -/
theorem find_eq_walk (candidate : Block) (template : Template) (options : Options) :
    find candidate template options =
      if options.maxDepth < template.depth then
        .error (.templateTooDeep template.depth options.maxDepth)
      else
        let (answer, after) := (Walk.scan candidate).runOn (Session.new template.stmts options)
        answer.map (⟨·, after.captures⟩) := by
  rw [scan_runOn]
  simp [find, scan, Session.new, Session.record]

end LuaSearch
