import LuaSearch.Proofs.Match.Halt
import LuaSearch.Proofs.Match.Simulation

/-!
What the policy that discards leaves in a session. A scan that fails or finds nothing leaves the
captures as they were; a scan that finds the template adds what the comparisons of that one
alignment record, and nothing of the runs, comparisons and nested searches before it.
-/
namespace LuaSearch

theorem comparePairs_of_occursAt {template : List Stmt} {block : Block} {start : Nat}
    (occurs : OccursAt template block start) (options : Options) :
    (Walk.comparePairs (block.drop start) template).runOn (Session.new template options) =
      (.ok true, (Session.new template options).record (alignedCaptures template block start)) := by
  have ready : Ready template options options.maxDepth (Session.new template options) :=
    ⟨rfl, rfl, rfl⟩
  have holds : (Compare.stmtPairs (block.drop start) template).holds = true := by
    rw [Compare.stmtPairs_holds, List.all_eq_true]
    exact ((occursAt_iff_alignment template block start).mp occurs).2
  rw [performs_comparePairs (block.drop start) template _ ready]
  simp only [Outcome.ofComparison, holds, Compare.stmtPairs_captures holds]
  rfl

/-- A scan under the policy that discards, in any session: the depth is as before; without a match
    so are the captures; with a match there is one place where the search halts, and what the n
    comparisons of the alignment there record on a fresh session is added. -/
theorem scan_discard_exact (session : Session) (chunk : Block)
    (discard : session.options.captures = .discard) :
    let answer := ((Walk.scan chunk).runOn session).1
    let after := ((Walk.scan chunk).runOn session).2
    let fresh := Session.new session.template session.options
    let HaltsAt := Halts session.template session.options
      (session.options.maxDepth - session.depth) chunk
    after.depth = session.depth ∧
    ((answer = .ok .noMatch ∨ ∃ e, answer = .error e) → after.captures = session.captures) ∧
    (∀ verdict, answer = .ok verdict → verdict.isMatch = true →
      ∃ path block start added,
        HaltsAt path block start ∧
        (∀ path' block' start', HaltsAt path' block' start' →
          path' = path ∧ block' = block ∧ start' = start) ∧
        Reached chunk path block ∧ OccursAt session.template block start ∧
        verdict = Verdict.ofSite path start session.template.length ∧
        (Walk.comparePairs (block.drop start) session.template).runOn fresh =
          (.ok true, fresh.record added) ∧
        after.captures = session.captures ++ added) := by
  have reports := levels_halts session.template session.options
    (session.options.maxDepth - session.depth) chunk
  rw [scan_runOn session chunk]
  generalize given : Scan.levels session.template session.options
    (session.options.maxDepth - session.depth) chunk = outcome at reports
  refine ⟨rfl, ?_, ?_⟩
  · intro unmatched
    cases reports with
    | failed clean => simp [Session.record, clean discard]
    | missed _ clean => simp [Session.record, clean discard]
    | @matched path _ _ _ site recorded => cases path <;> simp at unmatched
  · intro verdict answer isMatch
    cases reports with
    | failed clean => contradiction
    | missed _ clean =>
      obtain rfl := Except.ok.inj answer
      contradiction
    | @matched path block start _ site recorded =>
      obtain rfl := Except.ok.inj answer
      obtain ⟨reached, occurs⟩ := halts_reached site
      refine ⟨path, block, start, _, site, ?_, reached, occurs, rfl,
        comparePairs_of_occursAt occurs _, ?_⟩
      · intro path' block' start' other
        exact halts_unique other site
      · simp [Session.record, recorded discard]

/-- One level down, with a name already held: the run that begins at `x` breaks and leaves no
    trace, the one that begins at `y` is complete. -/
theorem scan_discard_exact_restart :
    let span : Span := default
    let declares (name? : Option String) : Stmt := .localVars span [⟨span, name?⟩] []
    let session : Session := ⟨[declares none, .breakStmt span], ⟨.greedy, .discard, 3⟩,
      .ofExpr (.ident span "held"), 1⟩
    let chunk : Block := [declares (some "x"), declares (some "y"), .breakStmt span]
    session.options.captures = .discard ∧
      ((Walk.scan chunk).runOn session).1 = .ok (.found 1 3) ∧
      ∃ added, ((Walk.scan chunk).runOn session).2.captures = session.captures ++ added := by
  intro span declares session chunk
  have discard : session.options.captures = .discard := rfl
  have answer : ((Walk.scan chunk).runOn session).1 = .ok (.found 1 3) := rfl
  obtain ⟨_, _, matched⟩ := scan_discard_exact session chunk discard
  obtain ⟨path, block, start, added, _, _, _, _, _, _, captures⟩ := matched (.found 1 3) answer rfl
  exact ⟨discard, answer, added, captures⟩

end LuaSearch
