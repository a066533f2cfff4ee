import LuaSearch.Proofs.Match.Exhaustive

/-!
The greedy search is sound. A run in progress is an occurrence of the front of the template, from
the start of the run up to the statement reached; each statement makes it longer by one, breaks
it, or starts a new one. So a complete run is an occurrence. Completeness is not claimed: a greedy
search may miss what an exhaustive one finds, never the other way round.
-/
namespace LuaSearch

def OccursBelow (template : List Stmt) (chunk : Block) (path : List Scope) (block : Block)
    (start : Nat) : Prop :=
  Reached chunk path block ∧ OccursAt template block start

namespace Captures

theorem join_append (as bs : List Captures) : join (as ++ bs) = join as ++ join bs := by
  induction as with
  | nil => simp [join]
  | cons a as ih => simp [join, ih, append_assoc]

end Captures

variable {template : List Stmt} {policy : CapturePolicy} {block : Block}

theorem alignment_take_succ {start k : Nat} {s t : Stmt} (candidate : block[start + k]? = some s)
    (wanted : template[k]? = some t) :
    alignment (template.take (k + 1)) block start =
      alignment (template.take k) block start ++ [Compare.stmt s t] := by
  have front : template.take (k + 1) = template.take k ++ [t] := by
    simp [List.take_add_one, wanted]
  have split : block.drop start =
      (block.drop start).take k ++ s :: block.drop (start + k + 1) := by
    obtain ⟨inside, rfl⟩ := List.getElem?_eq_some_iff.mp candidate
    conv => lhs; rw [← List.take_append_drop k (block.drop start)]
    rw [List.drop_drop, List.drop_eq_getElem_cons inside]
  have lengths : ((block.drop start).take k).length = (template.take k).length := by
    have inside := (List.getElem?_eq_some_iff.mp candidate).1
    have short := (List.getElem?_eq_some_iff.mp wanted).1
    simp only [List.length_take, List.length_drop]
    omega
  have shorter : alignment (template.take k) block start =
      List.zipWith Compare.stmt ((block.drop start).take k) (template.take k) := by
    unfold alignment
    conv => lhs; rw [split, ← List.append_nil (template.take k)]
    rw [List.zipWith_append lengths]
    simp
  rw [shorter, front]
  unfold alignment
  rw [split, List.zipWith_append (by simpa [← split] using lengths)]
  simp [← split]

theorem occursAt_take_succ {start k : Nat} {s t : Stmt}
    (occurs : OccursAt (template.take k) block start) (candidate : block[start + k]? = some s)
    (wanted : template[k]? = some t) (holds : (Compare.stmt s t).holds = true) :
    OccursAt (template.take (k + 1)) block start := by
  have inside := (List.getElem?_eq_some_iff.mp candidate).1
  have short := (List.getElem?_eq_some_iff.mp wanted).1
  rw [occursAt_iff_alignment] at occurs ⊢
  constructor
  · simp only [List.length_take]
    omega
  · intro c member
    rw [alignment_take_succ candidate wanted] at member
    rcases List.mem_append.mp member with earlier | last
    · exact occurs.2 c earlier
    · rw [List.mem_singleton.mp last]
      exact holds

theorem alignedCaptures_take_succ {start k : Nat} {s t : Stmt}
    (candidate : block[start + k]? = some s) (wanted : template[k]? = some t) :
    alignedCaptures (template.take (k + 1)) block start =
      alignedCaptures (template.take k) block start ++ (Compare.stmt s t).captures := by
  unfold alignedCaptures
  rw [alignment_take_succ candidate wanted, List.map_append, Captures.join_append]
  simp [Captures.join]

/-- The run met the front of the template with the statements from its start up to the index. -/
structure RunUpTo (template : List Stmt) (block : Block) (index : Nat) (run : Scan.Run) : Prop where
  begun : run.start ≤ index
  bounded : index ≤ run.start + template.length
  pending : run.pending = template.drop (index - run.start)
  occurs : OccursAt (template.take (index - run.start)) block run.start
  recorded : run.captures = alignedCaptures (template.take (index - run.start)) block run.start

theorem fresh_runUpTo {index : Nat} (inside : index ≤ block.length) :
    RunUpTo template block index ⟨index, ∅, template⟩ where
  begun := Nat.le_refl index
  bounded := Nat.le_add_right index _
  pending := by simp
  occurs := by simp [OccursAt, inside]
  recorded := by simp [alignedCaptures, alignment, Captures.join]

inductive RunStep (template : List Stmt) (policy : CapturePolicy) (block : Block) (index : Nat) :
    Outcome (Option Scan.Run) → Prop where
  | longer {run : Scan.Run} {kept : Captures} (upTo : RunUpTo template block (index + 1) run)
      (clean : policy = .discard → kept = ∅) :
      RunStep template policy block index ⟨.ok (some run), kept⟩
  | broken {kept : Captures} (clean : policy = .discard → kept = ∅) :
      RunStep template policy block index ⟨.ok none, kept⟩

theorem RunStep.after {index : Nat} {outcome : Outcome (Option Scan.Run)} {before : Captures}
    (clean : policy = .discard → before = ∅) (step : RunStep template policy block index outcome) :
    RunStep template policy block index ⟨outcome.answer, before ++ outcome.captures⟩ := by
  cases step with
  | longer upTo rest =>
    refine .longer upTo ?_
    intro discard
    simp [clean discard, rest discard]
  | broken rest =>
    refine .broken ?_
    intro discard
    simp [clean discard, rest discard]

theorem meet_step {index : Nat} {run : Scan.Run} {s : Stmt}
    (upTo : RunUpTo template block index run) (at_index : block[index]? = some s) :
    RunStep template policy block index (run.meet policy s) := by
  have begun := upTo.begun
  unfold Scan.Run.meet
  split
  · exact .broken (fun _ => rfl)
  · rename_i next later pending
    have split := upTo.pending.symm.trans pending
    obtain ⟨wanted, behind⟩ := drop_eq_cons split
    have candidate : block[run.start + (index - run.start)]? = some s := by
      rw [Nat.add_sub_cancel' begun]
      exact at_index
    have short := (List.getElem?_eq_some_iff.mp wanted).1
    have count : index + 1 - run.start = index - run.start + 1 := by omega
    simp only
    split
    · rename_i holds
      refine .longer ⟨?_, ?_, ?_, ?_, ?_⟩ (fun _ => rfl)
      · exact Nat.le_succ_of_le begun
      · simp only
        omega
      · simp only
        rw [count, behind]
      · simp only [count]
        exact occursAt_take_succ upTo.occurs candidate wanted holds
      · simp only [count]
        rw [alignedCaptures_take_succ candidate wanted, upTo.recorded]
    · refine .broken ?_
      intro discard
      simp [keep_discard policy _ discard]

theorem advance_step {index : Nat} {run? : Option Scan.Run} {s : Stmt}
    (upTo : ∀ run, run? = some run → RunUpTo template block index run)
    (at_index : block[index]? = some s) :
    RunStep template policy block index (Scan.advance policy template run? index s) := by
  have inside := (List.getElem?_eq_some_iff.mp at_index).1
  have fresh : RunStep template policy block index
      (Scan.Run.meet policy ⟨index, ∅, template⟩ s) :=
    meet_step (fresh_runUpTo (Nat.le_of_lt inside)) at_index
  unfold Scan.advance
  cases run? with
  | none => exact fresh
  | some run =>
    have step : RunStep template policy block index (run.meet policy s) :=
      meet_step (upTo run rfl) at_index
    simp only [Outcome.bind_eq]
    generalize run.meet policy s = outcome at step
    cases step with
    | longer upTo clean =>
      refine .longer upTo ?_
      intro discard
      simp [clean discard]
    | broken clean => exact fresh.after clean

theorem runUpTo_complete {index : Nat} {run : Scan.Run} (upTo : RunUpTo template block index run)
    (complete : run.pending = []) :
    run.start + template.length = index ∧ OccursAt template block run.start ∧
      run.captures = alignedCaptures template block run.start := by
  have short := List.drop_eq_nil_iff.mp (upTo.pending.symm.trans complete)
  have bounded := upTo.bounded
  have begun := upTo.begun
  have whole : template.take (index - run.start) = template := List.take_of_length_le short
  refine ⟨by omega, ?_, ?_⟩
  · simpa [whole] using upTo.occurs
  · simpa [whole] using upTo.recorded

theorem advance_clean (template : List Stmt) (policy : CapturePolicy) (run? : Option Scan.Run)
    (index : Nat) (s : Stmt) :
    policy = .discard → (Scan.advance policy template run? index s).captures = ∅ := by
  intro discard
  have meet_clean (run : Scan.Run) : (run.meet policy s).captures = ∅ := by
    unfold Scan.Run.meet
    split
    · rfl
    · simp only
      split
      · rfl
      · simp [keep_discard policy _ discard]
  unfold Scan.advance
  cases run? with
  | none => exact meet_clean _
  | some run =>
    have clean := meet_clean run
    simp only [Outcome.bind_eq]
    generalize run.meet policy s = outcome at clean
    obtain ⟨error | found, kept⟩ := outcome
    · exact clean
    · simp only at clean
      cases found with
      | some longer => simp [clean]
      | none => simp [clean, meet_clean]

theorem greedyFrom_reports {inner : Block → Outcome Verdict}
    (each : ∀ body, ReportsBlock template policy True (OccursBelow template body) (inner body))
    (stmts : List Stmt) {index : Nat} {run? : Option Scan.Run}
    (left : block.drop index = stmts)
    (upTo : ∀ run, run? = some run → RunUpTo template block index run) :
    ReportsBlock template policy True (OccursBelow template block)
      (Scan.greedyFrom inner policy template stmts index run?) := by
  induction stmts generalizing index run? with
  | nil =>
    refine .missed trivial ?_
    intro discard
    simp [keep_discard policy _ discard]
  | cons s stmts ih =>
    obtain ⟨at_index, behind⟩ := drop_eq_cons left
    have step : RunStep template policy block index
        (Scan.advance policy template run? index s) := advance_step upTo at_index
    simp only [Scan.greedyFrom, Outcome.bind_eq]
    generalize Scan.advance policy template run? index s = outcome at step
    cases step with
    | @longer run kept upTo clean =>
      rw [Outcome.andThen_ok]
      apply Reports.after clean
      simp only
      split
      · rename_i complete
        obtain ⟨length, occurs, recorded⟩ := runUpTo_complete upTo (List.isEmpty_iff.mp complete)
        have report : ReportsBlock template policy True (OccursBelow template block)
            ⟨.ok (Verdict.ofSite [] run.start template.length), run.captures⟩ :=
          .matched ⟨.itself, occurs⟩ (fun _ => recorded)
        simpa [length] using report
      · apply ih behind
        intro same eq
        exact Option.some.inj eq ▸ upTo
    | broken clean =>
      rw [Outcome.andThen_ok]
      apply Reports.after clean
      simp only [Scan.within_eq_inOpenings]
      apply reports_within (inOpenings_reports each s.openings)
      · rintro path target start ⟨earlier, scope, body, later, rest, openings, _, rfl, below⟩
        have opens : (scope, body) ∈ s.openings := by simp [openings]
        refine ⟨by simp, ?_, below.2⟩
        exact .nested (List.mem_of_getElem? at_index) (nested_of_opening opens below.1)
      · intro _
        apply ih behind
        intro run none
        contradiction

theorem levels_greedy_reports (template : List Stmt) {options : Options}
    (mode : options.scan = .greedy) (left : Nat) (chunk : Block) :
    ReportsBlock template options.captures True (OccursBelow template chunk)
      (Scan.levels template options left chunk) := by
  induction left generalizing chunk with
  | zero => exact .failed (fun _ => rfl)
  | succ left ih =>
    simp only [Scan.levels, mode, Scan.greedy]
    split
    · exact .missed trivial (fun _ => rfl)
    · apply greedyFrom_reports ih chunk rfl
      intro run none
      contradiction

/-- In both modes a match is an occurrence, with the verdict for its site. -/
theorem levels_reports (template : List Stmt) (options : Options) (left : Nat) (chunk : Block) :
    ReportsBlock template options.captures True (OccursBelow template chunk)
      (Scan.levels template options left chunk) := by
  cases mode : options.scan with
  | greedy => exact levels_greedy_reports template mode left chunk
  | exhaustive =>
    apply (levels_exhaustive_reports template mode left chunk).mono
    · intro _
      trivial
    · intro path block start stops
      exact stops_reached stops

theorem find_match_occurs {candidate : Block} {template : Template} {options : Options}
    {found : Found} (ok : find candidate template options = .ok found)
    (isMatch : found.verdict ≠ .noMatch) :
    ∃ path block start, OccursBelow template.stmts candidate path block start ∧
      found.verdict = Verdict.ofSite path start template.length := by
  have reports := levels_reports template.stmts options options.maxDepth candidate
  have ran := scan_of_find ok
  unfold scan at ran
  rw [ran] at reports
  generalize found.verdict = verdict at reports isMatch ⊢
  cases reports with
  | missed lacks clean => contradiction
  | matched site recorded => exact ⟨_, _, _, site, rfl⟩

theorem occursAt_of_range {candidate : Block} {template : Template} {options : Options}
    {found : Found} {start stop : Nat} (ok : find candidate template options = .ok found)
    (range : found.verdict = .found start stop) :
    stop = start + template.length ∧ OccursAt template.stmts candidate start := by
  obtain ⟨path, block, i, ⟨reached, occurs⟩, verdict⟩ := find_match_occurs ok (by simp [range])
  rw [range] at verdict
  cases reached with
  | nested member nested =>
    obtain ⟨scope, rest, rfl⟩ := List.exists_cons_of_ne_nil (nested_path_ne_nil nested)
    simp at verdict
  | itself =>
    simp only [ofSite_nil, Verdict.found.injEq] at verdict
    obtain ⟨rfl, rfl⟩ := verdict
    exact ⟨rfl, occurs⟩

/-- In either mode, so in the greedy one: a range is an occurrence in the chunk; a nested match is
    an occurrence in a nested block, reached as its scope says; and where the search finds a
    match, so does every exhaustive search that gives an answer. -/
theorem find_match_sound {candidate : Block} {template : Template} {options : Options}
    {found : Found} (ok : find candidate template options = .ok found) :
    (∀ start stop, found.verdict = .found start stop →
      stop = start + template.length ∧ OccursAt template.stmts candidate start) ∧
    (∀ scope, found.verdict = .nested scope →
      ∃ s ∈ candidate, ∃ path block i, Nested s path block ∧ OccursAt template.stmts block i ∧
        (scope = .function ↔ .function ∈ path)) ∧
    (∀ other found', found.verdict.isMatch = true → other.scan = .exhaustive →
      find candidate template other = .ok found' → found'.verdict.isMatch = true) := by
  refine ⟨?_, ?_, ?_⟩
  · intro start stop range
    exact occursAt_of_range ok range
  · intro scope inside
    obtain ⟨path, block, i, ⟨reached, occurs⟩, verdict⟩ := find_match_occurs ok (by simp [inside])
    rw [inside] at verdict
    cases reached with
    | itself => simp at verdict
    | @nested s _ _ member nested =>
      obtain ⟨first, rest, rfl⟩ := List.exists_cons_of_ne_nil (nested_path_ne_nil nested)
      obtain rfl := Verdict.nested.inj verdict
      exact ⟨s, member, _, block, i, nested, occurs, ofPath_function_iff _⟩
  · intro other found' isMatch exhaustive ok'
    have some : found.verdict ≠ .noMatch := by
      intro none
      simp [none, Verdict.isMatch] at isMatch
    obtain ⟨path, block, i, ⟨reached, occurs⟩, _⟩ := find_match_occurs ok some
    have tells := find_exhaustive_tellsFirst exhaustive ok'
    cases given : found'.verdict with
    | noMatch =>
      have lacks := (noMatch_iff_lacks tells).mp given
      exact absurd occurs (not_occursAt_of_lacks lacks reached i)
    | found => rfl
    | nested => rfl

/-- A run that breaks, and one that starts anew behind it. -/
theorem find_match_sound_restart :
    let span : Span := default
    let call (argc : Nat) : Stmt :=
      .call span (.call span (.ident span "f") (List.replicate argc (.ident span "x")) false)
    let candidate : Block := [call 1, .breakStmt span, call 1, call 2]
    let template : Template := ⟨[call 1, call 2], by simp⟩
    find candidate template default = .ok ⟨.found 2 4, ∅⟩ ∧
      OccursAt template.stmts candidate 2 := by
  intro span call candidate template
  have ok : find candidate template default = .ok ⟨.found 2 4, ∅⟩ := rfl
  exact ⟨ok, ((find_match_sound ok).1 2 4 rfl).2⟩

end LuaSearch
