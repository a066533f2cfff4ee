import LuaSearch.Match.Find
import LuaSearch.Proofs.Match.Report

/-!
The exhaustive search is exact. It reports a match exactly when there is an occurrence in the
chunk or nested in it, and then the first one in the order of the search; a nested match has the
scope that the path to that occurrence crosses. Nothing is claimed of searches that end with an
error.
-/
namespace LuaSearch

variable {template : List Stmt} {policy : CapturePolicy}

theorem window_nil_holds (block : Block) : (Scan.window [] block).holds = true := by
  cases block <;> rfl

theorem exhaustiveFrom_reports {inner : Block → Outcome Verdict}
    (each : ∀ body, ReportsBlock template policy (template ≠ [] → Lacks template body)
      (Stops template body) (inner body))
    {block : Block} (stmts : List Stmt) {index : Nat} (left : block.drop index = stmts)
    (inside : index ≤ block.length) (before : LacksBefore template block index) :
    ReportsBlock template policy (template ≠ [] → Lacks template block) (Stops template block)
      (Scan.exhaustiveFrom inner policy template stmts index) := by
  induction stmts generalizing index with
  | nil =>
    have reached : index = block.length := by
      have none := List.drop_eq_nil_iff.mp left
      omega
    subst reached
    exact .missed (lacksBefore_length before) (fun _ => rfl)
  | cons s stmts ih =>
    obtain ⟨at_index, behind⟩ := drop_eq_cons left
    have room : index < block.length := (List.getElem?_eq_some_iff.mp at_index).1
    simp only [Scan.exhaustiveFrom, ← left, Outcome.bind_eq]
    split
    · rename_i holds
      have occurs := (window_holds_iff inside).mp holds
      have report : ReportsBlock template policy (template ≠ [] → Lacks template block)
          (Stops template block) ⟨.ok (Verdict.ofSite [] index template.length),
            (Scan.window template (block.drop index)).captures⟩ :=
        .matched (.here before occurs) (fun _ => window_captures holds)
      simpa using report
    · rename_i fails
      have absent : ¬ OccursAt template block index := fun occurs =>
        fails ((window_holds_iff inside).mpr occurs)
      have nonempty : template ≠ [] := by
        rintro rfl
        exact fails (window_nil_holds _)
      simp only [Outcome.tell_andThen, Scan.within_eq_inOpenings]
      apply Reports.after (keep_discard policy _)
      apply reports_within (inOpenings_reports each s.openings)
      · rintro path target start ⟨earlier, scope, body, later, rest, openings, lacks, rfl, stops⟩
        refine ⟨by simp, ?_⟩
        have clear (o : Scope × Block) (member : o ∈ earlier) : Lacks template o.2 :=
          lacks o member nonempty
        exact .inside before absent at_index openings clear stops
      · intro clear
        have lacks : LacksInside template s :=
          lacksInside_of_openings fun o member => clear o member nonempty
        apply ih behind (by omega)
        intro k less
        rcases Nat.lt_succ_iff_lt_or_eq.mp less with earlier | rfl
        · exact before k earlier
        · refine ⟨absent, ?_⟩
          intro t at_same
          rw [at_index] at at_same
          exact Option.some.inj at_same ▸ lacks

theorem levels_exhaustive_reports (template : List Stmt) {options : Options}
    (mode : options.scan = .exhaustive) (left : Nat) (chunk : Block) :
    ReportsBlock template options.captures (template ≠ [] → Lacks template chunk)
      (Stops template chunk) (Scan.levels template options left chunk) := by
  induction left generalizing chunk with
  | zero => exact .failed (fun _ => rfl)
  | succ left ih =>
    simp only [Scan.levels, mode, Scan.exhaustive]
    apply exhaustiveFrom_reports ih chunk rfl (Nat.zero_le _)
    intro k less
    omega

theorem scan_of_find {candidate : Block} {template : Template} {options : Options} {found : Found}
    (ok : find candidate template options = .ok found) :
    scan template.stmts options candidate = ⟨.ok found.verdict, found.captures⟩ := by
  unfold find at ok
  split at ok
  · contradiction
  · rcases given : scan template.stmts options candidate with ⟨_ | verdict, captures⟩
    · simp [given, Except.map] at ok
    · simp only [given, Except.map, Except.ok.injEq] at ok
      simp [← ok]

theorem answer_of_find {candidate : Block} {template : Template} {options : Options}
    {found : Found} (ok : find candidate template options = .ok found) :
    (Scan.levels template.stmts options options.maxDepth candidate).answer =
      .ok found.verdict := by
  have ran := scan_of_find ok
  unfold scan at ran
  rw [ran]

theorem fits_of_find {candidate : Block} {template : Template} {options : Options} {found : Found}
    (ok : find candidate template options = .ok found) : template.depth ≤ options.maxDepth := by
  unfold find at ok
  split at ok
  · contradiction
  · rename_i fits
    exact Nat.not_lt.mp fits

theorem find_eq_of_scan {candidate : Block} {template : Template} {options : Options}
    {answer : Except MatchError Verdict} {captures : Captures}
    (fits : template.depth ≤ options.maxDepth)
    (ran : scan template.stmts options candidate = ⟨answer, captures⟩) :
    find candidate template options = answer.map fun verdict => ⟨verdict, captures⟩ := by
  simp only [find, Nat.not_lt.mpr fits, if_false, ran]

/-- The verdict tells the first occurrence in the order of the search, or that there is none. -/
def TellsFirst (template : List Stmt) (chunk : Block) (verdict : Verdict) : Prop :=
  (verdict = .noMatch ∧ Lacks template chunk) ∨
    ∃ path block i, Stops template chunk path block i ∧
      verdict = Verdict.ofSite path i template.length

theorem levels_exhaustive_tellsFirst {options : Options} {left : Nat} {chunk : Block}
    {verdict : Verdict} (nonempty : template ≠ []) (mode : options.scan = .exhaustive)
    (ok : (Scan.levels template options left chunk).answer = .ok verdict) :
    TellsFirst template chunk verdict := by
  have reports := levels_exhaustive_reports template mode left chunk
  rcases given : Scan.levels template options left chunk with ⟨answer, kept⟩
  rw [given] at reports ok
  simp only at ok
  subst ok
  cases reports with
  | missed lacks clean => exact .inl ⟨rfl, lacks nonempty⟩
  | matched site recorded => exact .inr ⟨_, _, _, site, rfl⟩

theorem find_exhaustive_tellsFirst {candidate : Block} {template : Template} {options : Options}
    {found : Found} (mode : options.scan = .exhaustive)
    (ok : find candidate template options = .ok found) :
    TellsFirst template.stmts candidate found.verdict :=
  levels_exhaustive_tellsFirst template.nonempty mode (answer_of_find ok)

section TellsFirst

variable {chunk : Block} {verdict : Verdict}

theorem noMatch_iff_lacks (tells : TellsFirst template chunk verdict) :
    verdict = .noMatch ↔ Lacks template chunk := by
  constructor
  · intro none
    rcases tells with ⟨_, lacks⟩ | ⟨path, block, i, stops, eq⟩
    · exact lacks
    · rw [none] at eq
      cases path <;> simp at eq
  · intro lacks
    rcases tells with ⟨none, _⟩ | ⟨path, block, i, stops, eq⟩
    · exact none
    · obtain ⟨reached, occurs⟩ := stops_reached stops
      exact absurd occurs (not_occursAt_of_lacks lacks reached i)

theorem found_iff_leftmost (tells : TellsFirst template chunk verdict) (i j : Nat) :
    verdict = .found i j ↔
      j = i + template.length ∧ OccursAt template chunk i ∧ LacksBefore template chunk i := by
  constructor
  · rintro rfl
    rcases tells with ⟨none, _⟩ | ⟨path, block, k, stops, eq⟩
    · contradiction
    · cases stops with
      | inside => simp at eq
      | here before occurs =>
        simp only [ofSite_nil, Verdict.found.injEq] at eq
        obtain ⟨rfl, rfl⟩ := eq
        exact ⟨rfl, occurs, before⟩
  · rintro ⟨rfl, occurs, before⟩
    rcases tells with ⟨_, lacks⟩ | ⟨path, block, k, stops, eq⟩
    · exact absurd occurs (lacks.1 i)
    · obtain ⟨rfl, rfl, rfl⟩ := stops_unique stops (.here before occurs)
      exact eq

theorem nested_iff_stops (tells : TellsFirst template chunk verdict) (scope : Scope) :
    verdict = .nested scope ↔
      ∃ path block i, path ≠ [] ∧ Stops template chunk path block i ∧
        scope = Scope.ofPath path := by
  constructor
  · rintro rfl
    rcases tells with ⟨none, _⟩ | ⟨path, block, i, stops, eq⟩
    · contradiction
    · cases path with
      | nil => simp at eq
      | cons first rest =>
        exact ⟨_, _, _, by simp, stops, Verdict.nested.inj eq⟩
  · rintro ⟨path, block, i, nonempty, stops, rfl⟩
    rcases tells with ⟨_, lacks⟩ | ⟨path', block', i', stops', eq⟩
    · obtain ⟨reached, occurs⟩ := stops_reached stops
      exact absurd occurs (not_occursAt_of_lacks lacks reached i)
    · obtain ⟨rfl, rfl, rfl⟩ := stops_unique stops' stops
      obtain ⟨first, rest, rfl⟩ := List.exists_cons_of_ne_nil nonempty
      exact eq

end TellsFirst

/-- The verdict of an exhaustive search that gives an answer: no match exactly when there is no
    occurrence in the chunk or nested in it; a range exactly when it is the leftmost occurrence in
    the chunk and nothing is nested before it; otherwise a nested match, whose scope is that of
    the path to the place where the search stops. -/
theorem find_exhaustive_exact {candidate : Block} {template : Template} {options : Options}
    {found : Found} (mode : options.scan = .exhaustive)
    (ok : find candidate template options = .ok found) :
    (found.verdict = .noMatch ↔
      (∀ i, ¬ OccursAt template.stmts candidate i) ∧
        ∀ s ∈ candidate, ∀ path block, Nested s path block →
          ∀ i, ¬ OccursAt template.stmts block i) ∧
    (∀ i j, found.verdict = .found i j ↔
      j = i + template.length ∧ OccursAt template.stmts candidate i ∧
        ∀ k < i, ¬ OccursAt template.stmts candidate k ∧
          ∀ s, candidate[k]? = some s → ∀ path block, Nested s path block →
            ∀ l, ¬ OccursAt template.stmts block l) ∧
    (∀ scope, found.verdict = .nested scope ↔
      ∃ path block i, path ≠ [] ∧ Stops template.stmts candidate path block i ∧
        (scope = .function ↔ .function ∈ path) ∧
        (scope = .block ↔ ∀ crossed ∈ path, crossed = .block)) := by
  have tells := find_exhaustive_tellsFirst mode ok
  refine ⟨noMatch_iff_lacks tells, found_iff_leftmost tells, ?_⟩
  intro scope
  constructor
  · intro nested
    obtain ⟨path, block, i, nonempty, stops, rfl⟩ := (nested_iff_stops tells scope).mp nested
    exact ⟨path, block, i, nonempty, stops, ofPath_function_iff path, ofPath_block_iff path⟩
  · rintro ⟨path, block, i, nonempty, stops, function, _⟩
    apply (nested_iff_stops tells scope).mpr
    refine ⟨path, block, i, nonempty, stops, ?_⟩
    have same := function.trans (ofPath_function_iff path).symm
    cases scope <;> cases given : Scope.ofPath path <;> simp_all

/-- A `break` in a block of a function that is an argument: the path crosses both. -/
theorem find_exhaustive_exact_callback :
    let span : Span := default
    let body : Block := [.doBlock span [.breakStmt span]]
    let candidate : Block :=
      [.call span (.call span (.ident span "f") [.function span ⟨[], false⟩ body] false)]
    let options : Options := ⟨.exhaustive, .retain, defaultMaxDepth⟩
    find candidate ⟨[.breakStmt span], by simp⟩ options = .ok ⟨.nested .function, ∅⟩ ∧
      ∃ path block i, path ≠ [] ∧ Stops [.breakStmt span] candidate path block i ∧
        .function ∈ path := by
  intro span body candidate options
  have ok : find candidate ⟨[.breakStmt span], by simp⟩ options =
      .ok ⟨.nested .function, ∅⟩ := rfl
  have exact := (find_exhaustive_exact rfl ok).2.2 .function
  obtain ⟨path, block, i, nonempty, stops, function, _⟩ := exact.mp rfl
  exact ⟨ok, path, block, i, nonempty, stops, function.mp rfl⟩

end LuaSearch
