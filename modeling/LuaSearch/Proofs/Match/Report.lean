import LuaSearch.Proofs.Match.Occurrence

/-!
What a search reports, and what it leaves recorded. The same contract fits a block, the openings
of a statement and what follows them, so it is stated once, for any notion of an absent template
and of a site that is hit; each scan mode brings its own.
-/
namespace LuaSearch

/-- Without a match the template is absent, and the answer is `miss`; a match is at a site that
    is hit, and the answer is what `report` says of that site. The policy that discards leaves
    nothing of a failure, and of a match what its alignment records. -/
inductive Reports {α : Type} (template : List Stmt) (policy : CapturePolicy) (miss : α)
    (report : List Scope → Nat → α) (absent : Prop) (hit : List Scope → Block → Nat → Prop) :
    Outcome α → Prop where
  | failed {e : MatchError} {kept : Captures} (clean : policy = .discard → kept = ∅) :
      Reports template policy miss report absent hit ⟨.error e, kept⟩
  | missed {kept : Captures} (lacks : absent) (clean : policy = .discard → kept = ∅) :
      Reports template policy miss report absent hit ⟨.ok miss, kept⟩
  | matched {path : List Scope} {block : Block} {start : Nat} {kept : Captures}
      (site : hit path block start)
      (recorded : policy = .discard → kept = alignedCaptures template block start) :
      Reports template policy miss report absent hit ⟨.ok (report path start), kept⟩

abbrev ReportsBlock (template : List Stmt) (policy : CapturePolicy) :=
  Reports template policy .noMatch (Verdict.ofSite · · template.length)

abbrev ReportsInside (template : List Stmt) (policy : CapturePolicy) :=
  Reports template policy none (fun path _ => some (Scope.ofPath path))

section Rules

variable {α : Type} {template : List Stmt} {policy : CapturePolicy} {miss : α}
  {report : List Scope → Nat → α} {absent absent' : Prop}
  {hit hit' : List Scope → Block → Nat → Prop} {outcome : Outcome α}

theorem Reports.mono (reports : Reports template policy miss report absent hit outcome)
    (weaker : absent → absent')
    (wider : ∀ path block start, hit path block start → hit' path block start) :
    Reports template policy miss report absent' hit' outcome := by
  cases reports with
  | failed clean => exact .failed clean
  | missed lacks clean => exact .missed (weaker lacks) clean
  | matched site recorded => exact .matched (wider _ _ _ site) recorded

theorem Reports.after {before : Captures} (clean : policy = .discard → before = ∅)
    (reports : Reports template policy miss report absent hit outcome) :
    Reports template policy miss report absent hit
      ⟨outcome.answer, before ++ outcome.captures⟩ := by
  cases reports with
  | failed rest =>
    refine .failed ?_
    intro discard
    simp [clean discard, rest discard]
  | missed lacks rest =>
    refine .missed lacks ?_
    intro discard
    simp [clean discard, rest discard]
  | matched site recorded =>
    refine .matched site ?_
    intro discard
    simp [clean discard, recorded discard]

end Rules

variable {template : List Stmt} {policy : CapturePolicy}

theorem keep_discard (policy : CapturePolicy) (captures : Captures) :
    policy = .discard → policy.keep captures = ∅ := by
  intro discard
  rw [discard]
  rfl

/-- A site below a list of openings: it is hit below one of them, and the openings before that
    one lack the template. -/
def HitBelow (lacks : Block → Prop) (hit : Block → List Scope → Block → Nat → Prop)
    (openings : List (Scope × Block)) (path : List Scope) (block : Block) (start : Nat) : Prop :=
  ∃ earlier scope body later rest, openings = earlier ++ (scope, body) :: later ∧
    (∀ o ∈ earlier, lacks o.2) ∧ path = scope :: rest ∧ hit body rest block start

theorem hitBelow_cons {lacks : Block → Prop} {hit : Block → List Scope → Block → Nat → Prop}
    {first : Scope × Block} {openings : List (Scope × Block)} {path : List Scope} {block : Block}
    {start : Nat} (absent : lacks first.2)
    (below : HitBelow lacks hit openings path block start) :
    HitBelow lacks hit (first :: openings) path block start := by
  obtain ⟨earlier, scope, body, later, rest, rfl, clear, eq, site⟩ := below
  refine ⟨first :: earlier, scope, body, later, rest, rfl, ?_, eq, site⟩
  intro o member
  rcases List.mem_cons.mp member with same | member
  · exact same ▸ absent
  · exact clear o member

theorem inOpenings_reports {inner : Block → Outcome Verdict} {lacks : Block → Prop}
    {hit : Block → List Scope → Block → Nat → Prop}
    (each : ∀ body, ReportsBlock template policy (lacks body) (hit body) (inner body))
    (openings : List (Scope × Block)) :
    ReportsInside template policy (∀ o ∈ openings, lacks o.2) (HitBelow lacks hit openings)
      (Scan.inOpenings inner openings) := by
  induction openings with
  | nil => exact .missed (by simp) (fun _ => rfl)
  | cons opening openings ih =>
    obtain ⟨scope, body⟩ := opening
    simp only [Scan.inOpenings, Outcome.bind_eq]
    have first := each body
    generalize inner body = outcome at first
    cases first with
    | failed clean => exact .failed clean
    | missed absent clean =>
      rw [Outcome.andThen_ok]
      apply Reports.after clean
      apply ih.mono
      · intro rest o member
        rcases List.mem_cons.mp member with same | member
        · exact same ▸ absent
        · exact rest o member
      · intro path block start below
        exact hitBelow_cons absent below
    | @matched path block start kept site recorded =>
      have here : HitBelow lacks hit ((scope, body) :: openings) (scope :: path) block start :=
        ⟨[], scope, body, openings, path, rfl, by simp, rfl, site⟩
      have verdict := through_ofSite scope path start template.length
      have report : ReportsInside template policy (∀ o ∈ (scope, body) :: openings, lacks o.2)
          (HitBelow lacks hit ((scope, body) :: openings))
          ⟨.ok (some (scope.through (Verdict.ofSite path start template.length))), kept⟩ := by
        rw [verdict]
        exact .matched here recorded
      cases path <;> simpa using report

theorem within_clean {inner : Block → Outcome Verdict} {lacks : Block → Prop}
    {hit : Block → List Scope → Block → Nat → Prop}
    (each : ∀ body, ReportsBlock template policy (lacks body) (hit body) (inner body)) {s : Stmt}
    {kept : Captures} (missed : Scan.within inner s = ⟨.ok none, kept⟩) :
    policy = .discard → kept = ∅ := by
  have inside := inOpenings_reports each s.openings
  rw [← Scan.within_eq_inOpenings, missed] at inside
  generalize answer : (none : Option Scope) = scope? at inside
  cases inside with
  | missed lacks clean => exact clean
  | matched site recorded => contradiction

theorem reports_within {inside : Outcome (Option Scope)} {next : Outcome Verdict}
    {absent clear : Prop} {hit below : List Scope → Block → Nat → Prop}
    (first : ReportsInside template policy clear below inside)
    (wider : ∀ path block start, below path block start → path ≠ [] ∧ hit path block start)
    (second : clear → ReportsBlock template policy absent hit next) :
    ReportsBlock template policy absent hit (inside.andThen fun scope? =>
      match scope? with
      | some scope => pure (.nested scope)
      | none => next) := by
  cases first with
  | failed clean => exact .failed clean
  | missed lacks clean => exact (second lacks).after clean
  | @matched path block start kept site recorded =>
    obtain ⟨nonempty, site⟩ := wider _ _ _ site
    have report : ReportsBlock template policy absent hit
        ⟨.ok (Verdict.ofSite path start template.length), kept⟩ := .matched site recorded
    obtain ⟨scope, rest, rfl⟩ := List.exists_cons_of_ne_nil nonempty
    simpa using report

end LuaSearch
