import LuaSearch.Proofs.Match.Greedy

/-!
Where a search halts, in either mode. A search of a block is a pass over its statements; what one
statement does to a pass is said once for each mode, and what a pass does as a whole follows. The
place is told by the answers of searches alone: a search halts inside the statement up to which,
and not before which, the statements give a match, and there in the first opening that gives one.
There is one such place at most, and a search that finds a match halts there with the captures of
the alignment found.
-/
namespace LuaSearch

variable {inner : Block → Outcome Verdict} {policy : CapturePolicy} {template : List Stmt}

/-- What the first statement of several does to a pass over them. It ends the pass with an error
    or a range; it is the one inside which the pass halts; or it is passed, and another pass goes
    on behind it. The last two hold for every front of the statements alike. -/
inductive PassStep (inner : Block → Outcome Verdict) (policy : CapturePolicy)
    (Pass : (List Stmt → Outcome Verdict) → Prop) (pass : List Stmt → Outcome Verdict)
    (s : Stmt) (rest : List Stmt) : Prop where
  | ended (matched : (pass (s :: rest)).answer ≠ .ok .noMatch)
      (outside : ∀ scope, (pass (s :: rest)).answer ≠ .ok (.nested scope))
  | inside {scope : Scope} (found : (Scan.within inner s).answer = .ok (some scope))
      (nested : ∀ n, (pass (s :: rest.take n)).answer = .ok (.nested scope))
      (recorded : policy = .discard →
        (pass (s :: rest)).captures = (Scan.within inner s).captures)
  | passed {next : List Stmt → Outcome Verdict} (goesOn : Pass next)
      (answer : ∀ n, (pass (s :: rest.take n)).answer = (next (rest.take n)).answer)
      (recorded : policy = .discard → (pass (s :: rest)).captures = (next rest).captures)

structure Passes (inner : Block → Outcome Verdict) (policy : CapturePolicy)
    (Pass : (List Stmt → Outcome Verdict) → Prop) : Prop where
  empty {pass : List Stmt → Outcome Verdict} (member : Pass pass) :
    (pass []).answer = .ok .noMatch
  step {pass : List Stmt → Outcome Verdict} (member : Pass pass) (s : Stmt) (rest : List Stmt) :
    PassStep inner policy Pass pass s rest

/-- A pass over the statements halts inside the one at the index. -/
structure HaltsInside (inner : Block → Outcome Verdict) (policy : CapturePolicy)
    (pass : List Stmt → Outcome Verdict) (stmts : List Stmt) (scope : Scope) (k : Nat)
    (s : Stmt) : Prop where
  at_index : stmts[k]? = some s
  before : (pass (stmts.take k)).answer = .ok .noMatch
  upTo : (pass (stmts.take (k + 1))).answer = .ok (.nested scope)
  found : (Scan.within inner s).answer = .ok (some scope)
  recorded : policy = .discard → (pass stmts).captures = (Scan.within inner s).captures

section Passes

variable {Pass : (List Stmt → Outcome Verdict) → Prop} (passes : Passes inner policy Pass)

include passes

theorem pass_front {pass : List Stmt → Outcome Verdict} (member : Pass pass)
    {stmts : List Stmt} (none : (pass stmts).answer = .ok .noMatch) (k : Nat) :
    (pass (stmts.take k)).answer = .ok .noMatch := by
  induction stmts generalizing pass k with
  | nil => simpa using none
  | cons s rest ih =>
    cases k with
    | zero => exact passes.empty member
    | succ k =>
      cases passes.step member s rest with
      | ended matched outside => exact absurd none matched
      | inside found nested recorded =>
        have answer := nested rest.length
        rw [List.take_length, none] at answer
        cases answer
      | passed goesOn answer recorded =>
        have behind := answer rest.length
        rw [List.take_length, none] at behind
        rw [List.take_succ_cons, answer]
        exact ih goesOn behind.symm k

theorem pass_haltsInside {pass : List Stmt → Outcome Verdict} (member : Pass pass)
    {stmts : List Stmt} {scope : Scope} (nested : (pass stmts).answer = .ok (.nested scope)) :
    ∃ k s, HaltsInside inner policy pass stmts scope k s := by
  induction stmts generalizing pass with
  | nil =>
    rw [passes.empty member] at nested
    cases nested
  | cons s rest ih =>
    cases passes.step member s rest with
    | ended matched outside => exact absurd nested (outside scope)
    | @inside scope' found nested' recorded =>
      have answer := nested' rest.length
      rw [List.take_length, nested] at answer
      cases answer
      exact ⟨0, s, rfl, passes.empty member, nested' 0, found, recorded⟩
    | @passed next goesOn answer recorded =>
      have behind := answer rest.length
      rw [List.take_length, nested] at behind
      obtain ⟨k, s', halts⟩ := ih goesOn behind.symm
      refine ⟨k + 1, s', by simpa using halts.at_index, ?_, ?_, halts.found, ?_⟩
      · rw [List.take_succ_cons, answer]
        exact halts.before
      · rw [List.take_succ_cons, answer]
        exact halts.upTo
      · intro discard
        rw [recorded discard]
        exact halts.recorded discard

end Passes

theorem window_front {stmts : List Stmt} {n : Nat}
    (holds : (Scan.window template (stmts.take n)).holds = true) :
    (Scan.window template stmts).holds = true := by
  unfold Scan.window at holds ⊢
  split at holds
  · rename_i fits
    rw [List.length_take] at fits
    have same : List.zipWith Compare.stmt (stmts.take n) template =
        List.zipWith Compare.stmt stmts template := by
      have short : template.take n = template := List.take_of_length_le (by omega)
      calc List.zipWith Compare.stmt (stmts.take n) template
          = List.zipWith Compare.stmt (stmts.take n) (template.take n) := by rw [short]
        _ = (List.zipWith Compare.stmt stmts template).take n := List.take_zipWith.symm
        _ = List.zipWith Compare.stmt stmts template :=
            List.take_of_length_le (by rw [List.length_zipWith]; omega)
    rw [if_pos (by omega), Compare.stmtPairs_holds, ← same, ← Compare.stmtPairs_holds]
    exact holds
  · simp [Comparison.no] at holds

section Kinds

variable (template)
variable (quiet : ∀ s kept, Scan.within inner s = ⟨.ok none, kept⟩ → policy = .discard → kept = ∅)

include quiet

theorem greedyFrom_passes :
    Passes inner policy fun pass =>
      ∃ index run?, pass = fun stmts => Scan.greedyFrom inner policy template stmts index run? where
  empty := by
    rintro _ ⟨index, run?, rfl⟩
    rfl
  step := by
    rintro _ ⟨index, run?, rfl⟩ s rest
    have clean := advance_clean template policy run? index s
    rcases advanced : Scan.advance policy template run? index s with ⟨_ | _ | run, kept⟩
    · refine .ended ?_ ?_ <;> simp [Scan.greedyFrom, advanced]
    · rw [advanced] at clean
      rcases searched : Scan.within inner s with ⟨_ | _ | scope, left⟩
      · refine .ended ?_ ?_ <;> simp [Scan.greedyFrom, advanced, searched]
      · have dropped := quiet s left searched
        refine .passed ⟨index + 1, none, rfl⟩ ?_ ?_
        · intro n
          simp [Scan.greedyFrom, advanced, searched]
        · intro discard
          simp only at clean
          simp [Scan.greedyFrom, advanced, searched, clean discard, dropped discard]
      · refine .inside (by rw [searched]) ?_ ?_
        · intro n
          simp [Scan.greedyFrom, advanced, searched]
        · intro discard
          simp only at clean
          simp [Scan.greedyFrom, advanced, searched, clean discard]
    · rw [advanced] at clean
      by_cases complete : run.pending = []
      · refine .ended ?_ ?_ <;> simp [Scan.greedyFrom, advanced, complete]
      · refine .passed ⟨index + 1, some run, rfl⟩ ?_ ?_
        · intro n
          simp [Scan.greedyFrom, advanced, complete]
        · intro discard
          simp only at clean
          simp [Scan.greedyFrom, advanced, complete, clean discard]

/-- An exhaustive pass looks ahead: a window that fails on the whole fails on every front. -/
theorem exhaustiveFrom_passes :
    Passes inner policy fun pass =>
      ∃ index, pass = fun stmts => Scan.exhaustiveFrom inner policy template stmts index where
  empty := by
    rintro _ ⟨index, rfl⟩
    rfl
  step := by
    rintro _ ⟨index, rfl⟩ s rest
    by_cases holds : (Scan.window template (s :: rest)).holds = true
    · refine .ended ?_ ?_ <;> simp [Scan.exhaustiveFrom, holds]
    · have fails (n : Nat) : ¬ (Scan.window template (s :: rest.take n)).holds = true := by
        rw [← List.take_succ_cons]
        exact fun front => holds (window_front front)
      have clean (captures : Captures) := keep_discard policy captures
      rcases searched : Scan.within inner s with ⟨_ | _ | scope, left⟩
      · refine .ended ?_ ?_ <;> simp [Scan.exhaustiveFrom, holds, searched]
      · have dropped := quiet s left searched
        refine .passed ⟨index + 1, rfl⟩ ?_ ?_
        · intro n
          simp [Scan.exhaustiveFrom, fails n, searched]
        · intro discard
          simp [Scan.exhaustiveFrom, holds, searched, clean _ discard, dropped discard]
      · refine .inside (by rw [searched]) ?_ ?_
        · intro n
          simp [Scan.exhaustiveFrom, fails n, searched]
        · intro discard
          simp [Scan.exhaustiveFrom, holds, searched, clean _ discard]

end Kinds

section Levels

variable {options : Options}

theorem within_levels_clean (template : List Stmt) (options : Options) (left : Nat) (s : Stmt)
    (kept : Captures)
    (missed : Scan.within (Scan.levels template options left) s = ⟨.ok none, kept⟩) :
    options.captures = .discard → kept = ∅ :=
  within_clean (levels_reports template options left) missed

theorem levels_pass (template : List Stmt) (options : Options) (left : Nat) :
    (∃ Pass, Passes (Scan.levels template options left) options.captures Pass ∧
      Pass (Scan.levels template options (left + 1))) ∨
    ∀ chunk, (Scan.levels template options (left + 1) chunk).answer = .ok .noMatch := by
  have quiet := within_levels_clean template options left
  cases mode : options.scan with
  | greedy =>
    by_cases empty : template.isEmpty = true
    · refine .inr ?_
      intro chunk
      simp [Scan.levels, mode, Scan.greedy, empty]
    · refine .inl ⟨_, greedyFrom_passes template quiet, 0, none, ?_⟩
      funext chunk
      simp [Scan.levels, mode, Scan.greedy, empty]
  | exhaustive =>
    refine .inl ⟨_, exhaustiveFrom_passes template quiet, 0, ?_⟩
    funext chunk
    simp [Scan.levels, mode, Scan.exhaustive]

theorem levels_front {left : Nat} {chunk : Block}
    (none : (Scan.levels template options left chunk).answer = .ok .noMatch) (k : Nat) :
    (Scan.levels template options left (chunk.take k)).answer = .ok .noMatch := by
  cases left with
  | zero => simp [Scan.levels, Outcome.fail] at none
  | succ left =>
    rcases levels_pass template options left with ⟨Pass, passes, member⟩ | always
    · exact pass_front passes member none k
    · exact always _

theorem levels_haltsInside {left : Nat} {chunk : Block} {scope : Scope}
    (nested : (Scan.levels template options (left + 1) chunk).answer = .ok (.nested scope)) :
    ∃ k s, HaltsInside (Scan.levels template options left) options.captures
      (Scan.levels template options (left + 1)) chunk scope k s := by
  rcases levels_pass template options left with ⟨Pass, passes, member⟩ | always
  · exact pass_haltsInside passes member nested
  · rw [always chunk] at nested
    cases nested

end Levels

/-- The search of the chunk with the given number of levels left halts at the index of the block
    that the path leads to. -/
inductive Halts (template : List Stmt) (options : Options) :
    Nat → Block → List Scope → Block → Nat → Prop where
  | here {left start : Nat} {chunk : Block}
      (found : (Scan.levels template options left chunk).answer =
        .ok (.found start (start + template.length))) :
      Halts template options left chunk [] chunk start
  | inside {left k start : Nat} {chunk body target : Block} {s : Stmt} {scope outer : Scope}
      {path : List Scope} {earlier later : List (Scope × Block)}
      (nested : (Scan.levels template options (left + 1) chunk).answer = .ok (.nested scope))
      (before : (Scan.levels template options (left + 1) (chunk.take k)).answer = .ok .noMatch)
      (upTo : (Scan.levels template options (left + 1) (chunk.take (k + 1))).answer =
        .ok (.nested scope))
      (at_index : chunk[k]? = some s) (openings : s.openings = earlier ++ (outer, body) :: later)
      (clear : ∀ o ∈ earlier, (Scan.levels template options left o.2).answer = .ok .noMatch)
      (rest : Halts template options left body path target start) :
      Halts template options (left + 1) chunk (outer :: path) target start

section Halts

variable {options : Options} {left start start' : Nat} {chunk block block' : Block}
  {path path' : List Scope}

theorem halts_matches (halts : Halts template options left chunk path block start) :
    (Scan.levels template options left chunk).answer ≠ .ok .noMatch := by
  cases halts with
  | here found => simp [found]
  | inside nested => simp [nested]

theorem halts_reached (halts : Halts template options left chunk path block start) :
    Reached chunk path block ∧ OccursAt template block start := by
  induction halts with
  | @here left start chunk found =>
    have reports := levels_reports template options left chunk
    rcases given : Scan.levels template options left chunk with ⟨answer, kept⟩
    rw [given] at reports found
    simp only at found
    subst found
    generalize verdict : Verdict.found start (start + template.length) = v at reports
    cases reports with
    | missed => contradiction
    | @matched path _ _ _ site recorded =>
      obtain ⟨reached, occurs⟩ := site
      cases reached with
      | itself =>
        rw [ofSite_nil, Verdict.found.injEq] at verdict
        exact ⟨.itself, verdict.1 ▸ occurs⟩
      | nested member nested =>
        obtain ⟨scope, rest, rfl⟩ := List.exists_cons_of_ne_nil (nested_path_ne_nil nested)
        simp at verdict
  | inside nested before upTo at_index openings clear rest ih =>
    refine ⟨?_, ih.2⟩
    apply Reached.nested (List.mem_of_getElem? at_index)
    exact nested_of_opening (by simp [openings]) ih.1

theorem front_le {m n : Nat} {scope : Scope}
    (nested : (Scan.levels template options left (chunk.take (m + 1))).answer = .ok (.nested scope))
    (none : (Scan.levels template options left (chunk.take n)).answer = .ok .noMatch) : n ≤ m := by
  apply Nat.le_of_not_lt
  intro less
  have front := levels_front none (m + 1)
  rw [List.take_take, Nat.min_eq_left less, nested] at front
  cases front

theorem halts_unique (halts : Halts template options left chunk path block start)
    (halts' : Halts template options left chunk path' block' start') :
    path = path' ∧ block = block' ∧ start = start' := by
  induction halts generalizing path' block' start' with
  | here found =>
    cases halts' with
    | here found' =>
      rw [found] at found'
      simp only [Except.ok.injEq, Verdict.found.injEq] at found'
      exact ⟨rfl, rfl, found'.1⟩
    | inside nested' =>
      rw [found] at nested'
      simp at nested'
  | @inside left k start chunk body target s scope outer path earlier later nested before upTo
      at_index openings clear rest ih =>
    cases halts' with
    | here found' =>
      rw [nested] at found'
      simp at found'
    | @inside _ k' _ _ body' _ s' scope' outer' path' earlier' later' nested' before' upTo'
        at_index' openings' clear' rest' =>
      have index : k = k' :=
        Nat.le_antisymm (front_le upTo' before) (front_le upTo before')
      subst index
      obtain rfl : s = s' := Option.some.inj (at_index.symm.trans at_index')
      have opening : (outer, body) = (outer', body') :=
        split_unique (openings.symm.trans openings') clear clear' (halts_matches rest)
          (halts_matches rest')
      cases opening
      obtain ⟨rfl, rfl, rfl⟩ := ih rest'
      exact ⟨rfl, rfl, rfl⟩

end Halts

/-- A search that finds a match halts somewhere; its verdict is that for the place, and under the
    policy that discards it leaves what the alignment there records. -/
theorem levels_halts (template : List Stmt) (options : Options) (left : Nat) (chunk : Block) :
    ReportsBlock template options.captures
      ((Scan.levels template options left chunk).answer = .ok .noMatch)
      (Halts template options left chunk) (Scan.levels template options left chunk) := by
  induction left generalizing chunk with
  | zero => exact .failed (fun _ => rfl)
  | succ left ih =>
    have reports := levels_reports template options (left + 1) chunk
    rcases given : Scan.levels template options (left + 1) chunk with ⟨answer, kept⟩
    rw [given] at reports
    cases reports with
    | failed clean => exact .failed clean
    | missed _ clean => exact .missed rfl clean
    | @matched path block start _ site recorded =>
      obtain ⟨reached, occurs⟩ := site
      cases reached with
      | itself => exact .matched (.here (by rw [given]; rfl)) recorded
      | nested member nested =>
        obtain ⟨first, rest, rfl⟩ := List.exists_cons_of_ne_nil (nested_path_ne_nil nested)
        have answer : (Scan.levels template options (left + 1) chunk).answer =
            .ok (.nested (Scope.ofPath (first :: rest))) := by rw [given]; rfl
        obtain ⟨k, s, halts⟩ := levels_haltsInside answer
        have found := halts.found
        have taken := halts.recorded
        have inside := inOpenings_reports ih s.openings
        rw [Scan.within_eq_inOpenings] at found taken
        rw [given] at taken
        generalize Scan.inOpenings (Scan.levels template options left) s.openings = outcome
          at inside found taken
        cases inside with
        | failed clean => cases found
        | missed lacks clean => cases found
        | matched below aligned =>
          obtain ⟨earlier, scope, body, later, rest', openings, clear, rfl, below⟩ := below
          have site : Halts template options (left + 1) chunk (scope :: rest') _ _ :=
            .inside answer halts.before halts.upTo halts.at_index openings clear below
          simp only [Except.ok.injEq, Option.some.injEq] at found
          rw [ofSite_cons, ← found, ← ofSite_cons scope rest' _ template.length]
          refine .matched site ?_
          intro discard
          rw [← aligned discard]
          exact taken discard

end LuaSearch
