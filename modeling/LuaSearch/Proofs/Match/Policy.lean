import LuaSearch.Match.Find
import LuaSearch.Proofs.Match.Nesting

/-!
The capture policy does not reach the search. Two searches that differ in their policy alone go
through the same comparisons and end alike. What is recorded last under either policy is the
alignment found, and the policy that discards has dropped all that came before it; so its captures
stand at the end of those that are retained, and a search without a match leaves none.
-/
namespace LuaSearch

/-- How a step ends under the policy that retains, and under the one that discards. -/
inductive Trims {α : Type} (miss : α) : Outcome α → Outcome α → Prop where
  | failed {e : MatchError} {kept : Captures} : Trims miss ⟨.error e, kept⟩ ⟨.error e, ∅⟩
  | missed {kept : Captures} : Trims miss ⟨.ok miss, kept⟩ ⟨.ok miss, ∅⟩
  | matched {a : α} (dropped : Captures) {kept : Captures} (hit : a ≠ miss) :
      Trims miss ⟨.ok a, dropped ++ kept⟩ ⟨.ok a, kept⟩

theorem Trims.after {α : Type} {miss : α} {outcome outcome' : Outcome α} (before : Captures)
    (trims : Trims miss outcome outcome') :
    Trims miss ⟨outcome.answer, before ++ outcome.captures⟩ outcome' := by
  cases trims with
  | failed => exact .failed
  | missed => exact .missed
  | matched dropped hit =>
    simp only [← Captures.append_assoc]
    exact .matched (before ++ dropped) hit

theorem Trims.told {α : Type} {miss a : α} (recorded : Captures) (hit : a ≠ miss) :
    Trims miss ((Outcome.tell recorded).andThen fun _ => pure a)
      ((Outcome.tell recorded).andThen fun _ => pure a) := by
  have found : Trims miss ⟨.ok a, ∅ ++ recorded⟩ ⟨.ok a, recorded⟩ := .matched ∅ hit
  simpa using found

section Blocks

variable {inner inner' : Block → Outcome Verdict}
variable (each : ∀ body, Trims .noMatch (inner body) (inner' body))

include each

theorem inOpenings_trims (openings : List (Scope × Block)) :
    Trims none (Scan.inOpenings inner openings) (Scan.inOpenings inner' openings) := by
  induction openings with
  | nil => exact .missed
  | cons opening openings ih =>
    obtain ⟨scope, body⟩ := opening
    have first := each body
    simp only [Scan.inOpenings, Outcome.bind_eq]
    generalize inner body = outcome at first
    generalize inner' body = outcome' at first
    cases first with
    | failed => exact .failed
    | @missed kept => simpa using ih.after kept
    | @matched verdict dropped kept hit =>
      have found : Trims none ⟨.ok (some (scope.through verdict)), dropped ++ kept⟩
          ⟨.ok (some (scope.through verdict)), kept⟩ := .matched dropped (by simp)
      cases verdict with
      | noMatch => contradiction
      | _ => simpa using found

theorem within_trims (s : Stmt) {next next' : Outcome Verdict}
    (later : Trims .noMatch next next') :
    Trims .noMatch
      ((Scan.within inner s).andThen fun scope? =>
        match scope? with
        | some scope => pure (.nested scope)
        | none => next)
      ((Scan.within inner' s).andThen fun scope? =>
        match scope? with
        | some scope => pure (.nested scope)
        | none => next') := by
  have inside := inOpenings_trims each s.openings
  rw [Scan.within_eq_inOpenings, Scan.within_eq_inOpenings]
  generalize Scan.inOpenings inner s.openings = outcome at inside
  generalize Scan.inOpenings inner' s.openings = outcome' at inside
  cases inside with
  | failed => exact .failed
  | @missed kept => simpa using later.after kept
  | @matched scope? dropped kept hit =>
    obtain ⟨scope, rfl⟩ := Option.ne_none_iff_exists'.mp hit
    have found : Trims Verdict.noMatch ⟨.ok (.nested scope), dropped ++ kept⟩
        ⟨.ok (.nested scope), kept⟩ := .matched dropped (by simp)
    simpa using found

omit each in
theorem meet_policy (run : Scan.Run) (s : Stmt) :
    ∃ longer? kept, run.meet .retain s = ⟨.ok longer?, kept⟩ ∧
      run.meet .discard s = ⟨.ok longer?, ∅⟩ := by
  unfold Scan.Run.meet
  split
  · exact ⟨none, ∅, rfl, rfl⟩
  · rename_i next later _
    rcases Compare.stmt s next with ⟨_ | _, recorded⟩
    · exact ⟨none, run.captures ++ recorded, by simp [CapturePolicy.keep], rfl⟩
    · exact ⟨_, ∅, rfl, rfl⟩

omit each in
theorem advance_policy (template : List Stmt) (run? : Option Scan.Run) (index : Nat) (s : Stmt) :
    ∃ next? kept, Scan.advance .retain template run? index s = ⟨.ok next?, kept⟩ ∧
      Scan.advance .discard template run? index s = ⟨.ok next?, ∅⟩ := by
  have fresh := meet_policy ⟨index, ∅, template⟩ s
  cases run? with
  | none => exact fresh
  | some run =>
    obtain ⟨longer?, kept, retained, discarded⟩ := meet_policy run s
    simp only [Scan.advance, Outcome.bind_eq, retained, discarded, Outcome.andThen_ok]
    cases longer? with
    | some longer => exact ⟨some longer, kept, by simp, by simp⟩
    | none =>
      obtain ⟨next?, more, retained', discarded'⟩ := fresh
      exact ⟨next?, kept ++ more, by simp [retained'], by simp [discarded']⟩

variable (template : List Stmt)

theorem greedyFrom_trims (stmts : List Stmt) (index : Nat) (run? : Option Scan.Run) :
    Trims .noMatch (Scan.greedyFrom inner .retain template stmts index run?)
      (Scan.greedyFrom inner' .discard template stmts index run?) := by
  induction stmts generalizing index run? with
  | nil => exact .missed
  | cons s stmts ih =>
    obtain ⟨next?, kept, retained, discarded⟩ := advance_policy template run? index s
    simp only [Scan.greedyFrom, Outcome.bind_eq, retained, discarded, Outcome.andThen_ok,
      Captures.empty_append]
    apply Trims.after kept
    cases next? with
    | none => exact within_trims each s (ih (index + 1) none)
    | some run =>
      simp only
      split
      · exact .told run.captures (by simp)
      · exact ih (index + 1) (some run)

theorem exhaustiveFrom_trims (stmts : List Stmt) (index : Nat) :
    Trims .noMatch (Scan.exhaustiveFrom inner .retain template stmts index)
      (Scan.exhaustiveFrom inner' .discard template stmts index) := by
  induction stmts generalizing index with
  | nil => exact .missed
  | cons s stmts ih =>
    simp only [Scan.exhaustiveFrom, Outcome.bind_eq]
    split
    · exact .told _ (by simp)
    · simp only [CapturePolicy.keep, Outcome.tell_andThen, Captures.empty_append]
      exact (within_trims each s (ih (index + 1))).after _

end Blocks

theorem levels_trims (template : List Stmt) (mode : ScanMode) (limit left : Nat) (chunk : Block) :
    Trims .noMatch (Scan.levels template ⟨mode, .retain, limit⟩ left chunk)
      (Scan.levels template ⟨mode, .discard, limit⟩ left chunk) := by
  induction left generalizing chunk with
  | zero => exact .failed
  | succ left ih =>
    cases mode with
    | greedy =>
      simp only [Scan.levels, Scan.greedy]
      split
      · exact .missed
      · exact greedyFrom_trims ih template chunk 0 none
    | exhaustive => exact exhaustiveFrom_trims ih template chunk 0

/-- A search ends with the same error or the same verdict under both policies. What the policy
    that discards leaves is the end of what the other retains, and nothing without a match. -/
theorem find_policy_blind (candidate : Block) (template : Template) (mode : ScanMode)
    (limit : Nat) :
    let retained := find candidate template ⟨mode, .retain, limit⟩
    let discarded := find candidate template ⟨mode, .discard, limit⟩
    (∃ e, retained = .error e ∧ discarded = .error e) ∨
      ∃ verdict all kept, retained = .ok ⟨verdict, all⟩ ∧ discarded = .ok ⟨verdict, kept⟩ ∧
        kept.exprs <:+ all.exprs ∧ kept.stmts <:+ all.stmts ∧
        (verdict = .noMatch → kept.exprs = [] ∧ kept.stmts = []) := by
  have trims := levels_trims template.stmts mode limit limit candidate
  simp only [find, scan]
  split
  · exact .inl ⟨_, rfl, rfl⟩
  · generalize Scan.levels template.stmts ⟨mode, .retain, limit⟩ limit candidate = retained
      at trims
    generalize Scan.levels template.stmts ⟨mode, .discard, limit⟩ limit candidate = discarded
      at trims
    cases trims with
    | @failed e kept => exact .inl ⟨e, rfl, rfl⟩
    | @missed all =>
      refine .inr ⟨_, all, ∅, rfl, rfl, ?_, ?_, ?_⟩
      · exact List.nil_suffix
      · exact List.nil_suffix
      · exact fun _ => ⟨rfl, rfl⟩
    | @matched verdict dropped kept hit =>
      refine .inr ⟨verdict, dropped ++ kept, kept, rfl, rfl, ?_, ?_, ?_⟩
      · exact List.suffix_append _ _
      · exact List.suffix_append _ _
      · exact fun none => absurd none hit

end LuaSearch
