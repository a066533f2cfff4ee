import LuaSearch.Proofs.Match.Greedy

/-!
How far a greedy pass has come. How much of the template the run in progress has met at a
statement is decided by the comparisons of the statements before it; captures, policy and limit
have no part in it. The pass ends at the first statement with which the whole template is met. Up
to there it searches inside a statement exactly when no run is in progress behind it, so the pass
is told by the cursor and by the answers of the blocks inside.
-/
namespace LuaSearch

variable {inner : Block → Outcome Verdict} {policy : CapturePolicy} {template : List Stmt}
  {block : Block}

def asks (template : List Stmt) (position : Nat) (s : Stmt) : Bool :=
  template[position]?.any fun t => (Compare.stmt s t).holds

def metAfter (template : List Stmt) (before : Nat) (s : Stmt) : Nat :=
  if asks template before s then before + 1 else if asks template 0 s then 1 else 0

def met (template : List Stmt) (stmts : List Stmt) : Nat := stmts.foldl (metAfter template) 0

theorem met_take_succ {k : Nat} {s : Stmt} (at_index : block[k]? = some s) :
    met template (block.take (k + 1)) = metAfter template (met template (block.take k)) s := by
  simp [met, List.take_add_one, at_index]

theorem asks_iff {position : Nat} {s : Stmt} :
    asks template position s = true ↔
      ∃ t, template[position]? = some t ∧ (Compare.stmt s t).holds = true := by
  simp [asks, Option.any_eq_true]

theorem metAfter_le (template : List Stmt) (before : Nat) (s : Stmt) :
    metAfter template before s ≤ template.length := by
  have inside {position : Nat} (asked : asks template position s = true) :
      position < template.length := by
    obtain ⟨t, wanted, _⟩ := asks_iff.mp asked
    exact (List.getElem?_eq_some_iff.mp wanted).1
  unfold metAfter
  split
  · rename_i asked
    exact inside asked
  · split
    · rename_i asked
      exact inside asked
    · exact Nat.zero_le _

/-- A run in progress has met that much of the template, or there is none. -/
inductive HasMet (template : List Stmt) : Nat → Option Scan.Run → Prop where
  | idle : HasMet template 0 none
  | running {n : Nat} {run : Scan.Run} (begun : 0 < n) (pending : run.pending = template.drop n) :
      HasMet template n (some run)

theorem meet_of_asks (policy : CapturePolicy) {n : Nat} {run : Scan.Run} {s : Stmt}
    (pending : run.pending = template.drop n) (asked : asks template n s = true) :
    ∃ longer, run.meet policy s = ⟨.ok (some longer), ∅⟩ ∧
      longer.pending = template.drop (n + 1) := by
  obtain ⟨next, wanted, holds⟩ := asks_iff.mp asked
  obtain ⟨inside, rfl⟩ := List.getElem?_eq_some_iff.mp wanted
  have split := pending.trans (List.drop_eq_getElem_cons inside)
  unfold Scan.Run.meet
  rw [split]
  simp only [holds, if_true]
  exact ⟨_, rfl, rfl⟩

theorem meet_of_not_asks (policy : CapturePolicy) {n : Nat} {run : Scan.Run} {s : Stmt}
    (pending : run.pending = template.drop n) (unasked : asks template n s = false) :
    ∃ kept, run.meet policy s = ⟨.ok none, kept⟩ := by
  unfold Scan.Run.meet
  cases rest : run.pending with
  | nil => exact ⟨∅, rfl⟩
  | cons next later =>
    obtain ⟨wanted, _⟩ := drop_eq_cons (pending.symm.trans rest)
    have fails : (Compare.stmt s next).holds = false := by simpa [asks, wanted] using unasked
    exact ⟨policy.keep (run.captures ++ (Compare.stmt s next).captures), by simp [fails]⟩

theorem fresh_hasMet (policy : CapturePolicy) (template : List Stmt) (index : Nat) (s : Stmt) :
    ∃ next? kept, Scan.Run.meet policy ⟨index, ∅, template⟩ s = ⟨.ok next?, kept⟩ ∧
      HasMet template (if asks template 0 s then 1 else 0) next? := by
  have pending : (⟨index, ∅, template⟩ : Scan.Run).pending = template.drop 0 := rfl
  cases asked : asks template 0 s with
  | true =>
    obtain ⟨first, given, pending⟩ := meet_of_asks policy pending asked
    exact ⟨some first, ∅, given, .running Nat.one_pos pending⟩
  | false =>
    obtain ⟨kept, given⟩ := meet_of_not_asks policy pending asked
    exact ⟨none, kept, given, .idle⟩

theorem advance_hasMet (policy : CapturePolicy) {n : Nat} {run? : Option Scan.Run}
    (hasMet : HasMet template n run?) (index : Nat) (s : Stmt) :
    ∃ next? kept, Scan.advance policy template run? index s = ⟨.ok next?, kept⟩ ∧
      HasMet template (metAfter template n s) next? := by
  obtain ⟨next?, more, anew, next⟩ := fresh_hasMet policy template index s
  unfold metAfter
  cases hasMet with
  | idle =>
    refine ⟨next?, more, anew, ?_⟩
    cases asked : asks template 0 s <;> simpa [asked] using next
  | @running _ run begun pending =>
    simp only [Scan.advance, Outcome.bind_eq]
    cases asked : asks template n s with
    | true =>
      obtain ⟨longer, given, pending⟩ := meet_of_asks policy pending asked
      exact ⟨some longer, ∅, by simp [given], .running (Nat.succ_pos n) pending⟩
    | false =>
      obtain ⟨kept, given⟩ := meet_of_not_asks policy pending asked
      exact ⟨next?, kept ++ more, by simp [given, anew], next⟩

inductive OpeningsGive (inner : Block → Outcome Verdict) (openings : List (Scope × Block)) :
    Except MatchError (Option Scope) → Prop where
  | missed (all : ∀ o ∈ openings, (inner o.2).answer = .ok .noMatch) :
      OpeningsGive inner openings (.ok none)
  | matched {scope : Scope} {o : Scope × Block} {verdict : Verdict} (member : o ∈ openings)
      (found : (inner o.2).answer = .ok verdict) (hit : verdict ≠ .noMatch) :
      OpeningsGive inner openings (.ok (some scope))
  | failed {e : MatchError} {o : Scope × Block} (member : o ∈ openings)
      (fails : (inner o.2).answer = .error e) : OpeningsGive inner openings (.error e)

theorem OpeningsGive.cons {first : Scope × Block} {openings : List (Scope × Block)}
    {answer : Except MatchError (Option Scope)}
    (missed : (inner first.2).answer = .ok .noMatch) (rest : OpeningsGive inner openings answer) :
    OpeningsGive inner (first :: openings) answer := by
  cases rest with
  | missed all => exact .missed (List.forall_mem_cons.mpr ⟨missed, all⟩)
  | matched member found hit => exact .matched (List.mem_cons_of_mem first member) found hit
  | failed member fails => exact .failed (List.mem_cons_of_mem first member) fails

theorem inOpenings_gives (inner : Block → Outcome Verdict) (openings : List (Scope × Block)) :
    OpeningsGive inner openings (Scan.inOpenings inner openings).answer := by
  induction openings with
  | nil => exact .missed (by simp)
  | cons opening openings ih =>
    obtain ⟨scope, body⟩ := opening
    have first : (scope, body) ∈ (scope, body) :: openings := List.mem_cons_self
    simp only [Scan.inOpenings, Outcome.bind_eq]
    rcases given : inner body with ⟨e | verdict, kept⟩
    · exact .failed first (congrArg Outcome.answer given)
    · have answer : (inner body).answer = .ok verdict := congrArg Outcome.answer given
      cases verdict with
      | noMatch => exact .cons answer ih
      | found => exact .matched first answer (by simp)
      | nested => exact .matched first answer (by simp)

/-- A greedy pass goes by the statements before the index: with none of them the whole template is
    met, and where no run is in progress behind one of them, nothing is found inside it. -/
structure PassedUpTo (inner : Block → Outcome Verdict) (template : List Stmt) (block : Block)
    (index : Nat) : Prop where
  unmet : ∀ k ≤ index, met template (block.take k) ≠ template.length
  inside : ∀ k < index, ∀ s, block[k]? = some s → met template (block.take (k + 1)) = 0 →
    ∀ o ∈ s.openings, (inner o.2).answer = .ok .noMatch

inductive PassEnds (inner : Block → Outcome Verdict) (template : List Stmt) (block : Block) :
    Except MatchError Verdict → Prop where
  | missed (passed : PassedUpTo inner template block block.length) :
      PassEnds inner template block (.ok .noMatch)
  | found {start last : Nat} (passed : PassedUpTo inner template block last)
      (within : last < block.length)
      (complete : met template (block.take (last + 1)) = template.length) :
      PassEnds inner template block (.ok (.found start (last + 1)))
  | nested {k : Nat} {s : Stmt} {scope : Scope} {o : Scope × Block} {verdict : Verdict}
      (passed : PassedUpTo inner template block k) (at_index : block[k]? = some s)
      (idle : met template (block.take (k + 1)) = 0) (member : o ∈ s.openings)
      (found : (inner o.2).answer = .ok verdict) (hit : verdict ≠ .noMatch) :
      PassEnds inner template block (.ok (.nested scope))
  | failed {k : Nat} {s : Stmt} {e : MatchError} {o : Scope × Block}
      (passed : PassedUpTo inner template block k) (at_index : block[k]? = some s)
      (idle : met template (block.take (k + 1)) = 0) (member : o ∈ s.openings)
      (fails : (inner o.2).answer = .error e) : PassEnds inner template block (.error e)

theorem PassedUpTo.succ {index : Nat} {s : Stmt} (passed : PassedUpTo inner template block index)
    (at_index : block[index]? = some s)
    (unmet : met template (block.take (index + 1)) ≠ template.length)
    (inside : met template (block.take (index + 1)) = 0 →
      ∀ o ∈ s.openings, (inner o.2).answer = .ok .noMatch) :
    PassedUpTo inner template block (index + 1) where
  unmet := by
    intro k le
    rcases Nat.le_succ_iff.mp le with before | rfl
    · exact passed.unmet k before
    · exact unmet
  inside := by
    intro k less t at_k
    rcases Nat.lt_succ_iff_lt_or_eq.mp less with before | rfl
    · exact passed.inside k before t at_k
    · rw [at_index] at at_k
      exact Option.some.inj at_k ▸ inside

theorem greedyFrom_ends (stmts : List Stmt) {index : Nat} {run? : Option Scan.Run}
    (left : block.drop index = stmts) (bounded : index ≤ block.length)
    (passed : PassedUpTo inner template block index)
    (hasMet : HasMet template (met template (block.take index)) run?) :
    PassEnds inner template block
      (Scan.greedyFrom inner policy template stmts index run?).answer := by
  -- On what is left of the block. The pass went by all that is before it, and the run in progress
  -- stands where the cursor does.
  induction stmts generalizing index run? with
  | nil =>
    have reached : index = block.length := by
      have none := List.drop_eq_nil_iff.mp left
      omega
    subst reached
    exact .missed passed
  | cons s stmts ih =>
    obtain ⟨at_index, behind⟩ := drop_eq_cons left
    have within : index < block.length := (List.getElem?_eq_some_iff.mp at_index).1
    obtain ⟨next?, kept, given, next⟩ := advance_hasMet policy hasMet index s
    rw [← met_take_succ at_index] at next
    simp only [Scan.greedyFrom, Outcome.bind_eq, given, Outcome.andThen_ok]
    have bound := metAfter_le template (met template (block.take index)) s
    rw [← met_take_succ at_index] at bound
    generalize cursor : met template (block.take (index + 1)) = n at next bound
    cases next with
    | @running _ run begun pending =>
      have complete : run.pending.isEmpty = true ↔ n = template.length := by
        rw [List.isEmpty_iff, pending, List.drop_eq_nil_iff]
        omega
      by_cases whole : n = template.length
      · simp only [complete.mpr whole, if_true]
        exact .found passed within (cursor.trans whole)
      · have goesOn : ¬ run.pending.isEmpty = true := fun empty => whole (complete.mp empty)
        simp only [goesOn]
        have further : PassedUpTo inner template block (index + 1) := by
          apply passed.succ at_index
          · rw [cursor]
            exact whole
          · intro idle
            omega
        exact ih behind within further (cursor ▸ .running begun pending)
    | idle =>
      have inside := inOpenings_gives inner s.openings
      rw [← Scan.within_eq_inOpenings] at inside
      rcases searched : Scan.within inner s with ⟨e | scope?, left⟩
      · rw [searched] at inside
        cases inside with
        | failed member fails => exact .failed passed at_index cursor member fails
      · rw [searched] at inside
        cases inside with
        | matched member found hit => exact .nested passed at_index cursor member found hit
        | missed all =>
          have further : PassedUpTo inner template block (index + 1) := by
            apply passed.succ at_index
            · rw [cursor]
              exact fun empty => passed.unmet 0 (Nat.zero_le _) empty
            · exact fun _ => all
          exact ih behind within further (cursor ▸ .idle)

section Levels

variable {options options' : Options}

theorem levels_greedy_ends (nonempty : template ≠ []) (mode : options.scan = .greedy) (left : Nat)
    (chunk : Block) :
    PassEnds (Scan.levels template options left) template chunk
      (Scan.levels template options (left + 1) chunk).answer := by
  have start : PassedUpTo (Scan.levels template options left) template chunk 0 := by
    refine ⟨?_, by simp⟩
    intro k le empty
    obtain rfl := Nat.le_zero.mp le
    exact nonempty (List.length_eq_zero_iff.mp empty.symm)
  simp only [Scan.levels, mode, Scan.greedy, List.isEmpty_iff, nonempty, if_false]
  exact greedyFrom_ends chunk rfl (Nat.zero_le _) start .idle

theorem passed_of_noMatch (nonempty : template ≠ []) (mode : options.scan = .greedy) {left : Nat}
    {chunk : Block} (none : (Scan.levels template options (left + 1) chunk).answer = .ok .noMatch) :
    PassedUpTo (Scan.levels template options left) template chunk chunk.length := by
  have ends := levels_greedy_ends nonempty mode left chunk
  rw [none] at ends
  cases ends with
  | missed passed => exact passed

theorem levels_pos {left : Nat} {chunk : Block} {verdict : Verdict}
    (ok : (Scan.levels template options left chunk).answer = .ok verdict) :
    ∃ less, left = less + 1 := by
  cases left with
  | zero => cases ok
  | succ less => exact ⟨less, rfl⟩

/-- Greedy searches of a block that give an answer agree on whether there is a match, whatever
    their policies, their limits and the levels left to them. -/
theorem noMatch_of_noMatch (nonempty : template ≠ []) (mode : options.scan = .greedy)
    (mode' : options'.scan = .greedy) {left left' : Nat} {chunk : Block} {verdict : Verdict}
    (ok : (Scan.levels template options left chunk).answer = .ok verdict)
    (none : (Scan.levels template options' left' chunk).answer = .ok .noMatch) :
    verdict = .noMatch := by
  -- On the levels of the first search. Where it stops inside a statement, the second went into the
  -- same opening, since both have the same cursor there.
  induction left generalizing left' chunk verdict with
  | zero => cases ok
  | succ left ih =>
    obtain ⟨less, rfl⟩ := levels_pos none
    have passed := passed_of_noMatch nonempty mode' none
    have ends := levels_greedy_ends nonempty mode left chunk
    rw [ok] at ends
    cases ends with
    | missed => rfl
    | found before within complete => exact absurd complete (passed.unmet _ within)
    | nested before at_index idle member found hit =>
      have within := (List.getElem?_eq_some_iff.mp at_index).1
      exact absurd (ih found (passed.inside _ within _ at_index idle _ member)) hit

end Levels

end LuaSearch
