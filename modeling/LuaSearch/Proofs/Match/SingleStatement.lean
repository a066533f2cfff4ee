import LuaSearch.Proofs.Match.Simulation

/-!
Templates of one statement. A run is complete with the statement that starts it, and a window is
one comparison. So no run is ever in progress from one statement to the next, and the two scan
modes make the same comparisons in the same order and keep the same of them, in every block that
they enter.
-/
namespace LuaSearch

variable (inner : Block → Outcome Verdict) (policy : CapturePolicy) (t : Stmt)

theorem window_single (s : Stmt) (rest : List Stmt) :
    Scan.window [t] (s :: rest) = Compare.stmt s t := by
  have behind : Compare.stmtPairs rest [] = .yes := by cases rest <;> rfl
  have fits : [t].length ≤ (s :: rest).length := by simp
  rw [Scan.window, if_pos fits, Compare.stmtPairs, behind]
  rcases Compare.stmt s t with ⟨_ | _, captures⟩ <;> simp [Comparison.and, Comparison.yes]

/-- The statement is the whole run, or there is none. -/
theorem advance_single (index : Nat) (s : Stmt) :
    Scan.advance policy [t] none index s =
      if (Compare.stmt s t).holds then ⟨.ok (some ⟨index, (Compare.stmt s t).captures, []⟩), ∅⟩
      else ⟨.ok none, policy.keep (Compare.stmt s t).captures⟩ := by
  cases holds : (Compare.stmt s t).holds <;> simp [Scan.advance, Scan.Run.meet, holds]

theorem greedyFrom_single (stmts : List Stmt) (index : Nat) :
    Scan.greedyFrom inner policy [t] stmts index none =
      Scan.exhaustiveFrom inner policy [t] stmts index := by
  induction stmts generalizing index with
  | nil => cases policy <;> rfl
  | cons s stmts ih =>
    simp only [Scan.greedyFrom, Scan.exhaustiveFrom, advance_single, window_single, ih]
    cases (Compare.stmt s t).holds with
    | true => simp
    | false => simp [Outcome.tell]

theorem levels_single (limit left : Nat) (chunk : Block) :
    Scan.levels [t] ⟨.greedy, policy, limit⟩ left chunk =
      Scan.levels [t] ⟨.exhaustive, policy, limit⟩ left chunk := by
  induction left generalizing chunk with
  | zero => rfl
  | succ left ih =>
    have same : Scan.levels [t] ⟨.greedy, policy, limit⟩ left =
        Scan.levels [t] ⟨.exhaustive, policy, limit⟩ left := funext ih
    simp only [Scan.levels, same]
    exact greedyFrom_single _ policy t chunk 0

/-- A scan for one statement ends alike and leaves the same captures in both modes, under every
    policy and limit, whatever the session holds and however deep it is. -/
theorem scan_modes_agree (policy : CapturePolicy) (t : Stmt) (limit depth : Nat)
    (captures : Captures) (chunk : Block) :
    let session (mode : ScanMode) : Session := ⟨[t], ⟨mode, policy, limit⟩, captures, depth⟩
    let greedy := (Walk.scan chunk).runOn (session .greedy)
    let exhaustive := (Walk.scan chunk).runOn (session .exhaustive)
    greedy.1 = exhaustive.1 ∧ greedy.2.captures = exhaustive.2.captures ∧
      greedy.2.depth = exhaustive.2.depth := by
  intro session greedy exhaustive
  have same := levels_single policy t limit (limit - depth) chunk
  simp only [greedy, exhaustive, scan_runOn, session, same, true_and]
  exact ⟨rfl, rfl⟩

end LuaSearch
