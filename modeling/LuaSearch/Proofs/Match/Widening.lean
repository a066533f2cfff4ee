import LuaSearch.Proofs.Match.Exhaustive

/-!
Templates that take no less. A template widens another one when it is as long and each of its
statements takes whatever the statement of the other one takes at the same place. A wide template
occurs wherever the narrow one does, and the exhaustive search, which misses no occurrence, finds it
there; so where the narrow one is found, the wide one is found too, if its search gives an answer.
-/
namespace LuaSearch

/-- The second template takes at each place what the first one takes there. -/
structure Widens (narrow wide : List Stmt) : Prop where
  length : narrow.length = wide.length
  each : ∀ k, (inside : k < narrow.length) → (inside' : k < wide.length) → ∀ c,
    (Compare.stmt c narrow[k]).holds = true → (Compare.stmt c wide[k]).holds = true

namespace Widens

variable {narrow wide : List Stmt} (widens : Widens narrow wide)

include widens

theorem occursAt {block : Block} {i : Nat} (occurs : OccursAt narrow block i) :
    OccursAt wide block i := by
  obtain ⟨fits, each⟩ := occurs
  have size := widens.length
  refine ⟨by omega, ?_⟩
  intro k inside
  have here : k < narrow.length := by omega
  exact widens.each k here inside _ (each k here)

theorem lacks {chunk : Block} (lacks : Lacks wide chunk) : Lacks narrow chunk := by
  constructor
  · intro i occurs
    exact lacks.1 i (widens.occursAt occurs)
  · intro s member path block nested i occurs
    exact lacks.2 s member path block nested i (widens.occursAt occurs)

theorem ne_nil (some : narrow ≠ []) : wide ≠ [] := by
  rintro rfl
  exact some (List.length_eq_zero_iff.mp widens.length)

theorem isMatch {candidate : Block} (some : narrow ≠ []) {options options' : Options}
    (mode : options.scan = .exhaustive) (mode' : options'.scan = .exhaustive)
    {verdict verdict' : Verdict} (ok : (scan narrow options candidate).answer = .ok verdict)
    (ok' : (scan wide options' candidate).answer = .ok verdict')
    (isMatch : verdict.isMatch = true) : verdict'.isMatch = true := by
  rw [Verdict.isMatch_iff] at isMatch ⊢
  intro none
  have tells := levels_exhaustive_tellsFirst some mode ok
  have tells' := levels_exhaustive_tellsFirst (widens.ne_nil some) mode' ok'
  have absent := (noMatch_iff_lacks tells').mp none
  exact isMatch ((noMatch_iff_lacks tells).mpr (widens.lacks absent))

end Widens

end LuaSearch
