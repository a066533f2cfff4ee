import LuaSearch.Proofs.Match.Cursor

/-!
When a greedy search finds what is there. A statement that is taken into a run is not searched
inside, also where the run comes to nothing, so it can hide a match; nothing else does. A match in
a block is found from outside unless a run is in progress behind a statement around the block. And
the occurrences in a block itself are found if no statement could both start the template and go
on with it, for then a run in progress never keeps an occurrence from being started.
-/
namespace LuaSearch

variable {template : List Stmt} {options : Options} {chunk block : Block}

structure Place where
  block : Block
  index : Nat

namespace Place

def stmt? (place : Place) : Option Stmt := place.block[place.index]?

/-- No run is in progress behind the statement: it is taken into none, or the template is complete
    with it. -/
def Clear (template : List Stmt) (place : Place) : Prop :=
  met template (place.block.take (place.index + 1)) = 0 ∨
    met template (place.block.take (place.index + 1)) = template.length

instance (template : List Stmt) (place : Place) : Decidable (place.Clear template) :=
  inferInstanceAs (Decidable (_ ∨ _))

theorem clear_of_apart {place : Place} {s : Stmt} (stands : place.stmt? = some s)
    (apart : ∀ t ∈ template.dropLast, (Compare.stmt s t).holds = false) :
    place.Clear template := by
  have last {k : Nat} (asked : asks template k s = true) : k + 1 = template.length := by
    obtain ⟨t, wanted, holds⟩ := asks_iff.mp asked
    have inside := (List.getElem?_eq_some_iff.mp wanted).1
    by_cases more : k < template.length - 1
    · have early : template.dropLast[k]? = some t := by
        rw [List.getElem?_dropLast, if_pos more, wanted]
      rw [apart t (List.mem_of_getElem? early)] at holds
      contradiction
    · omega
  unfold Clear
  rw [met_take_succ stands, metAfter]
  split
  · rename_i asked
    exact .inr (last asked)
  · split
    · rename_i asked
      exact .inr (last asked)
    · exact .inl rfl

end Place

/-- The block is the chunk, or lies in it with the statements at the places around it, the
    outermost first. -/
inductive Enclosed : Block → List Place → Block → Prop where
  | itself {chunk : Block} : Enclosed chunk [] chunk
  | inside {chunk body block : Block} {k : Nat} {s : Stmt} {scope : Scope} {places : List Place}
      (at_index : chunk[k]? = some s) (opens : (scope, body) ∈ s.openings)
      (rest : Enclosed body places block) : Enclosed chunk (⟨chunk, k⟩ :: places) block

theorem enclosed_of_nested {s : Stmt} {path : List Scope} (nested : Nested s path block)
    {k : Nat} (at_index : chunk[k]? = some s) : ∃ places, Enclosed chunk places block := by
  induction nested generalizing chunk k with
  | opened opens => exact ⟨_, .inside at_index opens .itself⟩
  | deeper opens member rest ih =>
    obtain ⟨j, at_inner⟩ := List.mem_iff_getElem?.mp member
    obtain ⟨places, enclosed⟩ := ih at_inner
    exact ⟨_, .inside at_index opens enclosed⟩

theorem enclosed_iff_reached :
    (∃ places, Enclosed chunk places block) ↔ ∃ path, Reached chunk path block := by
  constructor
  · rintro ⟨places, enclosed⟩
    induction enclosed with
    | itself => exact ⟨[], .itself⟩
    | inside at_index opens rest ih =>
      obtain ⟨path, reached⟩ := ih
      exact ⟨_, .nested (List.mem_of_getElem? at_index) (nested_of_opening opens reached)⟩
  · rintro ⟨path, reached⟩
    cases reached with
    | itself => exact ⟨[], .itself⟩
    | nested member nested =>
      obtain ⟨k, at_index⟩ := List.mem_iff_getElem?.mp member
      exact enclosed_of_nested nested at_index

theorem clear_of_enclosed {places : List Place} (enclosed : Enclosed chunk places block)
    (apart : ∀ place ∈ places, ∀ s ∈ place.stmt?,
      ∀ t ∈ template.dropLast, (Compare.stmt s t).holds = false) :
    ∀ place ∈ places, place.Clear template := by
  induction enclosed with
  | itself => simp
  | @inside chunk body block k s scope places at_index opens rest ih =>
    obtain ⟨first, others⟩ := List.forall_mem_cons.mp apart
    exact List.forall_mem_cons.mpr ⟨Place.clear_of_apart at_index (first s at_index), ih others⟩

/-- A search that finds nothing has searched every block inside, where no run is in progress
    behind a statement around the block, and has found nothing there. -/
theorem noMatch_of_enclosed (nonempty : template ≠ []) (mode : options.scan = .greedy)
    {places : List Place} (enclosed : Enclosed chunk places block)
    (clear : ∀ place ∈ places, place.Clear template) {left : Nat}
    (none : (Scan.levels template options left chunk).answer = .ok .noMatch) :
    ∃ less, (Scan.levels template options less block).answer = .ok .noMatch := by
  induction enclosed generalizing left with
  | itself => exact ⟨left, none⟩
  | @inside chunk body block k s scope places at_index opens rest ih =>
    obtain ⟨less, rfl⟩ := levels_pos none
    have passed := passed_of_noMatch nonempty mode none
    have within : k < chunk.length := (List.getElem?_eq_some_iff.mp at_index).1
    have idle : met template (chunk.take (k + 1)) = 0 := by
      rcases clear ⟨chunk, k⟩ List.mem_cons_self with left | complete
      · exact left
      · exact absurd complete (passed.unmet (k + 1) within)
    have inside := passed.inside k within s at_index idle (scope, body) opens
    exact ih (fun place member => clear place (List.mem_cons_of_mem _ member)) inside

/-- A match in a block that is searched alone is found from outside when no run is in progress
    behind any of the statements around the block. That is so in particular when none of them
    compares with a statement of the template other than the last, hence for every nested block
    when the template has one statement. -/
theorem find_greedy_enclosed {candidate block : Block} {template : Template}
    {options options' : Options} {inside found : Found} (mode : options.scan = .greedy)
    (mode' : options'.scan = .greedy) (alone : find block template options' = .ok inside)
    (isMatch : inside.verdict.isMatch = true)
    (ok : find candidate template options = .ok found) :
    (∀ places, Enclosed candidate places block →
      (∀ place ∈ places, place.Clear template.stmts) → found.verdict.isMatch = true) ∧
    (∀ places, Enclosed candidate places block →
      (∀ place ∈ places, ∀ s ∈ place.stmt?,
        ∀ t ∈ template.stmts.dropLast, (Compare.stmt s t).holds = false) →
      found.verdict.isMatch = true) ∧
    (template.length = 1 → ∀ s ∈ candidate, ∀ path, Nested s path block →
      found.verdict.isMatch = true) := by
  have seen {places : List Place} (enclosed : Enclosed candidate places block)
      (clear : ∀ place ∈ places, place.Clear template.stmts) : found.verdict.isMatch = true := by
    apply (Verdict.isMatch_iff _).mpr
    intro none
    have answer := answer_of_find ok
    rw [none] at answer
    obtain ⟨less, missed⟩ := noMatch_of_enclosed template.nonempty mode enclosed clear answer
    have contrary := noMatch_of_noMatch template.nonempty mode' mode (answer_of_find alone) missed
    exact (Verdict.isMatch_iff _).mp isMatch contrary
  refine ⟨?_, ?_, ?_⟩
  · intro places enclosed clear
    exact seen enclosed clear
  · intro places enclosed apart
    exact seen enclosed (clear_of_enclosed enclosed apart)
  · intro single s member path nested
    obtain ⟨places, enclosed⟩ := enclosed_iff_reached.mpr ⟨path, .nested member nested⟩
    apply seen enclosed
    apply clear_of_enclosed enclosed
    obtain ⟨t, only⟩ := List.length_eq_one_iff.mp single
    simp [only]

/-- A run begins at the `break`, ends at the loop, and the loop is searched inside. -/
theorem find_greedy_enclosed_loop :
    let span : Span := default
    let block : Block := [.breakStmt span, .returnStmt span []]
    let candidate : Block := [.breakStmt span, .whileLoop span (.ident span "x") block]
    let template : Template := ⟨block, by simp [block]⟩
    find block template default = .ok ⟨.found 0 2, ∅⟩ ∧
      (∀ place ∈ [Place.mk candidate 1], place.Clear template.stmts) ∧
      ∃ found, find candidate template default = .ok found ∧ found.verdict.isMatch = true := by
  intro span block candidate template
  have alone : find block template default = .ok ⟨.found 0 2, ∅⟩ := rfl
  have ok : find candidate template default = .ok ⟨.nested .block, ∅⟩ := rfl
  have enclosed : Enclosed candidate [⟨candidate, 1⟩] block :=
    .inside rfl (List.mem_singleton.mpr rfl) .itself
  have clear : ∀ place ∈ [Place.mk candidate 1], place.Clear template.stmts := by decide +kernel
  exact ⟨alone, clear, _, ok, (find_greedy_enclosed rfl rfl alone rfl ok).1 _ enclosed clear⟩

/-- What a statement in an open run hides: the outer `do` starts a run that nothing ends, and the
    template in its body is not looked for. -/
theorem greedy_hides_enclosed :
    let span : Span := default
    let block : Block := [.doBlock span [], .breakStmt span]
    let candidate : Block := [.doBlock span block]
    let template : Template := ⟨block, by simp [block]⟩
    Nested (.doBlock span block) [.block] block ∧
      find block template default = .ok ⟨.found 0 2, ∅⟩ ∧
      find candidate template default = .ok ⟨.noMatch, ∅⟩ ∧
      ¬ (Place.mk candidate 0).Clear template.stmts := by
  intro span block candidate template
  refine ⟨.opened (List.mem_singleton.mpr rfl), rfl, rfl, ?_⟩
  decide +kernel

/-- No statement of the block could both start the template and go on with it. -/
def StartsApart (template : List Stmt) (block : Block) : Prop :=
  ∀ s ∈ block, asks template 0 s = true → ∀ t ∈ template.tail, (Compare.stmt s t).holds = false

instance (template : List Stmt) (block : Block) : Decidable (StartsApart template block) :=
  inferInstanceAs (Decidable (∀ s ∈ block, _))

theorem asks_false_of_startsApart {s : Stmt} {k : Nat} (apart : StartsApart template block)
    (member : s ∈ block) (asked : asks template 0 s = true) (later : 0 < k) :
    asks template k s = false := by
  apply Bool.eq_false_iff.mpr
  intro again
  obtain ⟨t, wanted, holds⟩ := asks_iff.mp again
  have behind : template.tail[k - 1]? = some t := by
    rw [List.getElem?_tail, Nat.sub_add_cancel later, wanted]
  rw [apart s member asked t (List.mem_of_getElem? behind)] at holds
  contradiction

theorem asks_of_occursAt {i k : Nat} (occurs : OccursAt template block i)
    (inside : k < template.length) :
    ∃ s, block[i + k]? = some s ∧ asks template k s = true := by
  obtain ⟨fits, compares⟩ := occurs
  have at_index : block[i + k]? = some block[i + k] := List.getElem?_eq_getElem (by omega)
  have wanted : template[k]? = some template[k] := List.getElem?_eq_getElem inside
  exact ⟨_, at_index, asks_iff.mpr ⟨_, wanted, compares k inside⟩⟩

theorem met_of_occursAt {i : Nat} (apart : StartsApart template block)
    (occurs : OccursAt template block i) (j : Nat) (begun : 0 < j) (bounded : j ≤ template.length) :
    met template (block.take (i + j)) = j := by
  induction j with
  | zero => contradiction
  | succ j ih =>
    obtain ⟨s, at_index, asked⟩ := asks_of_occursAt occurs bounded
    rw [← Nat.add_assoc, met_take_succ at_index, metAfter]
    by_cases first : j = 0
    · subst first
      have anew : 0 < met template (block.take i) →
          asks template (met template (block.take i)) s = false :=
        asks_false_of_startsApart apart (List.mem_of_getElem? at_index) asked
      rcases Nat.eq_zero_or_pos (met template (block.take i)) with idle | running
      · simp [idle, asked]
      · simp [anew running, asked]
    · rw [ih (Nat.pos_of_ne_zero first) (Nat.le_of_succ_le bounded), if_pos asked]

theorem not_occursAt_of_passed {inner : Block → Outcome Verdict} {index i : Nat}
    (nonempty : template ≠ []) (apart : StartsApart template block)
    (passed : PassedUpTo inner template block index) (before : i + template.length ≤ index) :
    ¬ OccursAt template block i := by
  intro occurs
  have whole := met_of_occursAt apart occurs template.length (List.length_pos_iff.mpr nonempty)
    (Nat.le_refl _)
  exact passed.unmet _ before whole

/-- An occurrence is not missed where no statement of its block could both start the template and
    go on with it, and where no statement around the block compares with a statement of the
    template. In the chunk itself the range reported is then the first occurrence. -/
theorem find_greedy_complete {candidate block : Block} {template : Template} {options : Options}
    {found : Found} {places : List Place} {i : Nat} (mode : options.scan = .greedy)
    (ok : find candidate template options = .ok found)
    (enclosed : Enclosed candidate places block) (occurs : OccursAt template.stmts block i)
    (starts : StartsApart template.stmts block)
    (apart : ∀ place ∈ places, ∀ s ∈ place.stmt?,
      ∀ t ∈ template.stmts, (Compare.stmt s t).holds = false) :
    found.verdict.isMatch = true ∧
    (block = candidate → ∀ start stop, found.verdict = .found start stop →
      OccursAt template.stmts candidate start ∧
        ∀ j < start, ¬ OccursAt template.stmts candidate j) := by
  have answer := answer_of_find ok
  constructor
  · apply (Verdict.isMatch_iff _).mpr
    intro none
    have clear := clear_of_enclosed enclosed fun place member s stands t early =>
      apart place member s stands t (List.dropLast_subset _ early)
    rw [none] at answer
    obtain ⟨less, missed⟩ := noMatch_of_enclosed template.nonempty mode enclosed clear answer
    obtain ⟨less, rfl⟩ := levels_pos missed
    have passed := passed_of_noMatch template.nonempty mode missed
    obtain ⟨fits, _⟩ := id occurs
    exact not_occursAt_of_passed template.nonempty starts passed fits occurs
  · rintro rfl start stop range
    obtain ⟨length, first⟩ := occursAt_of_range ok range
    refine ⟨first, ?_⟩
    intro j before
    rw [range] at answer
    obtain ⟨less, left⟩ := levels_pos answer
    rw [left] at answer
    have ends := levels_greedy_ends template.nonempty mode less block
    rw [answer] at ends
    cases ends with
    | found passed within complete =>
      apply not_occursAt_of_passed template.nonempty starts passed
      rw [Template.length] at length
      omega

/-- Two blocks deep, and one statement behind a run that breaks where the occurrence starts. -/
theorem find_greedy_complete_blocks :
    let span : Span := default
    let block : Block := [.breakStmt span, .breakStmt span, .returnStmt span []]
    let candidate : Block := [.breakStmt span, .doBlock span [.doBlock span block]]
    let template : Template := ⟨[.breakStmt span, .returnStmt span []], by simp⟩
    OccursAt template.stmts block 1 ∧ StartsApart template.stmts block ∧
      ∃ found, find candidate template default = .ok found ∧ found.verdict.isMatch = true := by
  intro span block candidate template
  have ok : find candidate template default = .ok ⟨.nested .block, ∅⟩ := rfl
  have enclosed : Enclosed candidate [⟨candidate, 1⟩, ⟨[.doBlock span block], 0⟩] block :=
    .inside rfl (List.mem_singleton.mpr rfl) (.inside rfl (List.mem_singleton.mpr rfl) .itself)
  have occurs : OccursAt template.stmts block 1 := by
    rw [occursAt_iff_alignment]
    decide +kernel
  have starts : StartsApart template.stmts block := by decide +kernel
  have apart : ∀ place ∈ [Place.mk candidate 1, ⟨[.doBlock span block], 0⟩],
      ∀ s ∈ place.stmt?, ∀ t ∈ template.stmts, (Compare.stmt s t).holds = false := by
    decide +kernel
  exact ⟨occurs, starts, _, ok, (find_greedy_complete rfl ok enclosed occurs starts apart).1⟩

end LuaSearch
