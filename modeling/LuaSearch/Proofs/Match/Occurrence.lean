import LuaSearch.Proofs.Match.Nesting

/-!
Where a template occurs. An occurrence is an index of a block from which on the statements
compare one by one with those of the template. The search order is the order of the openings, so
among all occurrences in a block and below it there is a first one; `Stops` says which it is, by
what is absent before it.
-/
namespace LuaSearch

namespace Captures

def join : List Captures → Captures
  | [] => ∅
  | c :: cs => c ++ join cs

end Captures

/-- The template occurs in the block at the index. -/
def OccursAt (template : List Stmt) (block : Block) (i : Nat) : Prop :=
  ∃ fits : i + template.length ≤ block.length,
    ∀ k, (inside : k < template.length) → (Compare.stmt block[i + k] template[k]).holds = true

def alignment (template : List Stmt) (block : Block) (start : Nat) : List Comparison :=
  List.zipWith Compare.stmt (block.drop start) template

/-- What the comparisons of an alignment record, in order. -/
def alignedCaptures (template : List Stmt) (block : Block) (start : Nat) : Captures :=
  .join ((alignment template block start).map Comparison.captures)

def LacksInside (template : List Stmt) (s : Stmt) : Prop :=
  ∀ path block, Nested s path block → ∀ i, ¬ OccursAt template block i

def Lacks (template : List Stmt) (block : Block) : Prop :=
  (∀ i, ¬ OccursAt template block i) ∧ ∀ s ∈ block, LacksInside template s

def LacksBefore (template : List Stmt) (block : Block) (i : Nat) : Prop :=
  ∀ k < i, ¬ OccursAt template block k ∧ ∀ s, block[k]? = some s → LacksInside template s

/-- The block itself, by the empty path, or a block nested in one of its statements. -/
inductive Reached (chunk : Block) : List Scope → Block → Prop where
  | itself : Reached chunk [] chunk
  | nested {s : Stmt} {path : List Scope} {block : Block} (member : s ∈ chunk)
      (nested : Nested s path block) : Reached chunk path block

/-- The first occurrence in the order of the search is at the index of the block that the path
    leads to. -/
inductive Stops (template : List Stmt) : Block → List Scope → Block → Nat → Prop where
  | here {block : Block} {i : Nat} (before : LacksBefore template block i)
      (occurs : OccursAt template block i) : Stops template block [] block i
  | inside {block body target : Block} {k i : Nat} {s : Stmt} {scope : Scope}
      {path : List Scope} {earlier later : List (Scope × Block)}
      (before : LacksBefore template block k) (absent : ¬ OccursAt template block k)
      (at_index : block[k]? = some s) (openings : s.openings = earlier ++ (scope, body) :: later)
      (lacks : ∀ o ∈ earlier, Lacks template o.2) (rest : Stops template body path target i) :
      Stops template block (scope :: path) target i

def Verdict.ofSite (path : List Scope) (start length : Nat) : Verdict :=
  match path with
  | [] => .found start (start + length)
  | _ :: _ => .nested (Scope.ofPath path)

@[simp] theorem ofSite_nil (start length : Nat) :
    Verdict.ofSite [] start length = .found start (start + length) := rfl

@[simp] theorem ofSite_cons (scope : Scope) (path : List Scope) (start length : Nat) :
    Verdict.ofSite (scope :: path) start length = .nested (Scope.ofPath (scope :: path)) := rfl

theorem through_ofSite (scope : Scope) (path : List Scope) (start length : Nat) :
    scope.through (Verdict.ofSite path start length) = Scope.ofPath (scope :: path) := by
  cases path with
  | nil => cases scope <;> rfl
  | cons first rest =>
    by_cases crosses : .function ∈ first :: rest
    · simp [Scope.ofPath, crosses, Scope.through]
    · cases scope <;> simp [Scope.ofPath, crosses, Scope.through]

namespace Compare

theorem stmtPairs_holds (ss ts : List Stmt) :
    (stmtPairs ss ts).holds = (List.zipWith stmt ss ts).all Comparison.holds := by
  induction ss generalizing ts with
  | nil => cases ts <;> simp [stmtPairs, Comparison.yes]
  | cons s ss ih =>
    cases ts with
    | nil => simp [stmtPairs, Comparison.yes]
    | cons t ts => simp [stmtPairs, Comparison.holds_and, ih]

theorem stmtPairs_captures {ss ts : List Stmt} (holds : (stmtPairs ss ts).holds = true) :
    (stmtPairs ss ts).captures = .join ((List.zipWith stmt ss ts).map Comparison.captures) := by
  induction ss generalizing ts with
  | nil => cases ts <;> rfl
  | cons s ss ih =>
    cases ts with
    | nil => rfl
    | cons t ts =>
      simp only [stmtPairs, Comparison.holds_and, Bool.and_eq_true] at holds
      simp [stmtPairs, Comparison.captures_and, holds.1, ih holds.2, Captures.join]

end Compare

theorem occursAt_iff_alignment (template : List Stmt) (block : Block) (i : Nat) :
    OccursAt template block i ↔
      i + template.length ≤ block.length ∧
        ∀ c ∈ alignment template block i, c.holds = true := by
  constructor
  · rintro ⟨fits, compares⟩
    refine ⟨fits, ?_⟩
    intro c member
    obtain ⟨k, inside, rfl⟩ := List.mem_iff_getElem.mp member
    simp only [alignment, List.length_zipWith, List.length_drop] at inside
    simpa [alignment] using compares k (by omega)
  · rintro ⟨fits, compares⟩
    refine ⟨fits, ?_⟩
    intro k inside
    apply compares
    apply List.mem_iff_getElem.mpr
    refine ⟨k, ?_, ?_⟩
    · simp only [alignment, List.length_zipWith, List.length_drop]
      omega
    · simp [alignment]

theorem window_holds_iff {template : List Stmt} {block : Block} {i : Nat}
    (inside : i ≤ block.length) :
    (Scan.window template (block.drop i)).holds = true ↔ OccursAt template block i := by
  rw [occursAt_iff_alignment]
  unfold Scan.window
  have room : template.length ≤ (block.drop i).length ↔ i + template.length ≤ block.length := by
    rw [List.length_drop]
    omega
  split
  · rename_i fits
    rw [Compare.stmtPairs_holds, List.all_eq_true]
    simp only [room.mp fits, true_and]
    rfl
  · rename_i short
    have long : ¬ i + template.length ≤ block.length := fun fits => short (room.mpr fits)
    simp [Comparison.no, long]

theorem window_captures {template : List Stmt} {block : Block} {i : Nat}
    (holds : (Scan.window template (block.drop i)).holds = true) :
    (Scan.window template (block.drop i)).captures = alignedCaptures template block i := by
  unfold Scan.window at holds ⊢
  split
  · rename_i fits
    rw [if_pos fits] at holds
    exact Compare.stmtPairs_captures holds
  · rename_i short
    rw [if_neg short] at holds
    simp [Comparison.no] at holds

theorem drop_eq_cons {block stmts : Block} {index : Nat} {s : Stmt}
    (left : block.drop index = s :: stmts) :
    block[index]? = some s ∧ block.drop (index + 1) = stmts := by
  constructor
  · rw [← List.head?_drop, left]
    rfl
  · rw [← List.tail_drop, left]
    rfl

theorem nested_of_opening {s : Stmt} {scope : Scope} {body block : Block} {path : List Scope}
    (opens : (scope, body) ∈ s.openings) (reached : Reached body path block) :
    Nested s (scope :: path) block := by
  cases reached with
  | itself => exact .opened opens
  | nested member rest => exact .deeper opens member rest

theorem not_occursAt_of_lacks {template : List Stmt} {chunk block : Block} {path : List Scope}
    (lacks : Lacks template chunk) (reached : Reached chunk path block) (i : Nat) :
    ¬ OccursAt template block i := by
  cases reached with
  | itself => exact lacks.1 i
  | nested member rest => exact lacks.2 _ member _ _ rest i

theorem lacksInside_of_openings {template : List Stmt} {s : Stmt}
    (lacks : ∀ o ∈ s.openings, Lacks template o.2) : LacksInside template s := by
  intro path block nested i
  cases nested with
  | opened opens => exact (lacks _ opens).1 i
  | deeper opens member rest => exact (lacks _ opens).2 _ member _ _ rest i

theorem lacksBefore_length {template : List Stmt} {block : Block}
    (before : LacksBefore template block block.length) (nonempty : template ≠ []) :
    Lacks template block := by
  constructor
  · intro i occurs
    obtain ⟨fits, _⟩ := id occurs
    have some := List.length_pos_iff.mpr nonempty
    exact (before i (by omega)).1 occurs
  · intro s member
    obtain ⟨k, inside, rfl⟩ := List.mem_iff_getElem.mp member
    exact (before k inside).2 _ (List.getElem?_eq_getElem inside)

theorem stops_reached {template : List Stmt} {chunk block : Block} {path : List Scope} {i : Nat}
    (stops : Stops template chunk path block i) :
    Reached chunk path block ∧ OccursAt template block i := by
  induction stops with
  | here before occurs => exact ⟨.itself, occurs⟩
  | inside before absent at_index openings lacks rest ih =>
    refine ⟨?_, ih.2⟩
    apply Reached.nested (List.mem_of_getElem? at_index)
    exact nested_of_opening (by simp [openings]) ih.1

theorem stops_opening_not_lacksInside {template : List Stmt} {body target : Block} {s : Stmt}
    {scope : Scope} {path : List Scope} {earlier later : List (Scope × Block)} {i : Nat}
    (openings : s.openings = earlier ++ (scope, body) :: later)
    (rest : Stops template body path target i) : ¬ LacksInside template s := by
  intro lacks
  obtain ⟨reached, occurs⟩ := stops_reached rest
  have opens : (scope, body) ∈ s.openings := by simp [openings]
  exact lacks _ _ (nested_of_opening opens reached) i occurs

theorem split_unique {α : Type} {p : α → Prop} {as bs as' bs' : List α} {a a' : α}
    (same : as ++ a :: bs = as' ++ a' :: bs') (all : ∀ x ∈ as, p x) (all' : ∀ x ∈ as', p x)
    (none : ¬ p a) (none' : ¬ p a') : a = a' := by
  induction as generalizing as' with
  | nil =>
    cases as' with
    | nil => exact (List.cons.inj same).1
    | cons x as' =>
      rw [List.nil_append, List.cons_append] at same
      have first := (List.cons.inj same).1
      exact absurd (all' a (by simp [first])) none
  | cons x as ih =>
    cases as' with
    | nil =>
      rw [List.nil_append, List.cons_append] at same
      have first := (List.cons.inj same).1
      exact absurd (all a' (by simp [first])) none'
    | cons y as' =>
      apply ih (List.cons.inj same).2
      · intro z member
        exact all z (List.mem_cons_of_mem x member)
      · intro z member
        exact all' z (List.mem_cons_of_mem y member)

/-- There is one place at most where a search can stop. -/
theorem stops_unique {template : List Stmt} {chunk block block' : Block}
    {path path' : List Scope} {i i' : Nat} (stops : Stops template chunk path block i)
    (stops' : Stops template chunk path' block' i') : path = path' ∧ block = block' ∧ i = i' := by
  induction stops generalizing path' block' i' with
  | @here chunk i before occurs =>
    cases stops' with
    | here before' occurs' =>
      refine ⟨rfl, rfl, ?_⟩
      rcases Nat.lt_trichotomy i i' with less | same | more
      · exact absurd occurs (before' i less).1
      · exact same
      · exact absurd occurs' (before i' more).1
    | @inside _ _ _ k _ _ _ _ _ _ before' absent at_index openings lacks rest =>
      exfalso
      rcases Nat.lt_trichotomy i k with less | same | more
      · exact (before' i less).1 occurs
      · exact absent (same ▸ occurs)
      · exact stops_opening_not_lacksInside openings rest ((before k more).2 _ at_index)
  | @inside chunk body target k i s scope path earlier later before absent at_index openings lacks
      rest ih =>
    cases stops' with
    | here before' occurs' =>
      exfalso
      rcases Nat.lt_trichotomy k i' with less | same | more
      · exact stops_opening_not_lacksInside openings rest ((before' k less).2 _ at_index)
      · exact absent (same ▸ occurs')
      · exact (before i' more).1 occurs'
    | @inside _ body' _ k' _ s' scope' path' earlier' later' before' absent' at_index' openings'
        lacks' rest' =>
      have index : k = k' := by
        rcases Nat.lt_trichotomy k k' with less | same | more
        · exact absurd ((before' k less).2 _ at_index)
            (stops_opening_not_lacksInside openings rest)
        · exact same
        · exact absurd ((before k' more).2 _ at_index')
            (stops_opening_not_lacksInside openings' rest')
      subst index
      obtain rfl : s = s' := Option.some.inj (at_index.symm.trans at_index')
      have opening : (scope, body) = (scope', body') := by
        apply split_unique (openings.symm.trans openings') lacks lacks'
        · intro lacking
          obtain ⟨reached, occurs⟩ := stops_reached rest
          exact not_occursAt_of_lacks lacking reached i occurs
        · intro lacking
          obtain ⟨reached, occurs⟩ := stops_reached rest'
          exact not_occursAt_of_lacks lacking reached i' occurs
      cases opening
      obtain ⟨rfl, rfl, rfl⟩ := ih rest'
      exact ⟨rfl, rfl, rfl⟩

end LuaSearch
