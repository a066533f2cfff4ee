import LuaSearch.Cli.Report
import LuaSearch.Proofs.Match.Cursor
import LuaSearch.Proofs.Match.Halt
import LuaSearch.Proofs.Match.Origin
import LuaSearch.Proofs.Parse.Levels

/-!
The statement at which a nested match is reported. It is found by searching the statements one by
one, each alone, up to the first that has a match inside. In the exhaustive mode that is the
statement inside which the search of the whole halts, since no statement is passed over unsearched.
In the greedy mode a statement that goes on with a run is passed over; searched alone it starts
none, and may then be reported in place of the statement that holds the match.
-/
namespace LuaSearch

section Levels

variable {template : List Stmt} {options : Options} {left h : Nat} {chunk : Block} {s : Stmt}
  {scope : Scope}

abbrev HaltsInBlock (template : List Stmt) (options : Options) (left : Nat) (chunk : Block)
    (scope : Scope) (h : Nat) (s : Stmt) : Prop :=
  HaltsInside (Scan.levels template options left) options.captures
    (Scan.levels template options (left + 1)) chunk scope h s

/-- Whether the search of the statement alone takes it for the start of the template, and so does
    not look inside. -/
def takesAlone (template : List Stmt) (mode : ScanMode) (s : Stmt) : Bool :=
  match mode with
  | .greedy => asks template 0 s
  | .exhaustive => (Scan.window template [s]).holds

theorem levels_alone (nonempty : template ≠ [])
    (free : takesAlone template options.scan s = false) {inside : Captures}
    (searched : Scan.within (Scan.levels template options left) s = ⟨.ok (some scope), inside⟩) :
    ∃ kept, (options.captures = .discard → kept = ∅) ∧
      Scan.levels template options (left + 1) [s] = ⟨.ok (.nested scope), kept ++ inside⟩ := by
  cases mode : options.scan with
  | greedy =>
    have unasked : asks template 0 s = false := by simpa [takesAlone, mode] using free
    obtain ⟨next?, kept, given, next⟩ := fresh_hasMet options.captures template 0 s
    have clean := advance_clean template options.captures none 0 s
    simp only [unasked, Bool.false_eq_true, if_false] at next
    simp only [Scan.advance, given] at clean
    cases next with
    | running begun => omega
    | idle =>
      refine ⟨kept, clean, ?_⟩
      simp [Scan.levels, mode, Scan.greedy, nonempty, Scan.greedyFrom, Scan.advance, given,
        searched]
  | exhaustive =>
    have fails : (Scan.window template [s]).holds = false := by simpa [takesAlone, mode] using free
    refine ⟨options.captures.keep (Scan.window template [s]).captures, keep_discard _ _, ?_⟩
    simp [Scan.levels, mode, Scan.exhaustive, Scan.exhaustiveFrom, fails, searched]

theorem mem_take_of_lt {k : Nat} {t : Stmt} (at_index : chunk[k]? = some t) (before : k < h) :
    t ∈ chunk.take h := by
  rw [← List.getElem?_take_of_lt before] at at_index
  exact List.mem_of_getElem? at_index

theorem HaltsInBlock.idle (nonempty : template ≠ []) (mode : options.scan = .greedy)
    (halts : HaltsInBlock template options left chunk scope h s) :
    met template (chunk.take (h + 1)) = 0 := by
  have within : h < chunk.length := (List.getElem?_eq_some_iff.mp halts.at_index).1
  have passed := passed_of_noMatch nonempty mode halts.before
  have ends := levels_greedy_ends nonempty mode left (chunk.take (h + 1))
  rw [halts.upTo] at ends
  cases ends with
  | @nested k t _ o verdict _ at_index idle member found hit =>
    -- The statement where the pass ends is not before the one inside which it halts: the pass over
    -- the statements before that one went by all their openings.
    have bound := (List.getElem?_eq_some_iff.mp at_index).1
    rw [List.length_take] at bound
    rw [List.take_take, Nat.min_eq_left (by omega)] at idle
    rcases Nat.lt_or_ge k h with before | upTo
    · have earlier : (chunk.take h)[k]? = some t := by
        rw [List.getElem?_take_of_lt (by omega)] at at_index ⊢
        exact at_index
      have cursor : met template ((chunk.take h).take (k + 1)) = 0 := by
        rwa [List.take_take, Nat.min_eq_left (by omega)]
      have missed := passed.inside k (by rw [List.length_take]; omega) t earlier cursor o member
      rw [missed] at found
      cases found
      contradiction
    · obtain rfl : k = h := by omega
      exact idle

theorem HaltsInBlock.first (nonempty : template ≠ []) (mode : options.scan = .exhaustive)
    (halts : HaltsInBlock template options left chunk scope h s) :
    (∀ t ∈ chunk.take h, LacksInside template t) ∧ ¬ LacksInside template s ∧
      ¬ OccursAt template (chunk.take (h + 1)) h := by
  have missed := levels_exhaustive_tellsFirst nonempty mode halts.before
  have before : Lacks template (chunk.take h) := (noMatch_iff_lacks missed).mp rfl
  have tells := levels_exhaustive_tellsFirst nonempty mode halts.upTo
  obtain ⟨path, block, i, further, stops, _⟩ := (nested_iff_stops tells scope).mp rfl
  cases stops with
  | here => contradiction
  | @inside _ _ _ k _ t _ _ _ _ _ absent at_index openings _ rest =>
    have holds := stops_opening_not_lacksInside openings rest
    have bound := (List.getElem?_eq_some_iff.mp at_index).1
    rw [List.length_take] at bound
    rw [List.getElem?_take_of_lt (by omega)] at at_index
    have same : k = h := by
      apply Nat.le_antisymm (by omega)
      apply Nat.le_of_not_lt
      intro earlier
      exact holds (before.2 t (mem_take_of_lt at_index earlier))
    subst same
    obtain rfl : s = t := Option.some.inj (halts.at_index.symm.trans at_index)
    exact ⟨before.2, holds, absent⟩

theorem HaltsInBlock.free (nonempty : template ≠ [])
    (halts : HaltsInBlock template options left chunk scope h s) :
    takesAlone template options.scan s = false := by
  cases mode : options.scan with
  | greedy =>
    have idle := halts.idle nonempty mode
    rw [met_take_succ halts.at_index, metAfter] at idle
    cases asked : asks template 0 s with
    | false => exact asked
    | true =>
      simp only [asked, if_true] at idle
      split at idle <;> omega
  | exhaustive =>
    obtain ⟨_, _, absent⟩ := halts.first nonempty mode
    have within : h < chunk.length := (List.getElem?_eq_some_iff.mp halts.at_index).1
    have last : (chunk.take (h + 1)).drop h = [s] := by
      rw [List.take_add_one, halts.at_index, List.drop_append_of_le_length (by simp; omega)]
      simp
    have upTo : h ≤ (chunk.take (h + 1)).length := by
      rw [List.length_take]
      omega
    rw [← window_holds_iff upTo, last] at absent
    exact Bool.eq_false_iff.mpr absent

end Levels

section Find

variable {chunk : Block} {template : Template} {options : Options} {found : Found} {scope : Scope}

theorem find_haltsInside (ok : find chunk template options = .ok found)
    (nested : found.verdict = .nested scope) :
    ∃ left h s, options.maxDepth = left + 1 ∧
      HaltsInBlock template.stmts options left chunk scope h s ∧
      (options.captures = .discard →
        found.captures = (Scan.within (Scan.levels template.stmts options left) s).captures) := by
  have ran := scan_of_find ok
  have answer := answer_of_find ok
  obtain ⟨left, limit⟩ := levels_pos answer
  rw [scan, limit] at ran
  rw [limit, nested] at answer
  obtain ⟨h, s, halts⟩ := levels_haltsInside answer
  refine ⟨left, h, s, limit, halts, ?_⟩
  intro discard
  rw [← halts.recorded discard, ran]

theorem find_alone (ok : find chunk template options = .ok found)
    {left h : Nat} {s : Stmt} (limit : options.maxDepth = left + 1)
    (halts : HaltsInBlock template.stmts options left chunk scope h s) :
    ∃ alone, find [s] template options = .ok alone ∧ alone.verdict = .nested scope ∧
      (options.captures = .discard →
        alone.captures = (Scan.within (Scan.levels template.stmts options left) s).captures) := by
  rcases searched : Scan.within (Scan.levels template.stmts options left) s with ⟨answer, inside⟩
  obtain rfl : answer = .ok (some scope) := by simpa [searched] using halts.found
  obtain ⟨kept, clean, given⟩ :=
    levels_alone template.nonempty (halts.free template.nonempty) searched
  rw [← limit] at given
  refine ⟨_, find_eq_of_scan (fits_of_find ok) given, rfl, ?_⟩
  intro discard
  simp [clean discard]

def nestedAlone (template : Template) (options : Options) (s : Stmt) : Bool :=
  match find [s] template options with
  | .ok ⟨.nested _, _⟩ => true
  | _ => false

theorem nestedAlone_iff {s : Stmt} :
    nestedAlone template options s = true ↔
      ∃ alone scope, find [s] template options = .ok alone ∧ alone.verdict = .nested scope := by
  unfold nestedAlone
  constructor
  · intro holds
    split at holds
    · rename_i scope captures given
      exact ⟨_, scope, given, rfl⟩
    · cases holds
  · rintro ⟨⟨verdict, captures⟩, scope, given, rfl⟩
    rw [given]

theorem haltsInside_of_nestedAlone {left : Nat} {s : Stmt} (limit : options.maxDepth = left + 1)
    (alone : nestedAlone template options s = true) :
    ∃ scope, HaltsInBlock template.stmts options left [s] scope 0 s := by
  obtain ⟨found, scope, ok, nested⟩ := nestedAlone_iff.mp alone
  obtain ⟨left', h, t, limit', halts, _⟩ := find_haltsInside ok nested
  obtain rfl : left = left' := by omega
  obtain ⟨rfl, rfl⟩ : h = 0 ∧ s = t := by simpa [List.getElem?_eq_some_iff] using halts.at_index
  exact ⟨scope, halts⟩

/-- The first statement with a match inside when it is searched alone is the one reported. It is
    not behind the one inside which the search halts. -/
theorem anchor_first (ok : find chunk template options = .ok found)
    (nested : found.verdict = .nested scope) {left h : Nat} {s : Stmt}
    (limit : options.maxDepth = left + 1)
    (halts : HaltsInBlock template.stmts options left chunk scope h s) :
    ∃ k t, k ≤ h ∧ chunk[k]? = some t ∧ anchor? chunk template options found.verdict = some t ∧
      nestedAlone template options t = true ∧
      ∀ j < k, ∀ u, chunk[j]? = some u → nestedAlone template options u = false := by
  obtain ⟨alone, given, verdict, _⟩ := find_alone ok limit halts
  have holds : nestedAlone template options s = true :=
    nestedAlone_iff.mpr ⟨alone, scope, given, verdict⟩
  have anchor : anchor? chunk template options found.verdict =
      chunk.find? (nestedAlone template options) := by
    rw [nested]
    rfl
  have member := List.mem_of_getElem? halts.at_index
  obtain ⟨t, reported⟩ := Option.isSome_iff_exists.mp
    (List.find?_isSome.mpr ⟨s, member, holds⟩ :
      (chunk.find? (nestedAlone template options)).isSome = true)
  obtain ⟨first, k, inside, at_index, before⟩ := List.find?_eq_some_iff_getElem.mp reported
  refine ⟨k, t, ?_, ?_, anchor.trans reported, first, ?_⟩
  · apply Nat.le_of_not_lt
    intro earlier
    obtain ⟨bound, at_h⟩ := List.getElem?_eq_some_iff.mp halts.at_index
    have fails := before h earlier
    simp [at_h, holds] at fails
  · exact List.getElem?_eq_some_iff.mpr ⟨inside, at_index⟩
  · intro j earlier u at_j
    obtain ⟨bound, rfl⟩ := List.getElem?_eq_some_iff.mp at_j
    simpa using before j earlier

theorem anchor_found (ok : find chunk template options = .ok found) {start stop : Nat}
    (range : found.verdict = .found start stop) :
    ∃ s, anchor? chunk template options found.verdict = some s := by
  obtain ⟨_, fits, _⟩ := occursAt_of_range ok range
  have some := List.length_pos_iff.mpr template.nonempty
  have inside : start < chunk.length := by omega
  rw [range]
  exact ⟨chunk[start], List.getElem?_eq_getElem inside⟩

/-- A match is always reported at a statement. A nested match of an exhaustive search is reported
    at the first statement that has an occurrence nested in it, and the search of that statement
    alone gives the same scope and, under the policy that discards, the same captures. -/
theorem find_match_anchored (ok : find chunk template options = .ok found)
    (isMatch : found.verdict ≠ .noMatch) :
    (∃ s, anchor? chunk template options found.verdict = some s) ∧
    ∀ scope, options.scan = .exhaustive → found.verdict = .nested scope →
      ∃ (k : Nat) (s : Stmt) (alone : Found), chunk[k]? = some s ∧
        anchor? chunk template options found.verdict = some s ∧
        (∃ path block i, Nested s path block ∧ OccursAt template.stmts block i) ∧
        (∀ j < k, ∀ t, chunk[j]? = some t → ∀ path block, Nested t path block →
          ∀ i, ¬ OccursAt template.stmts block i) ∧
        find [s] template options = .ok alone ∧ alone.verdict = .nested scope ∧
        (options.captures = .discard → alone.captures = found.captures) := by
  constructor
  · cases verdict : found.verdict with
    | noMatch => contradiction
    | found start stop => exact verdict ▸ anchor_found ok verdict
    | nested scope =>
      obtain ⟨left, h, s, limit, halts, _⟩ := find_haltsInside ok verdict
      obtain ⟨k, t, _, _, reported, _⟩ := anchor_first ok verdict limit halts
      exact ⟨t, verdict ▸ reported⟩
  · intro scope mode nested
    obtain ⟨left, h, s, limit, halts, recorded⟩ := find_haltsInside ok nested
    obtain ⟨k, t, upTo, at_k, reported, first, _⟩ := anchor_first ok nested limit halts
    obtain ⟨alone, given, verdict, same⟩ := find_alone ok limit halts
    obtain ⟨lacks, holds, _⟩ := halts.first template.nonempty mode
    -- Nothing is nested in the statements before, so none of them is reported.
    have index : k = h := by
      apply Nat.le_antisymm upTo
      apply Nat.le_of_not_lt
      intro earlier
      obtain ⟨_, inside⟩ := haltsInside_of_nestedAlone limit first
      exact (inside.first template.nonempty mode).2.1 (lacks t (mem_take_of_lt at_k earlier))
    subst index
    obtain rfl : s = t := Option.some.inj (halts.at_index.symm.trans at_k)
    refine ⟨k, s, alone, at_k, reported, ?_, ?_, given, verdict, ?_⟩
    · simpa [LacksInside] using holds
    · intro j earlier t at_j
      exact lacks t (mem_take_of_lt at_j earlier)
    · intro discard
      rw [same discard, recorded discard]

/-- Two blocks, the second with an occurrence: that is the one reported. -/
theorem find_match_anchored_second :
    let span : Span := default
    let name : Expr := .ident span "a"
    let call (arg : Expr) : Stmt := .call span (.call span (.ident span "f") [arg] false)
    let chunk : Block := [.doBlock span [.breakStmt span], .doBlock span [call name]]
    let template : Template := ⟨[call (.wildcard span .ident)], by simp⟩
    let options : Options := ⟨.exhaustive, .discard, defaultMaxDepth⟩
    let captures : Captures := ⟨[name], []⟩
    find chunk template options = .ok ⟨.nested .block, captures⟩ ∧
      ∃ (k : Nat) (s : Stmt) (alone : Found), chunk[k]? = some s ∧
        anchor? chunk template options (.nested .block) = some s ∧
        find [s] template options = .ok alone ∧ alone.captures = captures := by
  intro span name call chunk template options captures
  have ok : find chunk template options = .ok ⟨.nested .block, captures⟩ := rfl
  have anchored := find_match_anchored ok (by simp)
  obtain ⟨k, s, alone, at_index, reported, _, _, given, _, same⟩ := anchored.2 .block rfl rfl
  exact ⟨ok, k, s, alone, at_index, reported, given, same rfl⟩

/-- The statement at the index goes on with a run that was begun before it, and has a match inside
    when it is searched alone. -/
def Strays (template : Template) (options : Options) (chunk : Block) (j : Nat) : Prop :=
  2 ≤ met template.stmts (chunk.take (j + 1)) ∧
    ∃ s, chunk[j]? = some s ∧ nestedAlone template options s = true

/-- Before the place where a greedy search halts, a statement with a match inside when it is
    searched alone goes on with a run, and does not complete it. -/
theorem strays_of_nestedAlone {left h j : Nat} {s t : Stmt} (mode : options.scan = .greedy)
    (limit : options.maxDepth = left + 1)
    (halts : HaltsInBlock template.stmts options left chunk scope h s)
    (before : j < h) (at_index : chunk[j]? = some t)
    (alone : nestedAlone template options t = true) :
    Strays template options chunk j ∧ 2 < template.length := by
  have within : h < chunk.length := (List.getElem?_eq_some_iff.mp halts.at_index).1
  have front : (chunk.take h)[j]? = some t := by rwa [List.getElem?_take_of_lt before]
  have upTo : (chunk.take h).take (j + 1) = chunk.take (j + 1) := by
    rw [List.take_take, Nat.min_eq_left before]
  have length : (chunk.take h).length = h := by
    rw [List.length_take]
    omega
  have passed := passed_of_noMatch template.nonempty mode halts.before
  obtain ⟨inner, inside⟩ := haltsInside_of_nestedAlone limit alone
  have unasked : asks template.stmts 0 t = false := by
    simpa [takesAlone, mode] using inside.free template.nonempty
  -- A run is in progress, or the statement would have been searched inside.
  have running : met template.stmts (chunk.take (j + 1)) ≠ 0 := by
    intro idle
    have missed := passed.inside j (by omega) t front (upTo ▸ idle)
    have gives := inOpenings_gives (Scan.levels template.stmts options left) t.openings
    rw [← Scan.within_eq_inOpenings, inside.found] at gives
    cases gives with
    | matched member found hit =>
      rw [missed _ member] at found
      cases found
      contradiction
  -- It was not begun by the statement, which is not what the template starts with.
  have longer : met template.stmts (chunk.take (j + 1)) ≠ 1 := by
    rw [met_take_succ at_index, metAfter, unasked]
    split
    · rename_i asked
      intro one
      have first : met template.stmts (chunk.take j) = 0 := by omega
      rw [first, unasked] at asked
      cases asked
    · simp
  have bound : met template.stmts (chunk.take (j + 1)) ≤ template.length := by
    rw [met_take_succ at_index]
    exact metAfter_le template.stmts _ t
  have unmet : met template.stmts (chunk.take (j + 1)) ≠ template.length :=
    upTo ▸ passed.unmet (j + 1) (by omega)
  exact ⟨⟨by omega, t, at_index, alone⟩, by omega⟩

/-- A greedy search that finds a nested match halts inside a statement, and what it captures under
    the policy that discards comes from that statement. The report is placed at the start of the
    statement reported, which is that one exactly when no statement before it strays, and else the
    first that does. No statement strays from a template of at most two statements. -/
theorem anchor_greedy (mode : options.scan = .greedy) (ok : find chunk template options = .ok found)
    (nested : found.verdict = .nested scope) :
    ∃ (left h k : Nat) (s t : Stmt), options.maxDepth = left + 1 ∧
      HaltsInBlock template.stmts options left chunk scope h s ∧
      (options.captures = .discard → found.captures.From (Nodes.stmt s)) ∧
      chunk[k]? = some t ∧ anchor? chunk template options found.verdict = some t ∧
      (∀ path source, (Cli.FileReport.of path source
        (anchor? chunk template options found.verdict) found).position? =
          some (t.span.position source)) ∧
      (k = h ↔ ∀ j < h, ¬ Strays template options chunk j) ∧
      (k ≠ h → k < h ∧ Strays template options chunk k ∧
        ∀ j < k, ¬ Strays template options chunk j) ∧
      (template.length ≤ 2 → k = h) := by
  obtain ⟨left, h, s, limit, halts, recorded⟩ := find_haltsInside ok nested
  obtain ⟨k, t, upTo, at_k, reported, first, before⟩ := anchor_first ok nested limit halts
  have origin : options.captures = .discard → found.captures.From (Nodes.stmt s) := by
    intro discard
    rw [recorded discard]
    exact Scan.within_levels_from template.stmts options left s
  have place (path source : String) : (Cli.FileReport.of path source
      (anchor? chunk template options found.verdict) found).position? =
        some (t.span.position source) := by
    rw [reported]
    rfl
  have strays (earlier : k < h) := strays_of_nestedAlone mode limit halts earlier at_k first
  have none : ∀ j < k, ¬ Strays template options chunk j := by
    rintro j earlier ⟨_, u, at_j, alone⟩
    rw [before j earlier u at_j] at alone
    cases alone
  refine ⟨left, h, k, s, t, limit, halts, origin, at_k, reported, place, ?_, ?_, ?_⟩
  · constructor
    · rintro rfl
      exact none
    · intro absent
      apply Nat.le_antisymm upTo
      apply Nat.le_of_not_lt
      intro earlier
      exact absent k earlier (strays earlier).1
  · intro other
    have earlier : k < h := by omega
    exact ⟨earlier, (strays earlier).1, none⟩
  · intro short
    apply Nat.le_antisymm upTo
    apply Nat.le_of_not_lt
    intro earlier
    have long := (strays earlier).2
    omega

/-- A template of two statements that occurs in a loop, behind a run that is broken off. -/
theorem anchor_greedy_loop :
    let span : Span := default
    let call : Stmt := .call span (.call span (.ident span "f") [] false)
    let loop : Stmt := .whileLoop span (.ident span "a") [call, .breakStmt span]
    let chunk : Block := [call, loop]
    let template : Template := ⟨[call, .breakStmt span], by simp⟩
    find chunk template default = .ok ⟨.nested .block, ∅⟩ ∧
      ∃ (left h : Nat) (s : Stmt),
        HaltsInBlock template.stmts default left chunk .block h s ∧
        anchor? chunk template default (.nested .block) = some s := by
  intro span call loop chunk template
  have ok : find chunk template default = .ok ⟨.nested .block, ∅⟩ := rfl
  obtain ⟨left, h, k, s, t, _, halts, _, at_k, reported, _, _, _, short⟩ :=
    anchor_greedy rfl ok rfl
  obtain rfl := short (Nat.le_refl 2)
  obtain rfl := Option.some.inj (halts.at_index.symm.trans at_k)
  exact ⟨ok, left, k, s, halts, reported⟩

/-- The match is in the last line, and so is the name captured; the report is placed at the second
    line, where a block goes on with a run that the third line breaks off. -/
theorem anchor_greedy_astray :
    let source := "f()\ndo f() do end g(a) end\nx = 1\ndo f() do end g(b) end\n"
    let call (start stop : Nat) (name : String) (args : List Expr) : Stmt :=
      .call ⟨start, stop⟩ (.call ⟨start, stop⟩ (.ident ⟨start, start + 1⟩ name) args false)
    let block (start : Nat) (name : String) : Stmt := .doBlock ⟨start, start + 22⟩
      [call (start + 3) (start + 6) "f" [], .doBlock ⟨start + 7, start + 13⟩ [],
        call (start + 14) (start + 18) "g" [.ident ⟨start + 16, start + 17⟩ name]]
    let chunk : Block := [call 0 3 "f" [], block 4 "a",
      .assign ⟨27, 32⟩ [.ident ⟨27, 28⟩ "x"] [.number ⟨31, 32⟩ "1"], block 33 "b"]
    let pattern (arg : Expr) : Block :=
      [call 0 3 "f" [], .doBlock ⟨4, 10⟩ [], call 11 25 "g" [arg]]
    let template : Template := ⟨pattern (.wildcard ⟨13, 24⟩ .ident), by simp [pattern]⟩
    let options : Options := ⟨.greedy, .discard, defaultMaxDepth⟩
    let found : Found := ⟨.nested .block, ⟨[.ident ⟨49, 50⟩ "b"], []⟩⟩
    parse source = .ok chunk ∧
      parse "f() do end g(_IdentExpr_)" = .ok (pattern (.ident ⟨13, 24⟩ "_IdentExpr_")) ∧
      Template.ofChunk (pattern (.ident ⟨13, 24⟩ "_IdentExpr_")) = .ok template ∧
      find chunk template options = .ok found ∧
      HaltsInBlock template.stmts options 255 chunk .block 3 (block 33 "b") ∧
      anchor? chunk template options found.verdict = some (block 4 "a") ∧
      (block 4 "a").span.position source = ⟨2, 1⟩ ∧
      (block 33 "b").span.position source = ⟨4, 1⟩ ∧
      ¬ found.captures.From (Nodes.stmt (block 4 "a")) := by
  intro source call block chunk pattern template options found
  have read : parse source = .ok chunk := by
    rw [parse_eq_chunkReader (by decide +kernel)]
    dsimp only [source, chunk, block, call]
    rfl
  refine ⟨read, rfl, rfl, rfl, ⟨rfl, rfl, rfl, rfl, fun _ => rfl⟩, rfl, by decide, by decide, ?_⟩
  rintro ⟨exprs, _⟩
  cases exprs _ List.mem_cons_self with
  | ident member => simp [block, call, Nodes.stmt, Nodes.stmts, Nodes.expr, Nodes.exprs] at member
  | declared member =>
    simp [block, call, Nodes.stmt, Nodes.stmts, Nodes.expr, Nodes.exprs] at member

end Find

end LuaSearch
