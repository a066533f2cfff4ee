import LuaSearch.Proofs.Phrase.Statement

/-!
Phrases of blocks. Semicolons that stand behind a statement are left there and skipped before the
next one. So a body is read with any number of semicolons in front of it, and from the middle of
the repetition that collects the statements: what is collected before stays in front.
-/
namespace LuaSearch

open Lexeme Parse Relabeling

namespace Parse

def manyRound {α : Type} (item : Parse (Option α)) (items : Array α) :
    Parse (Round (Array α) (List α)) := do
  match ← item with
  | some a => return .again (items.push a)
  | none => return .done items.toList

theorem many_eq {α : Type} (item : Parse (Option α)) : many item = iterate (manyRound item) #[] :=
  rfl

end Parse

namespace Grammar

def blockEnd (inner : Level) (body : Block) : Parse Block := do
  if ← isAt (.keyword .return_) then
    let last ← returnStmt inner
    let _ ← eatSymbol .semicolon
    return body ++ [last]
  else return body

theorem block_eq (inner : Level) :
    block inner = (many (nextStatement inner) >>= blockEnd inner) := rfl

end Grammar

namespace Phrase

open Grammar

variable {rest : List Lexeme}

def pending (count : Nat) : List Lexeme := List.replicate count (ofSymbol .semicolon)

theorem semicolons_takes (count : Nat) (ended : Leads (· ≠ .symbol .semicolon) rest) :
    Takes (fun _ => True) semicolons (pending count ++ rest) rest := by
  apply iterate_reads
  induction count with
  | zero =>
    apply RoundsRead.done
    apply (eat_takes_false ended).next
    rintro _ rfl
    exact .pure trivial ⟨(), rfl, trivial⟩
  | succ count ih =>
    have text : pending (count + 1) ++ rest = ofSymbol .semicolon :: (pending count ++ rest) := rfl
    rw [text]
    refine RoundsRead.again
      (?_ : Takes (fun r : Round Unit Unit => ∃ next, r = .again next ∧ True) _ _ _)
      (by simp) (fun _ => trivial) fun _ _ _ => ih
    apply (eat_takes_true (l := ofSymbol .semicolon) rfl).next
    rintro _ rfl
    exact .pure trivial ⟨(), rfl, trivial⟩

theorem nextStatement_reads_some {s : Phrase Stmt} (starts : Leads (·.startsStmt) s.text)
    (reads : AsStmt s rest) (count n : Nat) :
    Reads (s.levels ≤ n) (fun s? => ∃ s', s? = some s' ∧ SameStmt s' s.tree)
      (nextStatement (Level.free n)) (pending count ++ (s.text ++ rest)) rest := by
  have first := starts.append rest
  apply (semicolons_takes count (first.mono ?_)).next
  · intro _ _
    apply (peek_takes first).next
    intro kind starts
    have goesOn : ¬ (kind.endsBlock ∨ kind = .keyword .return_) := by
      rintro (ends | rfl)
      · rw [Kind.noBlockEnd_of_startsStmt starts] at ends
        cases ends
      · cases starts
    simp only [if_neg goesOn]
    apply (reads n).bind id
    intro fit s' same
    exact .pure fit ⟨s', rfl, same⟩
  · rintro _ starts rfl
    cases starts

theorem nextStatement_takes_none (inner : Level) (count : Nat)
    (ended : Leads (fun kind => kind.endsBlock ∨ kind = .keyword .return_) rest) :
    Takes (· = none) (nextStatement inner) (pending count ++ rest) rest := by
  apply (semicolons_takes count (ended.mono ?_)).next
  · intro _ _
    apply (peek_takes ended).next
    intro kind ends
    simp only [if_pos ends]
    exact .pure trivial rfl
  · rintro _ ends rfl
    rcases ends with ends | ends <;> cases ends

/-- The text is read as what is left of a block, whatever was collected before and however many
    semicolons stand in front. -/
def AsBody (p : Phrase Block) : Prop :=
  ∀ n count (items : Array Stmt) {rest : List Lexeme}, Leads (·.endsBlock) rest →
    ∀ fuel, (pending count ++ (p.text ++ rest)).length < fuel →
      Reads (p.levels ≤ n) (SameBlock · (items.toList ++ p.tree))
        (rounds (manyRound (nextStatement (Level.free n))) fuel items >>= blockEnd (Level.free n))
        (pending count ++ (p.text ++ rest)) rest

theorem AsBody.asBlock {p : Phrase Block} (reads : AsBody p) : AsBlock p := by
  intro n rest ended
  cases n with
  | zero => exact .exhausted (Nat.not_lt_zero _)
  | succ n =>
    have read : (Level.free (n + 1)).block = block (Level.free n) := rfl
    rw [read, block_eq, many_eq]
    refine Reads.congr ?_ Nat.lt_succ_iff.symm
    intro c ahead
    have left : c.left = (p.text ++ rest).length := by rw [c.left_eq_length, ahead]
    exact reads n 0 #[] ended (c.left + 1) (by simp [pending, left]) c ahead

theorem rounds_reads_last {fits : Prop} {n count fuel : Nat} {items : Array Stmt} {b : Block}
    {input final : List Lexeme}
    (ended : Leads (fun kind => kind.endsBlock ∨ kind = .keyword .return_) input)
    (enough : (pending count ++ input).length < fuel)
    (later : Reads fits (SameBlock · b) (blockEnd (Level.free n) items.toList) input final) :
    Reads fits (SameBlock · b)
      (rounds (manyRound (nextStatement (Level.free n))) fuel items >>= blockEnd (Level.free n))
      (pending count ++ input) final := by
  have done : RoundsRead True (· = items.toList) (manyRound (nextStatement (Level.free n))) items
      (pending count ++ input) input := by
    apply RoundsRead.done
    apply (nextStatement_takes_none _ count ended).next
    rintro _ rfl
    exact .pure trivial ⟨_, rfl, rfl⟩
  apply Reads.next (done fuel enough)
  rintro _ rfl
  exact later

def emptyBody : Phrase Block := ⟨[], 0, []⟩

theorem asBody_empty : AsBody emptyBody := by
  intro n count items rest ended fuel enough
  refine rounds_reads_last (ended.mono fun _ => Or.inl) enough ?_
  apply (isAt_takes_false (ended.mono ?_)).next
  · rintro _ rfl
    exact .pure (Nat.zero_le n) (by simp [emptyBody])
  · rintro _ ends rfl
    cases ends

def result (values : List (Phrase Expr)) (closed : Bool) : Phrase Block :=
  ⟨(returnStmt values).text ++ if closed then [ofSymbol .semicolon] else [], depth values,
    [(returnStmt values).tree]⟩

theorem asBody_result {values : List (Phrase Expr)} {closed : Bool}
    (listed : values ≠ [] → ∀ {rest : List Lexeme},
      Leads (fun kind => kind.endsBlock ∨ kind = .symbol .semicolon) rest → Listed values rest)
    (starts : ∀ p ∈ values, Leads (·.startsTerm) p.text) : AsBody (result values closed) := by
  intro n count items rest ended fuel enough
  have follows : Leads (fun kind => kind.endsBlock ∨ kind = .symbol .semicolon)
      ((if closed then [ofSymbol .semicolon] else []) ++ rest) := by
    split
    · exact .cons (.inr rfl)
    · exact ended.mono fun _ => Or.inl
  have text : (result values closed).text ++ rest = (returnStmt values).text ++
      ((if closed then [ofSymbol .semicolon] else []) ++ rest) := List.append_assoc _ _ _
  rw [text] at enough ⊢
  refine rounds_reads_last (.cons (.inr rfl)) enough ?_
  apply (isAt_takes_true (.cons rfl)).next
  rintro _ rfl
  have read := returnStmt_reads (fun nonempty => listed nonempty follows) starts follows n
  apply read.bind id
  intro fit last same
  have skipped : Takes (fun _ => True) (eatSymbol .semicolon)
      ((if closed then [ofSymbol .semicolon] else []) ++ rest) rest := by
    cases closed with
    | true => exact (eat_takes_true (l := ofSymbol .semicolon) rfl).mono fun _ _ => trivial
    | false =>
      refine (eat_takes_false (ended.mono ?_)).mono fun _ _ => trivial
      rintro _ ends rfl
      cases ends
  apply skipped.next
  intro _ _
  refine .pure fit ?_
  simp only [result, SameBlock, stmts_eq_map, List.map_append, List.map_cons, List.map_nil, same]

def semicolon (body : Phrase Block) : Phrase Block :=
  ⟨ofSymbol .semicolon :: body.text, body.levels, body.tree⟩

theorem AsBody.semicolon {body : Phrase Block} (reads : AsBody body) :
    AsBody (semicolon body) := by
  intro n count items rest ended fuel enough
  have more : pending count ++ ((Phrase.semicolon body).text ++ rest) =
      pending (count + 1) ++ (body.text ++ rest) := by
    simp [pending, Phrase.semicolon, List.replicate_succ']
  rw [more] at enough ⊢
  exact reads n (count + 1) items ended fuel enough

def follow (s : Phrase Stmt) (body : Phrase Block) : Phrase Block :=
  ⟨s.text ++ body.text, max s.levels body.levels, s.tree :: body.tree⟩

theorem AsBody.follow {s : Phrase Stmt} {body : Phrase Block} (reads : AsBody body)
    (starts : Leads (·.startsStmt) s.text)
    (first : ∀ {rest : List Lexeme}, Leads (·.endsBlock) rest → AsStmt s (body.text ++ rest)) :
    AsBody (follow s body) := by
  intro n count items rest ended fuel enough
  have text : (Phrase.follow s body).text ++ rest = s.text ++ (body.text ++ rest) := by
    simp [Phrase.follow]
  rw [text] at enough ⊢
  cases fuel with
  | zero => exact absurd enough (Nat.not_lt_zero _)
  | succ fuel =>
    have nonempty := List.length_pos_iff.mpr starts.ne_nil
    have shorter : (pending 0 ++ (body.text ++ rest)).length < fuel := by
      simp only [List.length_append, pending, List.length_replicate] at enough ⊢
      omega
    have fitting : (Phrase.follow s body).levels ≤ n ↔ s.levels ≤ n ∧ body.levels ≤ n :=
      Nat.max_le
    -- The statement is one round; the rest of the rounds and the end of the block are read after.
    rw [rounds, bind_assoc]
    have one : Reads (s.levels ≤ n) (fun r => ∃ next, r = .again next ∧
        eraseSpans.stmts next.toList = eraseSpans.stmts (items.toList ++ [s.tree]))
        (manyRound (nextStatement (Level.free n)) items)
        (pending count ++ (s.text ++ (body.text ++ rest))) (body.text ++ rest) := by
      apply (nextStatement_reads_some starts (first ended) count n).bind id
      rintro fit _ ⟨s', rfl, same⟩
      refine .pure fit ⟨_, rfl, ?_⟩
      simp [stmts_eq_map, same]
    apply one.bind fun fit => (fitting.mp fit).1
    rintro fit _ ⟨next, rfl, collected⟩
    have later := reads n 0 next ended fuel shorter
    refine Reads.congr (later.mono ?_) ?_
    · intro b same
      simp only [SameBlock, stmts_eq_map, List.map_append] at same collected ⊢
      rw [same, collected]
      simp [Phrase.follow]
    · simp [fitting, fit]

end Phrase

end LuaSearch
