import LuaSearch.Proofs.Parse.Precedence

/-!
Chains of operators. Names with operators between them are the text of a formula that needs no
parentheses: an operator joins the right end of what stands before it, inside the right operand of
each operator that binds looser. If no operator groups to the right, the priorities rise from each
operator to those in its right operand, so a chain of any length takes no more levels than there are
priorities.
-/
namespace LuaSearch

open Lexeme Parse Relabeling

def Expr.inOrder? : Expr → Option (List Lexeme)
  | .ident _ name => some [ofName name]
  | .binary _ op left right => do return (← left.inOrder?) ++ op.lexeme :: (← right.inOrder?)
  | _ => none

theorem Expr.inOrder?_eraseSpans : ∀ e : Expr, (eraseSpans.expr e).inOrder? = e.inOrder?
  | .binary _ op left right => by
    simp only [Relabeling.expr, inOrder?, left.inOrder?_eraseSpans, right.inOrder?_eraseSpans]
  | .constant .. | .string .. | .number .. | .ident .. | .unary .. | .index .. | .table ..
  | .call .. | .methodCall .. | .function .. | .wildcard .. => rfl

theorem SameExpr.inOrder? {e e' : Expr} (same : SameExpr e e') : e.inOrder? = e'.inOrder? := by
  rw [← e.inOrder?_eraseSpans, same, e'.inOrder?_eraseSpans]

namespace BinaryOp

def GroupsLeft (op : BinaryOp) : Prop := op ≠ .concat ∧ op ≠ .arith .pow

theorem GroupsLeft.rightPriority_eq {op : BinaryOp} (left : op.GroupsLeft) :
    op.rightPriority = op.leftPriority := by
  have notRight : ¬ op.rightPriority < op.leftPriority := by
    rw [rightPriority_lt_iff]
    exact not_or.mpr left
  exact Nat.le_antisymm (Formula.rightPriority_le op) (Nat.not_lt.mp notRight)

def prioritiesAbove (limit : Nat) : Nat :=
  ([1, 2, 3, 4, 5, 6, 7, 10, 11].filter (limit < ·)).length

theorem GroupsLeft.prioritiesAbove_lt {op : BinaryOp} (left : op.GroupsLeft) {limit : Nat}
    (tighter : limit < op.leftPriority) :
    prioritiesAbove op.leftPriority < prioritiesAbove limit := by
  revert limit
  rcases op with op | op | op | _
  · cases op
    case pow => exact absurd rfl left.2
    all_goals decide
  · cases op
    all_goals decide
  · cases op
    all_goals decide
  · exact absurd rfl left.1

end BinaryOp

def chainText (first : String) (steps : List (BinaryOp × String)) : List Lexeme :=
  ofName first :: steps.flatMap fun (op, name) => [op.lexeme, ofName name]

namespace Formula

/-- Names with operators between them that group to the left, in no need of parentheses. -/
inductive Flat : Formula → Prop where
  | name (text : String) : Flat (name text)
  | binary {op : BinaryOp} {left right : Formula} (groups : op.GroupsLeft)
      (bareLeft : left.bareBefore op) (bareRight : right.bareBehind op.rightPriority)
      (flatLeft : Flat left) (flatRight : Flat right) : Flat (binary op left right)

theorem lexemes_of_bare {op : BinaryOp} {left right : Formula} (bareLeft : left.bareBefore op)
    (bareRight : right.bareBehind op.rightPriority) :
    (binary op left right).lexemes = left.lexemes ++ op.lexeme :: right.lexemes := by
  simp [lexemes, Render.grouped, bareLeft, bareRight]

namespace Flat

variable {t : Formula}

theorem inOrder? (flat : t.Flat) : t.toExpr.inOrder? = some t.lexemes := by
  induction flat with
  | name text => rfl
  | binary groups bareLeft bareRight _ _ leftOrder rightOrder =>
    rw [lexemes_of_bare bareLeft bareRight]
    simp [toExpr, Expr.inOrder?, leftOrder, rightOrder]

/-- The left operand is read at the limit of the whole, and the right one at a limit above it. -/
theorem levels_le (flat : t.Flat) {limit : Nat} (bare : t.bareBehind limit) :
    t.levels ≤ BinaryOp.prioritiesAbove limit := by
  induction flat generalizing limit with
  | name text => exact Nat.zero_le _
  | @binary op left right groups bareLeft bareRight _ _ leftLevels rightLevels =>
    have tighter : limit < op.leftPriority := by simpa [bareBehind] using bare
    have before := leftLevels (bareBehind_of_bareBefore bareLeft tighter)
    have behind := rightLevels bareRight
    rw [groups.rightPriority_eq] at behind
    have fewer := groups.prioritiesAbove_lt tighter
    simp only [levels, Levels.grouped, bareLeft, bareRight, if_true]
    omega

end Flat

def join (op : BinaryOp) (text : String) : Formula → Formula
  | binary before left right =>
      if before.rightPriority < op.leftPriority then binary before left (right.join op text)
      else binary op (binary before left right) (name text)
  | t => binary op t (name text)

theorem bareBehind_join {op : BinaryOp} {limit : Nat} {t : Formula} (bare : t.bareBehind limit)
    (tighter : limit < op.leftPriority) (text : String) : (t.join op text).bareBehind limit := by
  cases t with
  | binary before left right =>
    rw [join]
    split
    · exact bare
    · simpa [bareBehind] using tighter
  | _ => simpa [join, bareBehind] using tighter

def ofChain (t : Formula) (steps : List (BinaryOp × String)) : Formula :=
  steps.foldl (fun t (op, text) => t.join op text) t

namespace Flat

variable {t : Formula}

theorem join (flat : t.Flat) {op : BinaryOp} (groups : op.GroupsLeft) (text : String) :
    (t.join op text).Flat ∧ (t.join op text).lexemes = t.lexemes ++ [op.lexeme, ofName text] := by
  induction flat with
  | name first => exact ⟨.binary groups rfl rfl (.name first) (.name text), rfl⟩
  | @binary before left right groupsBefore bareLeft bareRight flatLeft flatRight _ ih =>
    rw [Formula.join]
    split
    · -- The operator before binds looser, so the right operand takes the new one.
      rename_i opens
      obtain ⟨flatJoined, written⟩ := ih
      have bareJoined := bareBehind_join bareRight opens text
      refine ⟨.binary groupsBefore bareLeft bareJoined flatLeft flatJoined, ?_⟩
      rw [lexemes_of_bare bareLeft bareJoined, lexemes_of_bare bareLeft bareRight, written]
      simp
    · -- The operator before is done, and all that was read is the left operand of the new one.
      rename_i closes
      have bare : (Formula.binary before left right).bareBefore op := by
        simpa [bareBefore] using Nat.not_lt.mp closes
      have whole : (Formula.binary before left right).Flat :=
        .binary groupsBefore bareLeft bareRight flatLeft flatRight
      exact ⟨.binary groups bare rfl whole (.name text), lexemes_of_bare bare rfl⟩

theorem ofChain (flat : t.Flat) {steps : List (BinaryOp × String)}
    (groups : ∀ step ∈ steps, step.1.GroupsLeft) :
    (t.ofChain steps).Flat ∧ (t.ofChain steps).lexemes =
      t.lexemes ++ steps.flatMap fun (op, text) => [op.lexeme, ofName text] := by
  induction steps generalizing t with
  | nil => exact ⟨flat, (List.append_nil _).symm⟩
  | cons step steps ih =>
    obtain ⟨first, others⟩ := List.forall_mem_cons.mp groups
    obtain ⟨flatJoined, joined⟩ := flat.join first step.2
    obtain ⟨flatRest, written⟩ := ih flatJoined others
    refine ⟨flatRest, written.trans ?_⟩
    rw [joined]
    simp

end Flat

end Formula

/-- Chains of operators do not nest. Names with operators between them, any number of them in any
    order but without `..` and `^`, are read as an expression up to the end marker, and the tree in
    order is the text again. Ten levels are enough for that, whatever the length, so nothing nests
    deeper: with the counter anywhere up to ten below the limit the text is read, and the counter is
    left as it was. -/
theorem operator_chains_stay_flat (first : String) (steps : List (BinaryOp × String))
    (groups : ∀ step ∈ steps, step.1 ≠ .concat ∧ step.1 ≠ .arith .pow) :
    (ReadAs (chainText first steps) fun (result, after) =>
      (∃ e, result = .ok e ∧ e.inOrder? = some (chainText first steps)) ∧
        after.cursor.ahead = [endMarker]) ∧
    (∀ levels ≥ 10, Takes (fun e => e.inOrder? = some (chainText first steps))
      ((Grammar.Level.free levels).operators 0) (chainText first steps ++ [endMarker])
      [endMarker]) ∧
    ∀ c : Cursor, c.ahead = chainText first steps ++ [endMarker] → c.depth + 10 ≤ maxNesting →
      ∃ e c', (Grammar.expr .outermost).runOn c = (.ok e, c') ∧
        e.inOrder? = some (chainText first steps) ∧ c'.ahead = [endMarker] ∧
        c'.depth = c.depth := by
  obtain ⟨flat, written⟩ := (Formula.Flat.name first).ofChain groups
  change _ = chainText first steps at written
  generalize (Formula.name first).ofChain steps = t at flat written
  have shallow : t.levels ≤ 9 := flat.levels_le t.bareBehind_zero
  have reads (levels : Nat) (enough : levels ≥ 10) :
      Takes (fun e => e.inOrder? = some (chainText first steps))
        ((Grammar.Level.free levels).operators 0) (chainText first steps ++ [endMarker])
        [endMarker] := by
    have fits : (t.levels < levels) = True := eq_true (by omega)
    have read := t.reads levels
    rw [fits] at read
    rw [← written]
    apply read.mono
    intro e same
    exact (SameExpr.inOrder? same).trans flat.inOrder?
  refine ⟨?_, reads, ?_⟩
  · intro sourceLength tokens given
    have ended := reads maxNesting (by decide) (Cursor.start sourceLength tokens) given
    rw [Parser.expr_eq_run rfl]
    simp only [Parser.run, Parser.ofTokens, Parser.exprReader, Grammar.expr]
    generalize Machine.runOn _ _ = final at ended ⊢
    cases ended with
    | value _ ordered ahead => exact ⟨⟨_, rfl, ordered⟩, ahead⟩
    | tooDeep unfit => exact absurd trivial unfit
  · intro c given below
    have counts := Grammar.expr_counts (Grammar.Level.counts_ofNat (maxNesting + 1) c.depth)
    have ended := reads (min (maxNesting + 1) (maxNesting - c.depth)) (by omega) (c.atDepth 0) given
    rw [Grammar.Level.outermost, counts.runOn_atDepth, Grammar.expr]
    generalize Machine.runOn _ (c.atDepth 0) = final at ended ⊢
    cases ended with
    | value _ ordered ahead => exact ⟨_, _, rfl, ordered, ahead, rfl⟩
    | tooDeep unfit => exact absurd trivial unfit

/-- Every priority once on the way up, and then the loosest operator again. -/
theorem operator_chains_stay_flat_climb :
    let source := "a or b and c < d | e ~ f & g << h + i * j or k"
    let steps : List (BinaryOp × String) := [(.logic .or, "b"), (.logic .and, "c"), (.rel .lt, "d"),
      (.arith .bitOr, "e"), (.arith .bitXor, "f"), (.arith .bitAnd, "g"), (.arith .shl, "h"),
      (.arith .add, "i"), (.arith .mul, "j"), (.logic .or, "k")]
    (∀ step ∈ steps, step.1 ≠ .concat ∧ step.1 ≠ .arith .pow) ∧
    (tokenize source).map Token.lexeme = chainText "a" steps ++ [endMarker] ∧
    ∃ e, parseExpr source = .ok e ∧ e.inOrder? = some (chainText "a" steps) := by
  intro source steps
  have groups : ∀ step ∈ steps, step.1 ≠ .concat ∧ step.1 ≠ .arith .pow := by decide
  have cut : (tokenize source).map Token.lexeme = chainText "a" steps ++ [endMarker] := by
    decide +kernel
  have read := (operator_chains_stay_flat "a" steps groups).1 source.utf8ByteSize _ cut
  exact ⟨groups, cut, read.1⟩

end LuaSearch
