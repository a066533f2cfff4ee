import LuaSearch.Proofs.Parse.Levels
import LuaSearch.Proofs.Parse.Layout.Expression
import LuaSearch.Proofs.Parse.Lead

/-!
Phrases of expressions. A phrase is a text with what it is to be read as and with the levels of
nesting that it reaches. Phrases are put together as the grammar says, and what reads the parts
reads the whole; nothing is said here about where the parts come from.

An expression is read in three ways: as the start of a chain of accesses and calls, as the start
of a chain of operators, and by itself. At a start, what comes behind it is read by the same
reader, so the first two say how the reader goes on.
-/
namespace LuaSearch

open Lexeme Parse Relabeling Grammar

/-- A text, the levels of nesting that it reaches below its own, and what it is read as. -/
structure Phrase (α : Type) where
  text : List Lexeme
  levels : Nat
  tree : α

def Kind.startsTerm (kind : Kind) : Bool := kind.startsExpr || kind = longString

theorem Kind.noBlockEnd_of_startsTerm {kind : Kind} (starts : kind.startsTerm) :
    kind.endsBlock = false := by
  unfold endsBlock
  split <;> first | cases starts | rfl

namespace Phrase

variable {rest : List Lexeme}

theorem ident_takes (name : String) :
    Takes (fun token => token.text = name) ident (ofName name :: rest) rest := by
  apply (expect_takes (l := ofName name) rfl).mono
  intro token same
  exact congrArg Prod.snd same

/-- The text is read as the start of a chain of accesses and calls, if what follows it is read
    after it. -/
def AsHead (p : Phrase Expr) : Prop :=
  ∀ n {fits : Prop} {ok : Expr → Prop} {rest final : List Lexeme}, (fits → p.levels ≤ n) →
    (p.levels ≤ n → ∀ start a, SameExpr a p.tree →
      ChainReads fits ok (suffix (Level.free n) start) a rest final) →
    Reads fits ok (suffixed (Level.free n)) (p.text ++ rest) final

def AsExpr (limit : Nat) (p : Phrase Expr) (rest : List Lexeme) : Prop :=
  ∀ n, Reads (p.levels < n) (SameExpr · p.tree) ((Level.free n).operators limit)
    (p.text ++ rest) rest

theorem asHead_of_primary {p : Phrase Expr}
    (reads : ∀ n {rest : List Lexeme}, Reads (p.levels ≤ n) (SameExpr · p.tree)
      (primary (Level.free n)) (p.text ++ rest) rest) : AsHead p := by
  intro n fits ok rest final only later
  apply currentSpan_takes.next
  intro start _
  apply (reads n).bind only
  intro fit a same
  exact chain_reads (later fit start a same)

theorem AsHead.retree {p : Phrase Expr} (reads : AsHead p) {e : Expr} (same : SameExpr p.tree e) :
    AsHead ⟨p.text, p.levels, e⟩ := by
  intro n fits ok rest final only later
  apply reads n only
  intro fit start a sameTree
  exact later fit start a (sameTree.trans same)

def name (text : String) : Phrase Expr := ⟨[ofName text], 0, .ident default text⟩

theorem asHead_name (text : String) : AsHead (name text) := by
  apply asHead_of_primary
  intro n rest
  apply peek_takes_first.next
  rintro _ rfl
  apply (ident_takes text).next
  intro token same
  refine .pure (Nat.zero_le n) ?_
  simp only [SameExpr, Relabeling.expr, same]
  rfl

def group (inside : Phrase Expr) : Phrase Expr :=
  ⟨Render.enclosed .lparen inside.text .rparen, inside.levels + 1,
    inside.tree.parenthesized default⟩

theorem asHead_group {inside : Phrase Expr}
    (reads : ∀ {rest : List Lexeme}, AsExpr 0 inside (ofSymbol .rparen :: rest)) :
    AsHead (group inside) := by
  apply asHead_of_primary
  intro n rest
  simp only [group, Render.enclosed, List.cons_append, List.append_assoc, List.nil_append]
  apply peek_takes_first.next
  rintro _ rfl
  apply currentSpan_takes.next
  intro start _
  apply advance_takes.next
  intro _ _
  apply (reads n).bind Nat.lt_of_succ_le
  intro fit a same
  apply (symbol_takes .rparen).next
  intro _ _
  apply (finish_takes start).next
  intro outer _
  exact .pure fit (same.parenthesized outer default)

theorem AsHead.suffix {object whole : Phrase Expr} (reads : AsHead object) (text : List Lexeme)
    (levels : Nat) (nonempty : text ≠ [])
    (one : ∀ n start a {rest : List Lexeme}, SameExpr a object.tree →
      Reads (levels ≤ n) (fun next? => ∃ next, next? = some next ∧ SameExpr next whole.tree)
        (Grammar.suffix (Level.free n) start a) (text ++ rest) rest)
    (written : whole.text = object.text ++ text)
    (nested : whole.levels = max object.levels levels) : AsHead whole := by
  intro n fits ok rest final only later
  rw [written, List.append_assoc]
  rw [nested] at only later
  apply reads n (fun fit => (Nat.max_le.mp (only fit)).1)
  intro fit start a same
  have shorter : rest.length < (text ++ rest).length := by
    have longer := List.length_pos_iff.mpr nonempty
    rw [List.length_append]
    omega
  apply ChainReads.again (one n start a same) shorter fun fit => (Nat.max_le.mp (only fit)).2
  intro fit' next same'
  exact later (Nat.max_le.mpr ⟨fit, fit'⟩) start next same'

def index (object key : Phrase Expr) : Phrase Expr :=
  ⟨object.text ++ Render.enclosed .lbracket key.text .rbracket,
    max object.levels (key.levels + 1), .index default object.tree key.tree⟩

theorem AsHead.index {object key : Phrase Expr} (reads : AsHead object)
    (inside : ∀ {rest : List Lexeme}, AsExpr 0 key (ofSymbol .rbracket :: rest)) :
    AsHead (index object key) := by
  refine reads.suffix (Render.enclosed .lbracket key.text .rbracket) _ (List.cons_ne_nil _ _) ?_
    rfl rfl
  intro n start a rest same
  simp only [Render.enclosed, List.cons_append, List.append_assoc, List.nil_append]
  apply peek_takes_first.next
  rintro _ rfl
  apply advance_takes.next
  intro _ _
  apply (inside n).bind Nat.lt_of_succ_le
  intro fit key' sameKey
  apply (symbol_takes .rbracket).next
  intro _ _
  apply (finish_takes start).next
  intro outer _
  refine .pure fit ⟨_, rfl, ?_⟩
  simp only [Phrase.index, SameExpr, Relabeling.expr, same, sameKey]
  rfl

def access (object : Phrase Expr) (field : String) : Phrase Expr :=
  ⟨object.text ++ [ofSymbol .dot, ofName field], object.levels,
    .index default object.tree (.string default field)⟩

theorem AsHead.access {object : Phrase Expr} (reads : AsHead object) (field : String) :
    AsHead (access object field) := by
  refine reads.suffix [ofSymbol .dot, ofName field] 0 (List.cons_ne_nil _ _) ?_ rfl
    (Nat.max_zero _).symm
  intro n start a rest same
  apply peek_takes_first.next
  rintro _ rfl
  apply advance_takes.next
  intro _ _
  apply (ident_takes field).next
  intro token named
  refine .pure (Nat.zero_le n) ⟨_, rfl, ?_⟩
  simp only [Phrase.access, SameExpr, Expr.ofField, Relabeling.expr, same, named]
  rfl

def AsOperand (p : Phrase Expr) (rest : List Lexeme) : Prop :=
  ∀ n, Reads (p.levels ≤ n) (SameExpr · p.tree) (operand (Level.free n)) (p.text ++ rest) rest

/-- The text is read as the start of a chain of operators that bind tighter than the limit, if
    what follows it is read after it. -/
def AsLeft (limit : Nat) (p : Phrase Expr) (rest : List Lexeme) : Prop :=
  ∀ n {fits : Prop} {ok : Expr → Prop} {final : List Lexeme}, (fits → p.levels ≤ n) →
    (p.levels ≤ n → ∀ a, SameExpr a p.tree →
      ChainReads fits ok (operation (Level.free n) limit) a rest final) →
    Reads fits ok (operators (Level.free n) limit) (p.text ++ rest) final

def Stops (limit : Nat) (rest : List Lexeme) : Prop :=
  Leads (fun kind => ∀ op, BinaryOp.ofKind? kind = some op → op.leftPriority ≤ limit) rest

theorem operation_takes_stop {limit : Nat} (stops : Stops limit rest) (inner : Level)
    (left : Expr) : Takes (· = none) (operation inner limit left) rest rest := by
  apply (peek_takes stops).next
  intro kind loose
  cases operator : BinaryOp.ofKind? kind with
  | none => exact .pure trivial rfl
  | some op =>
    simp only [if_pos (loose op operator)]
    exact .pure trivial rfl

theorem AsLeft.asExpr {limit : Nat} {p : Phrase Expr} (reads : AsLeft limit p rest)
    (stops : Stops limit rest) : AsExpr limit p rest := by
  intro n
  cases n with
  | zero => exact .exhausted (Nat.not_lt_zero _)
  | succ n =>
    apply reads n Nat.lt_succ_iff.mp
    intro fit a same
    exact .done (operation_takes_stop stops _ a) (Nat.lt_succ_iff.mpr fit) same

theorem AsOperand.asLeft {p : Phrase Expr} (reads : AsOperand p rest) (limit : Nat) :
    AsLeft limit p rest := by
  intro n fits ok final only later
  apply (reads n).bind only
  intro fit a same
  exact chain_reads (later fit a same)

theorem asOperand_of_simple {p : Phrase Expr}
    (plain : Leads (UnaryOp.ofKind? · = none) (p.text ++ rest))
    (reads : ∀ n, Reads (p.levels ≤ n) (SameExpr · p.tree) (simple (Level.free n))
      (p.text ++ rest) rest) : AsOperand p rest := by
  intro n
  apply (peek_takes plain).next
  intro kind noUnary
  rw [noUnary]
  exact reads n

theorem suffix_takes_none (ended : Leads (·.startsSuffix = false) rest)
    (inner : Level) (start : Span) (object : Expr) :
    Takes (· = none) (suffix inner start object) rest rest := by
  apply (peek_takes ended).next
  intro kind noSuffix
  split <;> first | cases noSuffix | exact .pure trivial rfl

theorem AsHead.suffixed_reads {p : Phrase Expr} (reads : AsHead p) (n : Nat)
    (ended : Leads (·.startsSuffix = false) rest) :
    Reads (p.levels ≤ n) (SameExpr · p.tree) (suffixed (Level.free n)) (p.text ++ rest) rest := by
  apply reads n id
  intro fit start a same
  exact .done (suffix_takes_none ended _ _ _) fit same

theorem AsHead.simple_reads {p : Phrase Expr} (reads : AsHead p)
    (starts : Leads (·.startsHead) p.text) (n : Nat)
    (ended : Leads (·.startsSuffix = false) rest) :
    Reads (p.levels ≤ n) (SameExpr · p.tree) (simple (Level.free n)) (p.text ++ rest) rest := by
  have read := reads.suffixed_reads n ended
  apply (peek_takes (starts.append rest)).next
  intro kind starts
  unfold Kind.startsHead at starts
  split at starts
  · exact read
  · exact read
  · cases starts

theorem AsHead.asOperand {p : Phrase Expr} (reads : AsHead p)
    (starts : Leads (·.startsHead) p.text) (ended : Leads (·.startsSuffix = false) rest) :
    AsOperand p rest := by
  refine asOperand_of_simple ?_ fun n => reads.simple_reads starts n ended
  apply (starts.append rest).mono
  intro kind starts
  exact Kind.noUnary_of_startsOperand (Kind.startsOperand_of_startsHead starts)

def unary (op : UnaryOp) (operand : Phrase Expr) : Phrase Expr :=
  ⟨op.lexeme :: operand.text, operand.levels + 1, .unary default op operand.tree⟩

theorem AsExpr.asOperand_unary {p : Phrase Expr} (reads : AsExpr UnaryOp.priority p rest)
    (op : UnaryOp) : AsOperand (unary op p) rest := by
  intro n
  apply peek_takes_first.next
  rintro _ rfl
  rw [unary_ofKind?_lexeme]
  apply advance_takes.next
  intro sign _
  apply (reads n).bind Nat.lt_of_succ_le
  intro fit a same
  refine .pure fit ?_
  simp only [Phrase.unary, SameExpr, Relabeling.expr, same]
  rfl

def binary (op : BinaryOp) (left right : Phrase Expr) : Phrase Expr :=
  ⟨left.text ++ op.lexeme :: right.text, max left.levels (right.levels + 1),
    .binary default op left.tree right.tree⟩

/-- The operator and its right operand are one step of the chain that goes on behind the left
    one. -/
theorem AsLeft.binary {op : BinaryOp} {left right : Phrase Expr} {limit : Nat}
    (leftReads : AsLeft limit left (op.lexeme :: (right.text ++ rest)))
    (tighter : limit < op.leftPriority) (rightReads : AsExpr op.rightPriority right rest) :
    AsLeft limit (binary op left right) rest := by
  intro n fits ok final only later
  have text : (Phrase.binary op left right).text ++ rest =
      left.text ++ op.lexeme :: (right.text ++ rest) := by simp [Phrase.binary]
  rw [text]
  apply leftReads n fun fit => (Nat.max_le.mp (only fit)).1
  intro leftFit a same
  have one : Reads (right.levels < n)
      (fun next? => ∃ next, next? = some next ∧ SameExpr next (Phrase.binary op left right).tree)
      (operation (Level.free n) limit a) (op.lexeme :: (right.text ++ rest)) rest := by
    apply peek_takes_first.next
    rintro _ rfl
    rw [binary_ofKind?_lexeme]
    simp only [if_neg (Nat.not_le.mpr tighter)]
    apply advance_takes.next
    intro _ _
    apply (rightReads n).bind id
    intro fit b same'
    exact .pure fit ⟨_, rfl, same.ofBinary op same'⟩
  have shorter : rest.length < (op.lexeme :: (right.text ++ rest)).length := by
    simp only [List.length_cons, List.length_append]
    omega
  refine ChainReads.again one shorter (fun fit => (Nat.max_le.mp (only fit)).2) ?_
  intro fit next same'
  exact later (Nat.max_le.mpr ⟨leftFit, fit⟩) next same'

def depth (ps : List (Phrase Expr)) : Nat := (ps.map (·.levels + 1)).foldr max 0

theorem depth_le_iff {ps : List (Phrase Expr)} {n : Nat} :
    depth ps ≤ n ↔ ∀ p ∈ ps, p.levels < n := by
  induction ps with
  | nil => simp [depth]
  | cons p ps ih =>
    simp only [depth, List.map_cons, List.foldr_cons, Nat.max_le, List.forall_mem_cons] at ih ⊢
    rw [ih, Nat.succ_le_iff]

def Listed (ps : List (Phrase Expr)) (rest : List Lexeme) : Prop :=
  ∃ front last, ps = front ++ [last] ∧
    (∀ p ∈ front, ∀ {tail : List Lexeme}, AsExpr 0 p (ofSymbol .comma :: tail)) ∧
    AsExpr 0 last rest

theorem AsExpr.listed {p : Phrase Expr} (reads : AsExpr 0 p rest) : Listed [p] rest :=
  ⟨[], p, rfl, by simp, reads⟩

theorem Listed.cons {p : Phrase Expr} {ps : List (Phrase Expr)} (listed : Listed ps rest)
    (reads : ∀ {tail : List Lexeme}, AsExpr 0 p (ofSymbol .comma :: tail)) :
    Listed (p :: ps) rest := by
  obtain ⟨front, last, rfl, middle, final⟩ := listed
  exact ⟨p :: front, last, rfl, List.forall_mem_cons.mpr ⟨reads, middle⟩, final⟩

def texts {α : Type} (ps : List (Phrase α)) : List Lexeme := Render.separated (ps.map text)

theorem Listed.exprs_reads {ps : List (Phrase Expr)} (listed : Listed ps rest)
    (noComma : Leads (· ≠ .symbol .comma) rest) (n : Nat) :
    Reads (depth ps ≤ n) (SameExprs · (ps.map tree)) (exprs (Level.free n)) (texts ps ++ rest)
      rest := by
  obtain ⟨front, last, rfl, middle, final⟩ := listed
  have reads : Reads (∀ p ∈ front ++ [last], p.levels < n)
      (fun as => as.map eraseSpans.expr = (front ++ [last]).map fun p => eraseSpans.expr p.tree)
      (exprs (Level.free n)) (texts (front ++ [last]) ++ rest) rest := by
    refine series_reads (fun _ => True) (fun _ _ _ => trivial) ?_ ?_
    · intro p member tail _
      apply (middle p member n).bind id
      intro fit a same
      apply (eat_takes_true (l := ofSymbol .comma) rfl).next
      rintro _ rfl
      exact .pure fit ⟨same, rfl⟩
    · apply (final n).bind id
      intro fit a same
      apply (eat_takes_false noComma).next
      rintro _ rfl
      exact .pure fit ⟨same, rfl⟩
  apply (reads.congr depth_le_iff.symm).mono
  intro as same
  simpa only [SameExprs, exprs_eq_map, List.map_map, Function.comp_def] using same

structure AsArgs (p : Phrase (List Expr)) : Prop where
  starts : Leads (fun kind => kind = .symbol .lparen ∨ kind = .symbol .lbrace ∨ kind = .string ∨
    kind = .longString) p.text
  reads : ∀ n {rest : List Lexeme}, Reads (p.levels ≤ n) (SameExprs · p.tree)
    (args (Level.free n)) (p.text ++ rest) rest

def argList (ps : List (Phrase Expr)) : Phrase (List Expr) :=
  ⟨Render.enclosed .lparen (texts ps) .rparen, depth ps, ps.map tree⟩

theorem leads_texts {α : Type} {P : Kind → Prop} {ps : List (Phrase α)} (nonempty : ps ≠ [])
    (each : ∀ p ∈ ps, Leads P p.text) : Leads P (texts ps) := by
  cases ps with
  | nil => exact absurd rfl nonempty
  | cons p ps => exact leads_separated (each p List.mem_cons_self) _

theorem asArgs_argList {ps : List (Phrase Expr)}
    (listed : ps ≠ [] → ∀ {rest : List Lexeme}, Listed ps (ofSymbol .rparen :: rest))
    (starts : ∀ p ∈ ps, Leads (·.startsTerm) p.text) : AsArgs (argList ps) := by
  refine ⟨.cons (.inl rfl), ?_⟩
  intro n rest
  simp only [argList, Render.enclosed, List.cons_append, List.append_assoc, List.nil_append]
  apply peek_takes_first.next
  rintro _ rfl
  apply advance_takes.next
  intro _ _
  by_cases nonempty : ps = []
  · subst nonempty
    apply (isAt_takes_true (.cons rfl)).next
    rintro _ rfl
    apply (symbol_takes .rparen).next
    intro _ _
    exact .pure (Nat.zero_le n) rfl
  · apply (isAt_takes_false (((leads_texts nonempty starts).append _).mono ?_)).next
    · rintro _ rfl
      apply ((listed nonempty).exprs_reads (.cons (by decide)) n).bind id
      intro fit as same
      apply (symbol_takes .rparen).next
      intro _ _
      exact .pure fit same
    · rintro _ starts rfl
      cases starts

def call (callee : Phrase Expr) (given : Phrase (List Expr)) : Phrase Expr :=
  ⟨callee.text ++ given.text, max callee.levels given.levels,
    .call default callee.tree given.tree false⟩

theorem AsHead.call {callee : Phrase Expr} {given : Phrase (List Expr)} (reads : AsHead callee)
    (args : AsArgs given) : AsHead (call callee given) := by
  refine reads.suffix given.text _ args.starts.ne_nil ?_ rfl rfl
  intro n start a rest same
  have read : Reads (given.levels ≤ n)
      (fun next? => ∃ next, next? = some next ∧
        SameExpr next (Phrase.call callee given).tree)
      (do
        let given ← Grammar.args (Level.free n)
        return some (.call (← finish start) a given false)) (given.text ++ rest) rest := by
    apply (args.reads n).bind id
    intro fit given' sameArgs
    apply (finish_takes start).next
    intro outer _
    refine .pure fit ⟨_, rfl, ?_⟩
    simp only [Phrase.call, SameExpr, Relabeling.expr, same, sameArgs]
    rfl
  apply (peek_takes (args.starts.append rest)).next
  rintro _ (rfl | rfl | rfl | rfl)
  · exact read
  · exact read
  · exact read
  · exact read

def methodCall (receiver : Phrase Expr) (method : String) (given : Phrase (List Expr)) :
    Phrase Expr :=
  ⟨receiver.text ++ ofSymbol .colon :: ofName method :: given.text,
    max receiver.levels given.levels,
    .methodCall default receiver.tree method given.tree false⟩

theorem AsHead.methodCall {receiver : Phrase Expr} {given : Phrase (List Expr)}
    (reads : AsHead receiver) (method : String) (args : AsArgs given) :
    AsHead (methodCall receiver method given) := by
  refine reads.suffix (ofSymbol .colon :: ofName method :: given.text) _ (List.cons_ne_nil _ _) ?_
    rfl rfl
  intro n start a rest same
  apply peek_takes_first.next
  rintro _ rfl
  apply advance_takes.next
  intro _ _
  apply (ident_takes method).next
  intro name named
  apply (args.reads n).bind id
  intro fit given' sameArgs
  apply (finish_takes start).next
  intro outer _
  refine .pure fit ⟨_, rfl, ?_⟩
  simp only [Phrase.methodCall, SameExpr, Relabeling.expr, same, sameArgs, named]
  rfl

end Phrase

end LuaSearch
