import LuaSearch.Proofs.Phrase.Expression

/-!
How operators group. A formula is written with as few parentheses as the priorities allow: around a
left operand that would give its last part away to the operator, and around a right operand or the
operand of a unary operator that would end too early. Such a text is read back as the formula.
-/
namespace LuaSearch

open Lexeme Parse Relabeling

inductive Formula where
  | name (text : String)
  | unary (op : UnaryOp) (operand : Formula)
  | binary (op : BinaryOp) (left right : Formula)
  deriving DecidableEq, Repr

namespace Formula

def toExpr : Formula → Expr
  | name text => .ident default text
  | unary op operand => .unary default op operand.toExpr
  | binary op left right => .binary default op left.toExpr right.toExpr

def bareBefore (op : BinaryOp) : Formula → Bool
  | name _ => true
  | unary .. => op ≠ .arith .pow
  | binary inner .. => op.leftPriority ≤ inner.rightPriority

def bareBehind (limit : Nat) : Formula → Bool
  | binary inner .. => limit < inner.leftPriority
  | _ => true

def lexemes : Formula → List Lexeme
  | name text => [ofName text]
  | unary op operand =>
      op.lexeme :: Render.grouped (operand.bareBehind UnaryOp.priority) operand.lexemes
  | binary op left right =>
      Render.grouped (left.bareBefore op) left.lexemes ++
        op.lexeme :: Render.grouped (right.bareBehind op.rightPriority) right.lexemes

/-- How many levels of nesting the text reaches below its own: a pair of parentheses opens one, and
    so does each operand but the left one of a binary operator. -/
def levels : Formula → Nat
  | name _ => 0
  | unary _ operand =>
      Levels.grouped (operand.bareBehind UnaryOp.priority) operand.levels + 1
  | binary op left right =>
      max (Levels.grouped (left.bareBefore op) left.levels)
        (Levels.grouped (right.bareBehind op.rightPriority) right.levels + 1)

/-- No reader that the text of the formula leaves open takes the operator behind it. -/
def Closes (next : BinaryOp) : Formula → Prop
  | name _ => True
  | unary _ operand =>
      next.leftPriority ≤ UnaryOp.priority ∧
        (operand.bareBehind UnaryOp.priority → operand.Closes next)
  | binary op _ right =>
      next.leftPriority ≤ op.rightPriority ∧
        (right.bareBehind op.rightPriority → right.Closes next)

theorem leftPriority_le_succ (op : BinaryOp) : op.leftPriority ≤ op.rightPriority + 1 := by
  rcases op with op | op | op | _ <;> try cases op
  all_goals decide

theorem rightPriority_le (op : BinaryOp) : op.rightPriority ≤ op.leftPriority := by
  rcases op with op | op | op | _ <;> try cases op
  all_goals decide

theorem leftPriority_le_unary {op inner : BinaryOp} (bare : op.leftPriority ≤ inner.rightPriority) :
    op.leftPriority ≤ UnaryOp.priority := by
  have below : inner.rightPriority ≤ 13 := by
    rcases inner with op | op | op | _ <;> try cases op
    all_goals decide
  have gap : op.leftPriority ≤ 13 → op.leftPriority ≤ UnaryOp.priority := by
    rcases op with op | op | op | _ <;> try cases op
    all_goals decide
  exact gap (Nat.le_trans bare below)

theorem closes_of_bareBehind {next : BinaryOp} {limit : Nat} {t : Formula}
    (bare : t.bareBehind limit) (stops : next.leftPriority ≤ limit)
    (loose : next.leftPriority ≤ UnaryOp.priority) : t.Closes next := by
  induction t generalizing limit with
  | name text => trivial
  | unary op operand ih => exact ⟨loose, fun inside => ih inside loose⟩
  | binary op left right _ ih =>
    have tighter : limit < op.leftPriority := by simpa [bareBehind] using bare
    have step := leftPriority_le_succ op
    have ends : next.leftPriority ≤ op.rightPriority := by omega
    exact ⟨ends, fun inside => ih inside ends⟩

theorem closes_of_bareBefore {op : BinaryOp} {t : Formula} (bare : t.bareBefore op) :
    t.Closes op := by
  cases t with
  | name text => trivial
  | unary unary operand =>
    have loose : op.leftPriority ≤ UnaryOp.priority := by
      rcases op with op | op | op | _ <;> try cases op
      all_goals first | decide | cases bare
    exact ⟨loose, fun inside => closes_of_bareBehind inside loose loose⟩
  | binary inner left right =>
    have ends : op.leftPriority ≤ inner.rightPriority := by simpa [bareBefore] using bare
    have loose := leftPriority_le_unary ends
    exact ⟨ends, fun inside => closes_of_bareBehind inside ends loose⟩

theorem bareBehind_zero (t : Formula) : t.bareBehind 0 := by
  cases t with
  | binary op => simpa [bareBehind] using leftPriority_pos op
  | _ => rfl

theorem bareBehind_of_bareBefore {op : BinaryOp} {t : Formula} {limit : Nat}
    (bare : t.bareBefore op) (tighter : limit < op.leftPriority) : t.bareBehind limit := by
  cases t with
  | binary inner left right =>
    have ends : op.leftPriority ≤ inner.rightPriority := by simpa [bareBefore] using bare
    have order := rightPriority_le inner
    simp only [bareBehind, decide_eq_true_eq]
    omega
  | _ => rfl

theorem toExpr_isCall (t : Formula) : t.toExpr.isCall = false := by cases t <;> rfl

end Formula

namespace Grammar

open Phrase (AsOperand AsExpr AsLeft)

variable {t : Formula} {rest : List Lexeme}

def Stops (limit : Nat) (rest : List Lexeme) : Prop :=
  Leads (fun kind => kind.startsSuffix = false ∧
    ∀ op, BinaryOp.ofKind? kind = some op → op.leftPriority ≤ limit) rest

def Closed (t : Formula) (rest : List Lexeme) : Prop :=
  Leads (fun kind => kind.startsSuffix = false ∧
    ∀ op, BinaryOp.ofKind? kind = some op → t.Closes op) rest

theorem Closed.noSuffix (closed : Closed t rest) : Leads (·.startsSuffix = false) rest :=
  Leads.mono closed fun _ holds => holds.1

theorem Stops.noSuffix {limit : Nat} (stops : Stops limit rest) :
    Leads (·.startsSuffix = false) rest := Leads.mono stops fun _ holds => holds.1

theorem Stops.loose {limit : Nat} (stops : Stops limit rest) : Phrase.Stops limit rest :=
  Leads.mono stops fun _ holds => holds.2

def grouped (bare : Bool) (t : Formula) : Phrase Expr :=
  ⟨Render.grouped bare t.lexemes, Levels.grouped bare t.levels, t.toExpr⟩

/-- The formula is read back wherever operators are, at a limit below which it needs no parentheses,
    if what follows it is read after it. -/
def FormulaReads (t : Formula) : Prop :=
  ∀ limit {rest : List Lexeme}, t.bareBehind limit → Closed t rest →
    AsLeft limit (grouped true t) rest

theorem FormulaReads.asOperand (reads : FormulaReads t)
    (ended : Leads (·.startsSuffix = false) rest) : AsOperand (grouped false t) rest := by
  have closed {rest : List Lexeme} : Closed t (ofSymbol .rparen :: rest) := .cons ⟨rfl, nofun⟩
  have stops {rest : List Lexeme} : Phrase.Stops 0 (ofSymbol .rparen :: rest) := .cons nofun
  have inside {rest : List Lexeme} : AsExpr 0 (grouped true t) (ofSymbol .rparen :: rest) :=
    (reads 0 t.bareBehind_zero closed).asExpr stops
  have same : SameExpr (t.toExpr.parenthesized default) t.toExpr :=
    SameExpr.parenthesized_of_not_isCall rfl t.toExpr_isCall default
  exact ((Phrase.asHead_group inside).retree same).asOperand (.cons rfl) ended

theorem FormulaReads.asExpr (reads : FormulaReads t) (limit : Nat)
    (closed : t.bareBehind limit → Closed t rest) (stops : Stops limit rest) :
    AsExpr limit (grouped (t.bareBehind limit) t) rest := by
  cases bare : t.bareBehind limit with
  | true => exact (reads limit bare (closed bare)).asExpr stops.loose
  | false => exact ((reads.asOperand stops.noSuffix).asLeft limit).asExpr stops.loose

theorem formulaReads_name (text : String) : FormulaReads (.name text) := by
  intro limit rest _ closed
  exact ((Phrase.asHead_name text).asOperand (.cons rfl) closed.noSuffix).asLeft limit

theorem formulaReads_unary {op : UnaryOp} {operand : Formula} (reads : FormulaReads operand) :
    FormulaReads (.unary op operand) := by
  intro limit rest _ closed
  have stops : Stops UnaryOp.priority rest := closed.mono fun kind holds =>
    ⟨holds.1, fun next operator => (holds.2 next operator).1⟩
  have inner (inside : operand.bareBehind UnaryOp.priority) : Closed operand rest :=
    closed.mono fun kind holds => ⟨holds.1, fun next operator => (holds.2 next operator).2 inside⟩
  exact ((reads.asExpr UnaryOp.priority inner stops).asOperand_unary op).asLeft limit

theorem formulaReads_binary {op : BinaryOp} {left right : Formula} (leftReads : FormulaReads left)
    (rightReads : FormulaReads right) : FormulaReads (.binary op left right) := by
  intro limit rest bare closed
  have tighter : limit < op.leftPriority := by simpa [Formula.bareBehind] using bare
  have stops : Stops op.rightPriority rest := closed.mono fun kind holds =>
    ⟨holds.1, fun next operator => (holds.2 next operator).1⟩
  have inner (inside : right.bareBehind op.rightPriority) : Closed right rest :=
    closed.mono fun kind holds => ⟨holds.1, fun next operator => (holds.2 next operator).2 inside⟩
  have first {rest : List Lexeme} :
      AsLeft limit (grouped (left.bareBefore op) left) (op.lexeme :: rest) := by
    cases bareLeft : left.bareBefore op with
    | true =>
      refine leftReads limit (Formula.bareBehind_of_bareBefore bareLeft tighter)
        (.cons ⟨binary_lexeme_noSuffix op, ?_⟩)
      intro next operator
      rw [binary_ofKind?_lexeme] at operator
      cases operator
      exact Formula.closes_of_bareBefore bareLeft
    | false => exact (leftReads.asOperand (.cons (binary_lexeme_noSuffix op))).asLeft limit
  exact first.binary tighter (rightReads.asExpr op.rightPriority inner stops)

theorem formulaReads (t : Formula) : FormulaReads t := by
  induction t with
  | name text => exact formulaReads_name text
  | unary op operand ih => exact formulaReads_unary ih
  | binary op left right leftReads rightReads => exact formulaReads_binary leftReads rightReads

end Grammar

/-- However the lexemes are placed in a source, with an end marker behind them, reading an
    expression from them ends like this. -/
def ReadAs (text : List Lexeme) (ends : Except SyntaxError Expr × Parser → Prop) : Prop :=
  ∀ sourceLength tokens, tokens.map Token.lexeme = text ++ [endMarker] →
    ends (Parser.ofTokens sourceLength tokens).expr

def Groups (text : List Lexeme) (t : Formula) : Prop :=
  ReadAs text fun (result, after) =>
    (∃ e, result = .ok e ∧ SameExpr e t.toExpr) ∧ after.cursor.ahead = [endMarker]

def TooDeep (text : List Lexeme) : Prop :=
  ReadAs text fun (result, _) => ∃ span, result = .error ⟨.tooDeep, span⟩

theorem Formula.reads (t : Formula) (levels : Nat) :
    Reads (t.levels < levels) (SameExpr · t.toExpr) ((Grammar.Level.free levels).operators 0)
      (t.lexemes ++ [endMarker]) [endMarker] := by
  have closed : Grammar.Closed t [endMarker] := .cons ⟨rfl, nofun⟩
  exact (Grammar.formulaReads t 0 t.bareBehind_zero closed).asExpr (.cons nofun) levels

theorem Formula.ends (t : Formula) (sourceLength : Nat) {tokens : List Token}
    (given : tokens.map Token.lexeme = t.lexemes ++ [endMarker]) :
    Ends (t.levels < maxNesting) (SameExpr · t.toExpr) [endMarker]
      (Parser.exprReader.runOn (Cursor.start sourceLength tokens)) :=
  t.reads maxNesting _ given

theorem groups_of_levels_lt {t : Formula} {text : List Lexeme} (written : t.lexemes = text)
    (fits : t.levels < maxNesting) : Groups text t := by
  intro sourceLength tokens given
  have ended := t.ends sourceLength (written ▸ given)
  rw [Parser.expr_eq_run rfl]
  simp only [Parser.run, Parser.ofTokens]
  generalize Machine.runOn _ _ = final at ended ⊢
  cases ended with
  | value _ same ahead => exact ⟨⟨_, rfl, same⟩, ahead⟩
  | tooDeep unfit => exact absurd fits unfit

theorem tooDeep_of_le_levels {t : Formula} (deep : maxNesting ≤ t.levels) : TooDeep t.lexemes := by
  intro sourceLength tokens given
  have ended := t.ends sourceLength given
  rw [Parser.expr_eq_run rfl]
  simp only [Parser.run, Parser.ofTokens]
  generalize Machine.runOn _ _ = final at ended ⊢
  cases ended with
  | value fit => exact absurd fit (Nat.not_lt.mpr deep)
  | tooDeep => exact ⟨_, rfl⟩

theorem rightPriority_lt_iff (op : BinaryOp) :
    op.rightPriority < op.leftPriority ↔ op = .concat ∨ op = .arith .pow := by
  rcases op with op | op | op | _ <;> try cases op
  all_goals decide

/-- Operators group as their priorities say. The text of a formula, with no parentheses but those
    that the priorities ask for, is read as that formula if the levels suffice, and refused as too
    deep if not. So `..` and `^` group to the right and the others to the left, and a unary operator
    binds tighter than any binary one but `^`. -/
theorem operators_group :
    (∀ t : Formula, t.levels < maxNesting → Groups t.lexemes t) ∧
    (∀ t : Formula, maxNesting ≤ t.levels → TooDeep t.lexemes) ∧
    (∀ (op : BinaryOp) (a b c : String),
      Groups [ofName a, op.lexeme, ofName b, op.lexeme, ofName c]
        (if op = .concat ∨ op = .arith .pow then
          .binary op (.name a) (.binary op (.name b) (.name c))
        else .binary op (.binary op (.name a) (.name b)) (.name c))) ∧
    ∀ (sign : UnaryOp) (op : BinaryOp) (a b : String),
      Groups [sign.lexeme, ofName a, op.lexeme, ofName b]
        (if op = .arith .pow then .unary sign (.binary op (.name a) (.name b))
        else .binary op (.unary sign (.name a)) (.name b)) := by
  refine ⟨?_, ?_, ?_, ?_⟩
  · intro t fits
    exact groups_of_levels_lt rfl fits
  · intro t deep
    exact tooDeep_of_le_levels deep
  · intro op a b c
    split
    · rename_i right
      have opens := (rightPriority_lt_iff op).mpr right
      apply groups_of_levels_lt <;>
        simp [Formula.lexemes, Formula.levels, Formula.bareBefore, Formula.bareBehind,
          Render.grouped, Levels.grouped, opens, maxNesting]
    · rename_i left
      have ends := Nat.not_lt.mp (mt (rightPriority_lt_iff op).mp left)
      apply groups_of_levels_lt <;>
        simp [Formula.lexemes, Formula.levels, Formula.bareBefore, Formula.bareBehind,
          Render.grouped, Levels.grouped, ends, maxNesting]
  · intro sign op a b
    split
    · rename_i power
      subst power
      exact groups_of_levels_lt rfl (by simp [Formula.levels, Formula.bareBefore,
        Formula.bareBehind, Levels.grouped, UnaryOp.priority, BinaryOp.leftPriority, maxNesting])
    · rename_i loose
      apply groups_of_levels_lt <;>
        simp [Formula.lexemes, Formula.levels, Formula.bareBefore, Formula.bareBehind,
          Render.grouped, Levels.grouped, loose, maxNesting]

/-- A power under a sign, on the left of two operators that group to the right; and a name under as
    many operators as there are levels. -/
theorem operators_group_signs :
    (∃ e, parseExpr "-(a - b) ^ c .. d .. e" = .ok e ∧
      SameExpr e (Formula.toExpr
        (.binary .concat
          (.unary .neg (.binary (.arith .pow) (.binary (.arith .sub) (.name "a") (.name "b"))
            (.name "c")))
          (.binary .concat (.name "d") (.name "e"))))) ∧
    TooDeep (Formula.lexemes (Nat.repeat (.unary .not) maxNesting (.name "a"))) := by
  obtain ⟨groups, tooDeep, _⟩ := operators_group
  refine ⟨?_, tooDeep _ (by decide +kernel)⟩
  have read := groups
    (.binary .concat
      (.unary .neg (.binary (.arith .pow) (.binary (.arith .sub) (.name "a") (.name "b"))
        (.name "c")))
      (.binary .concat (.name "d") (.name "e"))) (by decide)
    "-(a - b) ^ c .. d .. e".utf8ByteSize (tokenize "-(a - b) ^ c .. d .. e") rfl
  exact read.1

end LuaSearch
