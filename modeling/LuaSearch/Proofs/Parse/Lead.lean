import LuaSearch.Parse.Operator
import LuaSearch.Proofs.Parse.Reads

/-!
The first lexemes of a text. A reader decides by the next lexeme, at one place by the next two,
what it is to read; here stands which lexemes a text starts with and which may follow it.
-/
namespace LuaSearch

open Lexeme

namespace Kind

def startsHead : Kind → Bool
  | ident | symbol .lparen => true
  | _ => false

def startsOperand : Kind → Bool
  | number | string | ident | keyword .nil_ | keyword .true_ | keyword .false_
  | keyword .function_ | symbol .ellipsis | symbol .lbrace | symbol .lparen => true
  | _ => false

def startsExpr (kind : Kind) : Bool := kind.startsOperand || (UnaryOp.ofKind? kind).isSome

def startsSuffix : Kind → Bool
  | symbol .dot | symbol .lbracket | symbol .colon | symbol .lparen | symbol .lbrace | string
  | longString => true
  | _ => false

/-- What stands behind an expression: neither an operator nor a suffix, which would continue it,
    nor the equals sign, which would make a name the key of a table. -/
def endsExpr (kind : Kind) : Bool :=
  (BinaryOp.ofKind? kind).isNone && !kind.startsSuffix && kind ≠ symbol .eq

def startsStmt : Kind → Bool
  | keyword .do_ | keyword .while_ | keyword .repeat_ | keyword .if_ | keyword .for_
  | keyword .function_ | keyword .local_ | keyword .break_ | keyword .continue_ | ident
  | symbol .lparen => true
  | _ => false

theorem startsOperand_of_startsHead {kind : Kind} (starts : kind.startsHead) :
    kind.startsOperand := by
  unfold startsHead at starts
  split at starts
  · rfl
  · rfl
  · cases starts

theorem noUnary_of_startsOperand {kind : Kind} (starts : kind.startsOperand) :
    UnaryOp.ofKind? kind = none := by
  unfold startsOperand at starts
  split at starts <;> first | rfl | cases starts

theorem startsStmt_of_startsHead {kind : Kind} (starts : kind.startsHead) : kind.startsStmt := by
  unfold startsHead at starts
  split at starts
  · rfl
  · rfl
  · cases starts

theorem noBlockEnd_of_startsStmt {kind : Kind} (starts : kind.startsStmt) :
    kind.endsBlock = false := by
  unfold endsBlock
  split <;> first | cases starts | rfl

theorem endsExpr_noBinary {kind : Kind} (ends : kind.endsExpr) : BinaryOp.ofKind? kind = none := by
  simp only [endsExpr, Bool.and_eq_true, Option.isNone_iff_eq_none] at ends
  exact ends.1.1

theorem endsExpr_noSuffix {kind : Kind} (ends : kind.endsExpr) : kind.startsSuffix = false := by
  simp only [endsExpr, Bool.and_eq_true, Bool.not_eq_true'] at ends
  exact ends.1.2

theorem endsExpr_noEquals {kind : Kind} (ends : kind.endsExpr) : kind ≠ symbol .eq := by
  simp only [endsExpr, Bool.and_eq_true, decide_eq_true_eq] at ends
  exact ends.2

end Kind

theorem unary_ofKind?_lexeme (op : UnaryOp) : UnaryOp.ofKind? op.lexeme.1 = some op := by
  cases op <;> rfl

theorem binary_ofKind?_lexeme (op : BinaryOp) : BinaryOp.ofKind? op.lexeme.1 = some op := by
  rcases op with op | op | op | _ <;> try cases op
  all_goals rfl

theorem leftPriority_pos (op : BinaryOp) : 0 < op.leftPriority := by
  rcases op with op | op | op | _ <;> try cases op
  all_goals decide

theorem binary_lexeme_noSuffix (op : BinaryOp) : op.lexeme.1.startsSuffix = false := by
  rcases op with op | op | op | _ <;> try cases op
  all_goals rfl

theorem binary_lexeme_noEquals (op : BinaryOp) : op.lexeme.1 ≠ .symbol .eq := by
  rcases op with op | op | op | _ <;> try cases op
  all_goals nofun

theorem leads_separated {P : Kind → Prop} {item : List Lexeme} (leads : Leads P item)
    (items : List (List Lexeme)) : Leads P (Render.separated (item :: items)) := by
  cases items with
  | nil => exact leads
  | cons _ _ => exact leads.append _

def Unnamed (ls : List Lexeme) : Prop :=
  Leads (· = .ident) ls → (ls[1]?.map Prod.fst).getD .eof ≠ .symbol .eq

theorem unnamed_of_leads {ls : List Lexeme} (leads : Leads (· ≠ .ident) ls) : Unnamed ls := by
  rintro ⟨l, first, name⟩
  obtain ⟨l', first', other⟩ := leads
  cases first.symm.trans first'
  exact absurd name other

end LuaSearch
