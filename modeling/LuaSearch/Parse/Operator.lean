import LuaSearch.Syntax.Basic
import LuaSearch.Token

/-!
Operators in source: which tokens write them and how tightly they bind. An operator takes the
text on its left when its left priority is above the limit set by the operator before it, and
sets its right priority as the limit for what follows; so a higher left priority groups to the
right.
-/
namespace LuaSearch

def UnaryOp.ofKind? : Kind → Option UnaryOp
  | .symbol .minus => some .neg
  | .keyword .not_ => some .not
  | .symbol .hash => some .len
  | .symbol .tilde => some .bitNot
  | _ => none

namespace BinaryOp

def ofKind? : Kind → Option BinaryOp
  | .symbol .plus => some (.arith .add)
  | .symbol .minus => some (.arith .sub)
  | .symbol .star => some (.arith .mul)
  | .symbol .slash => some (.arith .div)
  | .symbol .slashSlash => some (.arith .floorDiv)
  | .symbol .percent => some (.arith .mod)
  | .symbol .caret => some (.arith .pow)
  | .symbol .amp => some (.arith .bitAnd)
  | .symbol .pipe => some (.arith .bitOr)
  | .symbol .tilde => some (.arith .bitXor)
  | .symbol .shl => some (.arith .shl)
  | .symbol .shr => some (.arith .shr)
  | .symbol .eqEq => some (.rel .eq)
  | .symbol .tildeEq => some (.rel .ne)
  | .symbol .lt => some (.rel .lt)
  | .symbol .le => some (.rel .le)
  | .symbol .gt => some (.rel .gt)
  | .symbol .ge => some (.rel .ge)
  | .keyword .and_ => some (.logic .and)
  | .keyword .or_ => some (.logic .or)
  | .symbol .dotDot => some .concat
  | _ => none

def ofCompound? : Kind → Option BinaryOp
  | .symbol .plusEq => some (.arith .add)
  | .symbol .minusEq => some (.arith .sub)
  | .symbol .starEq => some (.arith .mul)
  | .symbol .slashEq => some (.arith .div)
  | .symbol .percentEq => some (.arith .mod)
  | .symbol .caretEq => some (.arith .pow)
  | .symbol .dotDotEq => some .concat
  | _ => none

def leftPriority : BinaryOp → Nat
  | .logic .or => 1
  | .logic .and => 2
  | .rel _ => 3
  | .arith .bitOr => 4
  | .arith .bitXor => 5
  | .arith .bitAnd => 6
  | .arith .shl | .arith .shr => 7
  | .concat => 9
  | .arith .add | .arith .sub => 10
  | .arith .mul | .arith .div | .arith .floorDiv | .arith .mod => 11
  | .arith .pow => 14

/-- Only `..` and `^` group to the right. -/
def rightPriority : BinaryOp → Nat
  | .concat => 8
  | .arith .pow => 13
  | op => op.leftPriority

end BinaryOp

/-- The limit that a unary operator sets for its operand: only `^` binds tighter. -/
def UnaryOp.priority : Nat := 12

end LuaSearch
