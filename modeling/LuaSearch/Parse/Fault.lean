import LuaSearch.Token

/-!
Why a text is not accepted, and where.
-/
namespace LuaSearch

def maxNesting : Nat := 200

inductive Expected where
  | token (kind : Kind)
  | expression
  | arguments
  deriving DecidableEq, Repr

def Expected.describe : Expected → String
  | .token kind => kind.describe
  | .expression => "expression"
  | .arguments => "function arguments"

inductive Fault where
  | unexpected (expected : Expected) (found : Kind)
  | invalidToken
  | invalidExpression
  | invalidTarget
  | invalidStatement
  | tooDeep
  /-- A round of repetition took no token and would go on for ever. It can only happen where the
      tokens do not end with an end marker. -/
  | stalled
  deriving DecidableEq, Repr

def Fault.message : Fault → String
  | .unexpected expected .eof => s!"unexpected end of file: expected {expected.describe}"
  | .unexpected expected found =>
      s!"unexpected token: expected {expected.describe}, found {found.describe}"
  | .invalidToken => "invalid token"
  | .invalidExpression => "invalid expression"
  | .invalidTarget => "cannot assign to this expression"
  | .invalidStatement => "syntax error: expression statement must be a call or an assignment"
  | .tooDeep => s!"nesting exceeds the limit of {maxNesting} levels"
  | .stalled => "no end of file"

structure SyntaxError where
  fault : Fault
  span : Span
  deriving DecidableEq, Repr

def SyntaxError.message (e : SyntaxError) : String := e.fault.message

end LuaSearch
