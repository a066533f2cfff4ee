/-!
Why a search has no answer.
-/
namespace LuaSearch

inductive MatchError where
  | emptyTemplate
  | templateTooDeep (depth limit : Nat)
  | depthExceeded (limit : Nat)
  deriving DecidableEq, Repr

def MatchError.message : MatchError → String
  | .emptyTemplate => "template is empty"
  | .templateTooDeep depth limit =>
      s!"template nesting depth {depth} exceeds the limit of {limit}"
  | .depthExceeded limit => s!"candidate nesting exceeds the depth limit of {limit}"

end LuaSearch
