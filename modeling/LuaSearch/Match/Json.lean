import LuaSearch.Match.Outcome
import LuaSearch.Syntax.Json
import LuaSearch.Template

/-!
Verdicts and templates as JSON.
-/
namespace LuaSearch

def Scope.label : Scope → String
  | .block => "block"
  | .function => "function"

def Verdict.toJson : Verdict → Json
  | .noMatch => .object [("kind", .string "no_match")]
  | .found start stop =>
      .object [("kind", .string "at"), ("stmts", (Span.mk start stop).toJson)]
  | .nested scope => .object [("kind", .string "nested"), ("scope", .string scope.label)]

def Template.toJson (t : Template) : Json :=
  .object [("stmts", Block.toJson t.stmts), ("depth", .number t.depth)]

end LuaSearch
