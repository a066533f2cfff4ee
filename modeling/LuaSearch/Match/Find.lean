import LuaSearch.Match.Scan
import LuaSearch.Parse.Chunk
import LuaSearch.Template

/-!
Searching a chunk, or a source text, for a template.
-/
namespace LuaSearch

structure Found where
  verdict : Verdict
  captures : Captures

/-- Searches a chunk. A template deeper than the limit could never be met and is refused. -/
def find (candidate : Block) (template : Template) (options : Options) :
    Except MatchError Found :=
  if options.maxDepth < template.depth then
    .error (.templateTooDeep template.depth options.maxDepth)
  else
    let outcome := scan template.stmts options candidate
    outcome.answer.map fun verdict => ⟨verdict, outcome.captures⟩

/-- The statement of the chunk at which a match is reported: the first statement of the match, or
    for a nested match the first statement that holds one when it is searched alone. -/
def anchor? (chunk : Block) (template : Template) (options : Options) :
    Verdict → Option Stmt
  | .noMatch => none
  | .found start _ => chunk[start]?
  | .nested _ => chunk.find? fun s =>
      match find [s] template options with
      | .ok ⟨.nested _, _⟩ => true
      | _ => false

inductive SearchError where
  | template (error : SyntaxError)
  | source (error : SyntaxError)
  | refused (error : MatchError)
  deriving DecidableEq, Repr

def SearchError.message : SearchError → String
  | .template error => "template: " ++ error.message
  | .source error => "source: " ++ error.message
  | .refused error => error.message

def search (source template : String) (options : Options) : Except SearchError Found := do
  let pattern ← (parse template).mapError .template
  let pattern ← (Template.ofChunk pattern).mapError .refused
  let chunk ← (parse source).mapError .source
  (find chunk pattern options).mapError .refused

end LuaSearch
