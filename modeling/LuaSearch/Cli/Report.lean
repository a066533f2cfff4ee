import LuaSearch.Match.Find
import LuaSearch.Match.Json

/-!
The report on a file with a match: where the match is and what the wildcards stood for.
-/
namespace LuaSearch.Cli

structure CaptureReport where
  kindName : String
  position : Position
  text : String
  deriving DecidableEq, Repr

def CaptureReport.of (source kindName : String) (span : Span) : CaptureReport :=
  ⟨kindName, span.position source, (span.text? source).getD ""⟩

structure FileReport where
  path : String
  verdict : Verdict
  /-- Where the first statement of the match starts, or the statement that holds it. -/
  position? : Option Position
  exprs : List CaptureReport
  stmts : List CaptureReport
  deriving DecidableEq, Repr

def FileReport.of (path source : String) (anchor? : Option Stmt) (found : Found) : FileReport where
  path := path
  verdict := found.verdict
  position? := anchor?.map fun s => s.span.position source
  exprs := found.captures.exprs.map fun e => .of source e.kindName e.span
  stmts := found.captures.stmts.map fun s => .of source s.kindName s.span

def CaptureReport.toJson (r : CaptureReport) : Json :=
  .object [("kind", .string r.kindName), ("line", .number r.position.line),
    ("column", .number r.position.column), ("text", .string r.text)]

def FileReport.toJson (r : FileReport) : Json :=
  .object [("path", .string r.path), ("verdict", r.verdict.toJson),
    ("line", ((r.position?.map Position.line).map .number).getD .null),
    ("column", ((r.position?.map Position.column).map .number).getD .null),
    ("exprs", .array (r.exprs.map CaptureReport.toJson)),
    ("stmts", .array (r.stmts.map CaptureReport.toJson))]

def firstLine (text : String) : String :=
  let line := text.toList.takeWhile (· ≠ '\n')
  if line.length < text.toList.length ∧ line.getLast? = some '\r' then
    String.ofList line.dropLast
  else String.ofList line

/-- Statements are counted from one, the last one included. -/
def place : Verdict → Option String
  | .noMatch => none
  | .found start stop => some s!"statements {start + 1}..{stop}"
  | .nested .block => some "inside a nested block"
  | .nested .function => some "inside a function"

def heading (path : String) (position? : Option Position) (place : String) : String :=
  match position? with
  | some p => s!"{path}:{p.line}:{p.column}: {place}"
  | none => s!"{path}: {place}"

def CaptureReport.line (sign : String) (number : Nat) (r : CaptureReport) (text : String) :
    String :=
  s!"  {sign}{number} {r.position.line}:{r.position.column} {r.kindName}: {text}"

def FileReport.lines (r : FileReport) : List String :=
  match place r.verdict with
  | none => []
  | some place =>
      heading r.path r.position? place ::
        (r.exprs.zipIdx.map (fun (c, i) => c.line "$" (i + 1) c.text) ++
          r.stmts.zipIdx.map (fun (c, i) => c.line "@" (i + 1) (firstLine c.text)))

end LuaSearch.Cli
