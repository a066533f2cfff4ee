import LuaSearch.Cli.Args
import LuaSearch.Cli.Disk
import LuaSearch.Cli.Report

/-!
Running a command over a file system. A search goes on with the next file after a failure, but a
failure anywhere is a failure of the whole.
-/
namespace LuaSearch.Cli

inductive Status where
  | matched
  | unmatched
  | failed
  deriving DecidableEq, Repr

def Status.exitCode : Status → Nat
  | matched => 0
  | unmatched => 1
  | failed => 2

inductive Diagnostic where
  | line (text : String)
  | syntaxError (name source : String) (error : SyntaxError)
  | usage
  deriving DecidableEq, Repr

structure Output where
  status : Status
  stdout : String
  diagnostics : List Diagnostic
  deriving DecidableEq, Repr

namespace Output

def failed (diagnostic : Diagnostic) : Output := ⟨.failed, "", [diagnostic]⟩

def lines (lines : List String) : Output :=
  ⟨.matched, lines.foldl (fun out line => out ++ line ++ "\n") "", []⟩

end Output

def parseNamed (name source : String) : Except Diagnostic Block :=
  (parse source).mapError (.syntaxError name source)

def readAndParse (path : String) (found : Except ReadError Node) :
    Except Diagnostic (String × Block) := do
  let source ← (found.bind Node.text).mapError fun e =>
    .line s!"Error reading {path}: {e.message}"
  let chunk ← parseNamed path source
  return (source, chunk)

def templateText (disk : Disk) : TemplateSource → Except Diagnostic (String × String)
  | .text source => .ok ("<template>", source)
  | .file path =>
      match (disk path).bind Node.text with
      | .ok source => .ok (path, source)
      | .error e => .error (.line s!"Error reading template {path}: {e.message}")

def loadTemplate (disk : Disk) (given : TemplateSource) : Except Diagnostic Template := do
  let (name, source) ← templateText disk given
  let chunk ← parseNamed name source
  (Template.ofChunk chunk).mapError fun e => .line s!"Invalid template: {e.message}"

structure Progress where
  matched : Bool
  failed : Bool
  stdout : String
  diagnostics : List Diagnostic

namespace Progress

def start : Progress := ⟨false, false, "", []⟩

def fail (p : Progress) (said : List Diagnostic) : Progress :=
  { p with failed := true, diagnostics := p.diagnostics ++ said }

def print (p : Progress) (line : String) : Progress := { p with stdout := p.stdout ++ line ++ "\n" }

def output (p : Progress) : Output where
  status := if p.failed then .failed else if p.matched then .matched else .unmatched
  stdout := p.stdout
  diagnostics := p.diagnostics

end Progress

/-- The files that the paths stand for. A directory that cannot be walked is left out, and is a
    failure that nothing is said about. -/
def collectFiles (disk : Disk) (paths : List String) :
    StateM Progress (Array (String × Except ReadError Node)) := do
  let mut files := #[]
  for path in paths do
    for entry in expand disk path do
      match entry with
      | .file path found => files := files.push (path, found)
      | .unwalked => modify (·.fail [])
  return files

/-- Searches one file after the other. A file that fails, or that holds no match, is passed over. -/
def searchFiles (template : Template) (options : Options) (json : Bool)
    (files : Array (String × Except ReadError Node)) : StateM Progress Unit := do
  for (path, found) in files do
    match readAndParse path found with
    | .error diagnostic =>
        modify (·.fail [diagnostic])
        continue
    | .ok (source, chunk) =>
        match find chunk template options with
        | .error e =>
            modify (·.fail [.line s!"{path}: {e.message}"])
            continue
        | .ok found =>
            if !found.verdict.isMatch then continue
            modify ({ · with matched := true })
            let report := FileReport.of path source
              (anchor? chunk template options found.verdict) found
            if json then modify (·.print report.toJson.compress)
            else
              for line in report.lines do
                modify (·.print line)

def searchPaths (disk : Disk) (template : Template) (options : Options) (json : Bool)
    (paths : List String) : Output :=
  let search := do searchFiles template options json (← collectFiles disk paths)
  (search.run .start).2.output

def Command.run (disk : Disk) : Command → Output
  | search paths given json options =>
      match loadTemplate disk given with
      | .error diagnostic => .failed diagnostic
      | .ok pattern => searchPaths disk pattern options json paths
  | parse path pretty =>
      match readAndParse path (disk path) with
      | .error diagnostic => .failed diagnostic
      | .ok (_, chunk) =>
          let tree := Block.toJson chunk
          .lines [if pretty then tree.pretty else tree.compress]
  | template given =>
      match loadTemplate disk given with
      | .error diagnostic => .failed diagnostic
      | .ok pattern => .lines [pattern.toJson.pretty]

def run (disk : Disk) (args : List String) : Output :=
  match Command.ofArgs? args with
  | none => .failed .usage
  | some command => command.run disk

end LuaSearch.Cli
