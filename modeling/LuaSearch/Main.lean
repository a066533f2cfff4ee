import LuaSearch.Cli.Run

/-!
The program. The paths that the arguments name are read first; all else is decided by the pure
command line.
-/
namespace LuaSearch.Cli

def ReadError.of? : IO.Error → Option ReadError
  | .noFileOrDirectory .. => some .notFound
  | .inappropriateType .. => some .notDirectory
  | .permissionDenied .. => some .denied
  | _ => none

/-- Reads a file, or a directory with all that is in it. Directories below the given number of
    levels are left out. -/
def load (levels : Nat) (path : String) : IO (Except ReadError Node) := do
  let here ← IO.currentDir
  let place := here / path
  if ← place.isDir then
    match levels with
    | 0 => return .ok (.directory [])
    | levels + 1 =>
        let listed ← try pure (some (← place.readDir)) catch _ => pure none
        let some found := listed | return .ok .unlisted
        let mut entries := #[]
        for entry in found do
          match ← load levels (join path entry.fileName) with
          | .ok node => entries := entries.push (entry.fileName, node)
          -- A link that leads nowhere.
          | .error .notFound => pure ()
          | .error e => entries := entries.push (entry.fileName, .unreadable e)
        return .ok (.directory entries.toList)
  else
    try
      return .ok (.file (← IO.FS.readBinFile place))
    catch e =>
      match ReadError.of? e with
      | some known => return .error known
      | none => throw e

def Command.paths : Command → List String
  | search paths (.file file) _ _ => file :: paths
  | search paths (.text _) _ _ => paths
  | parse path _ => [path]
  | template (.file file) => [file]
  | template (.text _) => []

def Diagnostic.text : Diagnostic → String
  | line text => text
  | syntaxError name source error =>
      let p := error.span.position source
      s!"{name}:{p.line}:{p.column}: {error.message}"
  | usage => "usage: search PATHS... (-p FILE | -e SOURCE) [--json] [--exhaustive] " ++
      "[--discard-failed-captures] [--max-depth N] | parse FILE [--pretty] | " ++
      "template (-p FILE | -e SOURCE)"

def loadAll (args : List String) : IO Disk := do
  let paths := ((Command.ofArgs? args).map Command.paths).getD []
  let mut known := #[]
  for path in paths do
    known := known.push (path, ← load 1000 path)
  let table := known.toList
  return fun path => (table.lookup path).getD (.error .notFound)

end LuaSearch.Cli

open LuaSearch.Cli in
def main (args : List String) : IO UInt32 := do
  let output := run (← loadAll args) args
  IO.print output.stdout
  for diagnostic in output.diagnostics do
    IO.eprintln diagnostic.text
  return UInt32.ofNat output.status.exitCode
