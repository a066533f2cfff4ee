/-!
What the command line sees of a file system: what stands at a path, and the Lua files below a
directory. A directory is walked depth first with the entries of each directory in the order of
their names.
-/
namespace LuaSearch.Cli

inductive ReadError where
  | notFound
  | notDirectory
  | isDirectory
  | denied
  | notText
  deriving DecidableEq, Repr

inductive Node where
  | file (bytes : ByteArray)
  | directory (entries : List (String × Node))
  | unreadable (error : ReadError)
  | unlisted

def ReadError.message : ReadError → String
  | .notFound => "No such file or directory (os error 2)"
  | .notDirectory => "Not a directory (os error 20)"
  | .isDirectory => "Is a directory (os error 21)"
  | .denied => "Permission denied (os error 13)"
  | .notText => "stream did not contain valid UTF-8"

abbrev Disk := String → Except ReadError Node

def Node.text : Node → Except ReadError String
  | directory _ | unlisted => .error .isDirectory
  | unreadable error => .error error
  | file bytes =>
      match String.fromUTF8? bytes with
      | some text => .ok text
      | none => .error .notText

def join (path name : String) : String :=
  if path.toList.getLast? = some '/' then path ++ name else path ++ "/" ++ name

def isLua (name : String) : Bool := ".lua".toList.isSuffixOf name.toList && name ≠ ".lua"

def sortByName {α : Type} (entries : List (String × α)) : List (String × α) :=
  entries.mergeSort fun a b => !(b.1 < a.1)

inductive Entry where
  | file (path : String) (found : Except ReadError Node)
  /-- A directory that cannot be walked. -/
  | unwalked

mutual
def Node.luaFiles : Node → String → String → List Entry
  | .file bytes, path, name => if isLua name then [.file path (.ok (.file bytes))] else []
  | .unreadable error, path, name => if isLua name then [.file path (.error error)] else []
  | .directory entries, path, _ => (sortByName (luaEntries entries path)).flatMap Prod.snd
  | .unlisted, _, _ => [.unwalked]
termination_by structural node => node

def luaEntries : List (String × Node) → String → List (String × List Entry)
  | [], _ => []
  | entry :: entries, path => luaEntry entry path :: luaEntries entries path
termination_by structural entries => entries

def luaEntry : String × Node → String → String × List Entry
  | (name, node), path => (name, node.luaFiles (join path name) name)
termination_by structural entry => entry
end

/-- What a path on the command line stands for: the Lua files below a directory, or else the path
    itself. -/
def expand (disk : Disk) (path : String) : List Entry :=
  match disk path with
  | .ok (.directory entries) => (Node.directory entries).luaFiles path ""
  | .ok .unlisted => Node.unlisted.luaFiles path ""
  | found => [.file path found]

def insert (node : Node) : List String → List (String × Node) → List (String × Node)
  | [], entries => entries
  | [name], entries => entries.filter (·.1 ≠ name) ++ [(name, node)]
  | name :: path, entries =>
      let below :=
        match entries.lookup name with
        | some (.directory inside) => inside
        | _ => []
      entries.filter (·.1 ≠ name) ++ [(name, .directory (insert node path below))]

/-- Follows the parts of a path from a node. `above` are the directories that lead to it, the
    nearest first. -/
def follow : List String → List Node → Node → Except ReadError Node
  | [], _, node => .ok node
  | _ :: _, _, .file _ | _ :: _, _, .unreadable _ => .error .notDirectory
  | _ :: _, _, .unlisted => .error .denied
  | part :: rest, above, .directory entries =>
      if part = "" ∨ part = "." then follow rest above (.directory entries)
      else if part = ".." then
        match above with
        | [] => .error .notFound
        | parent :: further => follow rest further parent
      else
        match entries.lookup part with
        | some node => follow rest (.directory entries :: above) node
        | none => .error .notFound

/-- The file system of a working directory with the given files. A path that starts at the root
    of the file system leads nowhere. -/
def Disk.ofFiles (files : List (String × ByteArray)) : Disk :=
  let root := files.foldl
    (fun entries (path, bytes) => insert (.file bytes) (path.splitOn "/") entries) []
  fun path =>
    if path.toList.head? = some '/' then .error .notFound
    else follow (path.splitOn "/") [] (.directory root)

end LuaSearch.Cli
