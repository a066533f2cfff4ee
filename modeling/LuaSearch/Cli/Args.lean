import LuaSearch.Match.Outcome

/-!
The command line. The first argument names the command; options and plain arguments of the
command may be mixed, and everything behind `--` is plain. An option takes its value from its own
argument (`--name=value`, `-evalue`, `-e=value`) or from the next one, which must then not look
like an option. Nothing may be given twice.
-/
namespace LuaSearch.Cli

inductive TemplateSource where
  | file (path : String)
  | text (source : String)
  deriving DecidableEq, Repr

inductive Command where
  | search (paths : List String) (template : TemplateSource) (json : Bool) (options : Options)
  | parse (path : String) (pretty : Bool)
  | template (template : TemplateSource)
  deriving DecidableEq, Repr

inductive Key where
  | template | expr | json | exhaustive | discard | maxDepth | pretty
  deriving DecidableEq, Repr

def Key.long : Key → String
  | template => "template"
  | expr => "expr"
  | json => "json"
  | exhaustive => "exhaustive"
  | discard => "discard-failed-captures"
  | maxDepth => "max-depth"
  | pretty => "pretty"

def Key.short? : Key → Option Char
  | template => some 'p'
  | expr => some 'e'
  | pretty => some 'p'
  | _ => none

def Key.takesValue : Key → Bool
  | template | expr | maxDepth => true
  | _ => false

/-- The arguments of a command sorted out. A flag is given with an empty value. -/
structure Given where
  plain : List String
  keyed : List (Key × String)

def Given.addPlain (given : Given) (value : String) : Given :=
  { given with plain := value :: given.plain }

def Given.addKeyed (given : Given) (key : Key) (value : String) : Given :=
  { given with keyed := (key, value) :: given.keyed }

inductive Shape where
  | plain
  | terminator
  | keyed (key : Key) (value? : Option String)
  | unknown

def afterEquals? (text : List Char) : Option String :=
  match text.dropWhile (· ≠ '=') with
  | [] => none
  | _ :: value => some (String.ofList value)

def shape (keys : List Key) (arg : String) : Shape :=
  match arg.toList with
  | ['-', '-'] => .terminator
  | '-' :: '-' :: text =>
      match keys.find? (·.long = String.ofList (text.takeWhile (· ≠ '='))) with
      | some key => .keyed key (afterEquals? text)
      | none => .unknown
  | '-' :: letter :: text =>
      match keys.find? (·.short? = some letter) with
      | some key =>
          .keyed key <|
            match text with
            | [] => none
            | '=' :: value => some (String.ofList value)
            | value => some (String.ofList value)
      | none => .unknown
  | _ => .plain

def looksLikeOption (arg : String) : Bool :=
  match arg.toList with
  | '-' :: _ :: _ => true
  | _ => false

def collect (keys : List Key) : List String → Option Given
  | [] => some ⟨[], []⟩
  | arg :: rest =>
      match shape keys arg with
      | .plain => (collect keys rest).map (·.addPlain arg)
      | .terminator => some ⟨rest, []⟩
      | .unknown => none
      | .keyed key (some value) =>
          if key.takesValue then (collect keys rest).map (·.addKeyed key value) else none
      | .keyed key none =>
          if key.takesValue then
            match rest with
            | value :: later =>
                if looksLikeOption value then none
                else (collect keys later).map (·.addKeyed key value)
            | [] => none
          else (collect keys rest).map (·.addKeyed key "")

def Given.distinct (given : Given) : Bool := (given.keyed.map Prod.fst).Nodup

def Given.has (given : Given) (key : Key) : Bool := (given.keyed.lookup key).isSome

def path? (text : String) : Option String := if text.isEmpty then none else some text

/-- A count below two to the sixty-fourth, perhaps with a plus sign. -/
def count? (text : String) : Option Nat :=
  let digits :=
    match text.toList with
    | '+' :: digits => digits
    | digits => digits
  if digits ≠ [] ∧ digits.all Char.isDigit then
    let value := digits.foldl (fun value c => 10 * value + (c.toNat - '0'.toNat)) 0
    if value < UInt64.size then some value else none
  else none

def Given.template? (given : Given) : Option TemplateSource :=
  match given.keyed.lookup .template, given.keyed.lookup .expr with
  | some file, none => (path? file).map .file
  | none, some text => some (.text text)
  | _, _ => none

def Given.maxDepth? (given : Given) : Option Nat :=
  match given.keyed.lookup .maxDepth with
  | some text => count? text
  | none => some defaultMaxDepth

def search? (args : List String) : Option Command := do
  let given ← collect [.template, .expr, .json, .exhaustive, .discard, .maxDepth] args
  let paths ← given.plain.mapM path?
  let template ← given.template?
  let maxDepth ← given.maxDepth?
  if paths.isEmpty || !given.distinct then none
  else
    let options : Options :=
      ⟨if given.has .exhaustive then .exhaustive else .greedy,
        if given.has .discard then .discard else .retain, maxDepth⟩
    return .search paths template (given.has .json) options

def parse? (args : List String) : Option Command := do
  let given ← collect [.pretty] args
  match given.plain with
  | [text] =>
      let path ← path? text
      if given.distinct then return .parse path (given.has .pretty) else none
  | _ => none

def template? (args : List String) : Option Command := do
  let given ← collect [.template, .expr] args
  let template ← given.template?
  if given.plain.isEmpty && given.distinct then return .template template else none

def Command.ofArgs? : List String → Option Command
  | "search" :: args => search? args
  | "parse" :: args => parse? args
  | "template" :: args => template? args
  | _ => none

end LuaSearch.Cli
