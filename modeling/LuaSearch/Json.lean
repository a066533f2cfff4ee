/-!
JSON values and their text. Numbers are natural numbers: positions and counts are all that is
written. Members of an object keep the order in which they were given.
-/
namespace LuaSearch

inductive Json where
  | null
  | bool (value : Bool)
  | number (value : Nat)
  | string (value : String)
  | array (items : List Json)
  | object (members : List (String × Json))
  deriving Inhabited

namespace Json

def hexDigit (n : Nat) : Char := ("0123456789abcdef".toList[n % 16]?).getD '0'

def escaped (c : Char) : String :=
  if c = '"' then "\\\""
  else if c = '\\' then "\\\\"
  else if c = '\x08' then "\\b"
  else if c = '\x0c' then "\\f"
  else if c = '\n' then "\\n"
  else if c = '\r' then "\\r"
  else if c = '\t' then "\\t"
  else if c < ' ' then
    String.ofList ['\\', 'u', '0', '0', hexDigit (c.toNat / 16), hexDigit c.toNat]
  else String.singleton c

def quoted (s : String) : String := s.toList.foldl (fun out c => out ++ escaped c) "\"" ++ "\""

/-- How a value is laid out: on one line, or on lines indented by the depth of nesting. -/
inductive Layout where
  | compact
  | indented (depth : Nat)
  deriving DecidableEq, Repr

namespace Layout

def lineBreak : Layout → String
  | compact => ""
  | indented depth => "\n" ++ String.ofList (List.replicate (2 * depth) ' ')

def inside : Layout → Layout
  | compact => compact
  | indented depth => indented (depth + 1)

def colon : Layout → String
  | compact => ":"
  | indented _ => ": "

end Layout

mutual
def write : Json → Layout → String → String
  | null, _, out => out ++ "null"
  | bool value, _, out => out ++ (if value then "true" else "false")
  | number value, _, out => out ++ value.repr
  | string value, _, out => out ++ quoted value
  | array [], _, out => out ++ "[]"
  | array (item :: items), layout, out =>
      writeItems items layout (item.write layout.inside (out ++ "[" ++ layout.inside.lineBreak))
  | object [], _, out => out ++ "\x7b\x7d"
  | object (member :: members), layout, out =>
      writeMembers members layout
        (writeMember member layout (out ++ "\x7b" ++ layout.inside.lineBreak))
termination_by structural value => value

def writeItems : List Json → Layout → String → String
  | [], layout, out => out ++ layout.lineBreak ++ "]"
  | item :: items, layout, out =>
      writeItems items layout (item.write layout.inside (out ++ "," ++ layout.inside.lineBreak))
termination_by structural items => items

def writeMember : String × Json → Layout → String → String
  | (name, value), layout, out => value.write layout.inside (out ++ quoted name ++ layout.colon)
termination_by structural member => member

def writeMembers : List (String × Json) → Layout → String → String
  | [], layout, out => out ++ layout.lineBreak ++ "\x7d"
  | member :: members, layout, out =>
      writeMembers members layout
        (writeMember member layout (out ++ "," ++ layout.inside.lineBreak))
termination_by structural members => members
end

def compress (value : Json) : String := value.write .compact ""

def pretty (value : Json) : String := value.write (.indented 0) ""

def member? : Json → String → Option Json
  | object members, name => members.lookup name
  | _, _ => none

/-- The member of the name, where absent and null mean that there is none. -/
def present? (value : Json) (name : String) : Option Json :=
  match value.member? name with
  | some null => none
  | found => found

def bool? : Json → Option Bool
  | bool value => some value
  | _ => none

def number? : Json → Option Nat
  | number value => some value
  | _ => none

def string? : Json → Option String
  | string value => some value
  | _ => none

def array? : Json → Option (List Json)
  | array items => some items
  | _ => none

mutual
def depth : Json → Nat
  | array items => depthItems items + 1
  | object members => depthMembers members + 1
  | _ => 1
termination_by structural value => value

def depthItems : List Json → Nat
  | [] => 0
  | item :: items => max item.depth (depthItems items)
termination_by structural items => items

def depthMember : String × Json → Nat
  | (_, value) => value.depth
termination_by structural member => member

def depthMembers : List (String × Json) → Nat
  | [] => 0
  | member :: members => max (depthMember member) (depthMembers members)
termination_by structural members => members
end

end Json

end LuaSearch
