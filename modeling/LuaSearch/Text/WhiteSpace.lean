/-!
The characters with the Unicode property White_Space. The set is larger than the blanks that
separate tokens; a string literal skips all of it where it asks for blanks to be left out.
-/
namespace LuaSearch.Text

/-- The code points of the property, as closed ranges in increasing order. -/
def whiteSpaceRanges : List (Nat × Nat) :=
  [(0x09, 0x0D), (0x20, 0x20), (0x85, 0x85), (0xA0, 0xA0), (0x1680, 0x1680), (0x2000, 0x200A),
    (0x2028, 0x2029), (0x202F, 0x202F), (0x205F, 0x205F), (0x3000, 0x3000)]

def isWhiteSpace (c : Char) : Bool :=
  whiteSpaceRanges.any fun (low, high) => low ≤ c.toNat && c.toNat ≤ high

end LuaSearch.Text
