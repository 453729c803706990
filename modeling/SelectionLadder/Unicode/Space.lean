/-!
# White space

The characters with the `White_Space` property: the blanks, tabs and line breaks of all scripts.
-/

namespace SelectionLadder.Unicode

/-- A blank, a tab or a line break. -/
def isSpace (c : Char) : Bool :=
  (0x9 ≤ c.val && c.val ≤ 0xD) || c.val == 0x20 || c.val == 0x85 || c.val == 0xA0 ||
    c.val == 0x1680 || (0x2000 ≤ c.val && c.val ≤ 0x200A) || c.val == 0x2028 ||
    c.val == 0x2029 || c.val == 0x202F || c.val == 0x205F || c.val == 0x3000

end SelectionLadder.Unicode
