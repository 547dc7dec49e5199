/-!
# Blank characters

The characters with Unicode's `White_Space` property, and texts without the blanks at their ends.
The property includes the no-break spaces and the ideographic space; it includes neither the
zero-width space nor the byte order mark.
-/

namespace SignetFederation.Text

/-- Whether a character has the property `White_Space`. -/
def isBlank (c : Char) : Bool :=
  let n := c.toNat
  (9 ≤ n && n ≤ 13) || n == 0x20 || n == 0x85 || n == 0xA0 || n == 0x1680 ||
    (0x2000 ≤ n && n ≤ 0x200A) || n == 0x2028 || n == 0x2029 || n == 0x202F || n == 0x205F ||
    n == 0x3000

/-- A row of characters without the blanks before its first and after its last other one. -/
def trim (cs : List Char) : List Char :=
  ((cs.dropWhile isBlank).reverse.dropWhile isBlank).reverse

/-- A text without the blanks at its ends. -/
def trimmed (s : String) : String := String.ofList (trim s.toList)

end SignetFederation.Text
