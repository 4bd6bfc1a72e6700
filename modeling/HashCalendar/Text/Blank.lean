/-
**White space.**

Main definitions:

* `HashCalendar.Text.isBlank` — the 25 characters with the property of white space;
* `HashCalendar.Text.skipBlanks` — a text from its first other character on.
-/

import HashCalendar.Text.Bytes

set_option relaxedAutoImplicit false
set_option autoImplicit false

namespace HashCalendar.Text

/-- The characters with the property of white space. -/
def isBlank (c : Char) : Bool :=
  let n := c.toNat
  (9 ≤ n && n ≤ 13) || n = 0x20 || n = 0x85 || n = 0xa0 || n = 0x1680 || (0x2000 ≤ n && n ≤ 0x200a)
    || n = 0x2028 || n = 0x2029 || n = 0x202f || n = 0x205f || n = 0x3000

/-- The characters from the first that is no white space on. -/
def skipBlanks (cs : List Char) : List Char := cs.dropWhile isBlank

end HashCalendar.Text
