/-
**Values of TOML files.**

A file assigns values to keys.  Texts, whole numbers and truth values are read for what they denote;
floating-point numbers and times are recognised and kept as they are written.

Main definitions:

* `HashCalendar.Toml` — values;
* `HashCalendar.Toml.maxNesting`, `HashCalendar.Toml.integerBound` — the limits of a file.
-/

import HashCalendar.Text.Bytes

set_option relaxedAutoImplicit false
set_option autoImplicit false

namespace HashCalendar

/-- A value in a file. -/
inductive Toml where
  | text (value : String)
  /-- A whole number of 64 bits with sign. -/
  | integer (value : Int)
  | boolean (value : Bool)
  /-- A floating-point number, as it is written. -/
  | float (written : List Char)
  /-- A date, a time of day or both, as it is written. -/
  | time (written : List Char)
  | array (items : List Toml)
  | table (members : List (String × Toml))

namespace Toml

instance : Inhabited Toml := ⟨.table []⟩

/-- The deepest nesting of lists and tables inside values, and the greatest length of a dotted
key. -/
def maxNesting : Nat := 79

/-- Whole numbers are below this bound, and not below its negative. -/
def integerBound : Nat := UInt64.size / 2

end Toml

end HashCalendar
