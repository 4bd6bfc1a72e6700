/-
**Writing TOML files.**

A written file consists of sections with a blank line between them.  A section is the header of a
table and the pairs of its members, each on a line of its own.

Main definitions:

* `HashCalendar.Toml.Entry` — what may stand under a key;
* `HashCalendar.Toml.Section` — a header with its pairs;
* `HashCalendar.Toml.write?` — the written form of sections, if all of their numbers fit.
-/

import HashCalendar.Number.Decimal
import HashCalendar.Toml.Quoted
import HashCalendar.Toml.Value

set_option relaxedAutoImplicit false
set_option autoImplicit false

namespace HashCalendar.Toml

/-- What may stand under a key of a written file. -/
inductive Entry where
  | text (value : String)
  | count (value : Nat)
  | flag (value : Bool)
  deriving DecidableEq, Repr

/-- A table with its header. -/
structure Section where
  name : String
  entries : List (String × Entry)
  deriving DecidableEq, Repr

/-- Whether a number fits 64 bits with sign. -/
def Entry.fits : Entry → Bool
  | .count n => n < integerBound
  | _ => true

/-- The written form of an entry. -/
def Entry.chars : Entry → List Char
  | .text s => Quoted.write s.toList
  | .count n => Decimal.chars n
  | .flag b => if b then "true".toList else "false".toList

/-- The line of a pair. -/
def pairChars (pair : String × Entry) : List Char :=
  pair.1.toList ++ " = ".toList ++ pair.2.chars ++ ['\n']

/-- The lines of a section. -/
def Section.chars (s : Section) : List Char :=
  '[' :: s.name.toList ++ [']', '\n'] ++ s.entries.flatMap pairChars

/-- The written form of sections, if all of their numbers fit. -/
def write? (sections : List Section) : Option String :=
  if sections.all fun s => s.entries.all fun e => e.2.fits then
    some (String.ofList (List.intercalate ['\n'] (sections.map Section.chars)))
  else none

end HashCalendar.Toml
