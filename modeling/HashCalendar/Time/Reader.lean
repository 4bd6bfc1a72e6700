/-
**Reading timestamps.**

Two forms of text are read.  The strict one is the form on the wire: fields of fixed width, a date
and a time joined by the letter `T` or a blank, an optional fraction, and an offset from universal
time.  The lenient one, used inside documents, also takes shorter fields, years with a sign, blanks
around the marks, and the name of universal time in place of an offset.  Either way only the first
nine digits of a fraction count, and second 60 is a leap second.

Main definitions:

* `HashCalendar.Timestamp.ofFields?` — a timestamp from the fields of its text;
* `HashCalendar.Timestamp.ofStrictChars?` — the strict form;
* `HashCalendar.Timestamp.ofLenient?` — the lenient form.
-/

import HashCalendar.Time.Timestamp
import HashCalendar.Text.Blank

set_option relaxedAutoImplicit false
set_option autoImplicit false

namespace HashCalendar.Timestamp

/-! ### Parts of a text -/

/-- The digits at the head of a text, at most `limit` of them, and what follows. -/
def takeDigits : Nat → List Char → List Nat × List Char
  | limit + 1, c :: rest =>
    match Decimal.ofChar? c with
    | some d => let (ds, after) := takeDigits limit rest; (d :: ds, after)
    | none => ([], c :: rest)
  | _, cs => ([], cs)

/-- A number of exactly `width` digits. -/
def fixed? (width : Nat) (cs : List Char) : Option (Nat × List Char) :=
  match takeDigits width cs with
  | (ds, after) => if ds.length = width then some (Decimal.value ds, after) else none

/-- A number of one to `limit` digits. -/
def upTo? (limit : Nat) (cs : List Char) : Option (Nat × List Char) :=
  match takeDigits limit cs with
  | ([], _) => none
  | (ds, after) => some (Decimal.value ds, after)

/-- A text that begins with a given character, without it. -/
def expect? (c : Char) : List Char → Option (List Char)
  | d :: rest => if d = c then some rest else none
  | [] => none

/-- The letter or blank between date and time. -/
def joint? : List Char → Option (List Char)
  | c :: rest => if c = 'T' || c = 't' || c = ' ' then some rest else none
  | [] => none

/-- The fraction of a second in nanoseconds: a point and digits, of which nine count. -/
def fraction? : List Char → Option (Nat × List Char)
  | '.' :: rest =>
    match takeDigits 9 rest with
    | ([], _) => none
    | (ds, after) =>
      some (Decimal.value ds * Nat.pow 10 (9 - ds.length),
        after.dropWhile fun c => (Decimal.ofChar? c).isSome)
  | cs => some (0, cs)

/-- The sign of an offset: whether it is a minus. -/
def offsetSign? : List Char → Option (Bool × List Char)
  | '+' :: rest => some (false, rest)
  | '-' :: rest => some (true, rest)
  | '\u2212' :: rest => some (true, rest)
  | _ => none

/-- An offset from universal time in minutes; `between` passes over what may stand between its hours
and its minutes. -/
def offset? (between : List Char → Option (List Char)) : List Char → Option (Int × List Char)
  | 'Z' :: rest => some (0, rest)
  | 'z' :: rest => some (0, rest)
  | cs => do
    let (negative, cs) ← offsetSign? cs
    let (hours, cs) ← fixed? 2 cs
    let cs ← between cs
    let (minutes, cs) ← fixed? 2 cs
    if 24 ≤ hours || 60 ≤ minutes then none
    let total : Int := 60 * hours + minutes
    some (if negative then -total else total, cs)

/-! ### Whole texts -/

/-- The timestamp with the given fields, where second 60 is a leap second and the local time is
ahead of universal time by `offset` minutes. -/
def ofFields? (year : Int) (month day hour minute second nanos : Nat) (offset : Int) :
    Option Timestamp := do
  let date ← Date.of? year month day
  let t ←
    if second = 60 then of? date hour minute 59 (1000000000 + nanos)
    else of? date hour minute second nanos
  t.minus? offset

/-- The timestamp that a text in the strict form denotes. -/
def ofStrictChars? (cs : List Char) : Option Timestamp := do
  let (year, cs) ← fixed? 4 cs
  let (month, cs) ← fixed? 2 (← expect? '-' cs)
  let (day, cs) ← fixed? 2 (← expect? '-' cs)
  let (hour, cs) ← fixed? 2 (← joint? cs)
  let (minute, cs) ← fixed? 2 (← expect? ':' cs)
  let (second, cs) ← fixed? 2 (← expect? ':' cs)
  let (nanos, cs) ← fraction? cs
  let (offset, cs) ← offset? (expect? ':') cs
  if cs ≠ [] then none
  ofFields? year month day hour minute second nanos offset

/-- A year: up to four digits, or a sign and any number of digits. -/
def lenientYear? (cs : List Char) : Option (Int × List Char) :=
  match Text.skipBlanks cs with
  | '-' :: rest => (upTo? rest.length rest).map fun r => (-(r.1 : Int), r.2)
  | '+' :: rest => (upTo? rest.length rest).map fun r => ((r.1 : Int), r.2)
  | rest => (upTo? 4 rest).map fun r => ((r.1 : Int), r.2)

/-- A field of one or two digits after blanks. -/
def lenientField? (cs : List Char) : Option (Nat × List Char) := upTo? 2 (Text.skipBlanks cs)

/-- A mark after blanks. -/
def lenientMark? (c : Char) (cs : List Char) : Option (List Char) := expect? c (Text.skipBlanks cs)

/-- An offset, or the name of universal time. -/
def lenientOffset? (cs : List Char) : Option (Int × List Char) :=
  if (cs.take 3).map Char.toUpper = ['U', 'T', 'C'] then some (0, cs.drop 3)
  else offset? (fun cs => some (cs.dropWhile fun c => c = ':' || Text.isBlank c)) cs

/-- The timestamp that a text in the lenient form denotes. -/
def ofLenient? (text : String) : Option Timestamp := do
  let (year, cs) ← lenientYear? text.toList
  let (month, cs) ← lenientField? (← lenientMark? '-' cs)
  let (day, cs) ← lenientField? (← lenientMark? '-' cs)
  let (hour, cs) ← lenientField? (← joint? cs)
  let (minute, cs) ← lenientField? (← lenientMark? ':' cs)
  let (second, cs) ← lenientField? (← lenientMark? ':' cs)
  let (nanos, cs) ← fraction? cs
  let (offset, cs) ← lenientOffset? (Text.skipBlanks cs)
  if Text.skipBlanks cs ≠ [] then none
  ofFields? year month day hour minute second nanos offset

end HashCalendar.Timestamp
