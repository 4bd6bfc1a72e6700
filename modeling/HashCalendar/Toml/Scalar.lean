/-
**Numbers, times and truth values in TOML files.**

A value without quotes is a word: a run of letters, digits and a few signs.  Whole numbers are
written in decimal digits, or in hexadecimal, octal or binary digits behind a mark, with single
underscores between digits; they have to fit 64 bits with sign.  A date may be followed by a blank
and a time of day, so that two words make one value.

Main definitions:

* `HashCalendar.Toml.integer?` — the whole number that a word denotes;
* `HashCalendar.Toml.isFloat`, `HashCalendar.Toml.isTime` — the other kinds of word;
* `HashCalendar.Toml.scalar?` — a value without quotes, and what follows.
-/

import HashCalendar.Toml.Quoted
import HashCalendar.Toml.Value
import HashCalendar.Time.Reader

set_option relaxedAutoImplicit false
set_option autoImplicit false

namespace HashCalendar.Toml

/-! ### Digits -/

/-- The value of a digit below a base. -/
def digitBelow? (base : Nat) (c : Char) : Option Nat := (Quoted.hexValue? c).filter (· < base)

/-- Digits below a base, with single underscores between them, and what follows. -/
def spanDigits (base : Nat) : List Char → List Nat × List Char
  | c :: '_' :: d :: rest =>
    match digitBelow? base c, digitBelow? base d with
    | some v, some _ =>
      let (vs, after) := spanDigits base (d :: rest)
      (v :: vs, after)
    | some v, none => ([v], '_' :: d :: rest)
    | none, _ => ([], c :: '_' :: d :: rest)
  | c :: rest =>
    match digitBelow? base c with
    | some v =>
      let (vs, after) := spanDigits base rest
      (v :: vs, after)
    | none => ([], c :: rest)
  | [] => ([], [])

/-- The sign at the head of a word: whether it is a minus, and what follows. -/
def spanSign : List Char → Bool × List Char
  | '-' :: rest => (true, rest)
  | '+' :: rest => (false, rest)
  | cs => (false, cs)

/-- Decimal digits without superfluous zeros, and what follows. -/
def decimal? (cs : List Char) : Option (List Nat × List Char) :=
  match spanDigits 10 cs with
  | ([], _) => none
  | ([0], after) => some ([0], after)
  | (0 :: _, _) => none
  | (ds, after) => some (ds, after)

/-! ### Whole numbers -/

/-- A whole number, if it fits 64 bits with sign. -/
def bounded? (n : Int) : Option Int :=
  if -(integerBound : Int) ≤ n && n < integerBound then some n else none

/-- The number that digits of a base denote, if they make up a whole word. -/
def based? (base : Nat) (cs : List Char) : Option Int :=
  match spanDigits base cs with
  | (d :: ds, []) => bounded? ((d :: ds).foldl (fun n d => base * n + d) 0 : Nat)
  | _ => none

/-- The whole number that a word denotes. -/
def integer? : List Char → Option Int
  | '0' :: 'x' :: cs => based? 16 cs
  | '0' :: 'o' :: cs => based? 8 cs
  | '0' :: 'b' :: cs => based? 2 cs
  | cs =>
    let (negative, cs) := spanSign cs
    match decimal? cs with
    | some (ds, []) =>
      bounded? (if negative then -(Decimal.value ds : Int) else Decimal.value ds)
    | _ => none

/-! ### Floating-point numbers -/

/-- The least number that is rounded beyond all finite floating-point numbers. -/
def floatLimit : Nat := Nat.pow 2 1024 - Nat.pow 2 970

/-- Whether digits times a power of ten are below the limit of floating-point numbers. -/
def isFinite (ds : List Nat) (e : Int) : Bool :=
  let n := Decimal.value ds
  let size : Int := (Decimal.digits n).length + e
  if n = 0 || size ≤ 300 then true
  else if 310 < size then false
  else n * Nat.pow 10 e.toNat < floatLimit * Nat.pow 10 (-e).toNat

/-- The digits after a point at the head of a text, if there is a point. -/
def spanFraction? : List Char → Option (List Nat × List Char)
  | '.' :: cs =>
    match spanDigits 10 cs with
    | ([], _) => none
    | r => some r
  | cs => some ([], cs)

/-- The exponent that makes up a whole text; nothing is an exponent of zero. -/
def exponent? : List Char → Option Int
  | [] => some 0
  | c :: cs =>
    if c = 'e' || c = 'E' then
      let (negative, cs) := spanSign cs
      match spanDigits 10 cs with
      | (d :: ds, []) =>
        let n := Decimal.value (d :: ds)
        some (if negative then -(n : Int) else n)
      | _ => none
    else none

/-- Whether a word is a floating-point number.  A positive one must not be beyond all finite
ones. -/
def isFloat (word : List Char) : Bool :=
  let (negative, cs) := spanSign word
  if cs = ['i', 'n', 'f'] || cs = ['n', 'a', 'n'] then true
  else match decimal? cs with
    | none => false
    | some (_, []) => false
    | some (whole, cs) =>
      match spanFraction? cs with
      | none => false
      | some (fraction, cs) =>
        match exponent? cs with
        | none => false
        | some e => negative || isFinite (whole ++ fraction) (e - fraction.length)

/-! ### Times -/

/-- What follows a date at the head of a text. -/
def afterDate? (cs : List Char) : Option (List Char) := do
  let (year, cs) ← Timestamp.fixed? 4 cs
  let (month, cs) ← Timestamp.fixed? 2 (← Timestamp.expect? '-' cs)
  let (day, cs) ← Timestamp.fixed? 2 (← Timestamp.expect? '-' cs)
  if 1 ≤ month && month ≤ 12 && 1 ≤ day && day ≤ daysInMonth year month then some cs else none

/-- What follows a time of day at the head of a text. -/
def afterClock? (cs : List Char) : Option (List Char) := do
  let (hour, cs) ← Timestamp.fixed? 2 cs
  let (minute, cs) ← Timestamp.fixed? 2 (← Timestamp.expect? ':' cs)
  let (second, cs) ← Timestamp.fixed? 2 (← Timestamp.expect? ':' cs)
  let (_, cs) ← Timestamp.fraction? cs
  if hour ≤ 23 && minute ≤ 59 && second ≤ 60 then some cs else none

/-- Whether a text is a time of day on some date, perhaps with its offset from universal time. -/
def isDayClock (cs : List Char) : Bool :=
  match afterClock? cs with
  | none => false
  | some [] => true
  | some ['Z'] => true
  | some ['z'] => true
  | some cs =>
    match spanSign cs, cs.head? with
    | (_, digits), some sign =>
      (sign = '+' || sign = '-') &&
        match Timestamp.fixed? 2 digits with
        | none => false
        | some (hour, cs) =>
          match (Timestamp.expect? ':' cs).bind (Timestamp.fixed? 2) with
          | some (minute, []) => hour ≤ 23 && minute ≤ 59
          | _ => false
    | _, none => true

/-- Whether a word is a date without a time. -/
def isDate (word : List Char) : Bool := afterDate? word = some []

/-- Whether a word is a date, a time of day or both. -/
def isTime (word : List Char) : Bool :=
  match afterDate? word with
  | some [] => true
  | some (c :: clock) => (c = 'T' || c = 't') && isDayClock clock
  | none => afterClock? word = some []

/-! ### Words -/

/-- Whether a character belongs to a word. -/
def isWordChar (c : Char) : Bool :=
  c.isAlphanum || c = '_' || c = '+' || c = '-' || c = '.' || c = ':'

/-- The value of a word. -/
def word? (word : List Char) : Option Toml :=
  if word = "true".toList then some (.boolean true)
  else if word = "false".toList then some (.boolean false)
  else match integer? word with
    | some n => some (.integer n)
    | none =>
      if isTime word then some (.time word)
      else if isFloat word then some (.float word)
      else none

/-- A value without quotes, and what follows. -/
def scalar? (cs : List Char) : Option (Toml × List Char) :=
  let word := cs.takeWhile isWordChar
  match cs.dropWhile isWordChar with
  | ' ' :: rest =>
    let clock := rest.takeWhile isWordChar
    if isDate word && isDayClock clock then
      some (.time (word ++ ' ' :: clock), rest.dropWhile isWordChar)
    else (word? word).map fun v => (v, ' ' :: rest)
  | rest => (word? word).map fun v => (v, rest)

end HashCalendar.Toml
