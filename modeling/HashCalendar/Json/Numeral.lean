/-
**Numerals of JSON documents.**

A numeral has a sign, digits before the point without a superfluous zero, and may have digits after
the point and an exponent.  It is kept as it is written; what number it denotes depends on the
reader.  A count is a numeral without sign, point and exponent below `2 ^ 64`.  Anything else is a
number in general: whole where it fits 64 bits, and otherwise a floating-point number, computed from
as many leading digits as fit 64 bits and a power of ten.

Main definitions:

* `HashCalendar.Json.Numeral` — a numeral as it is written;
* `HashCalendar.Json.Numeral.bytes`, `HashCalendar.Json.Numeral.ofBytes?` — writing and reading;
* `HashCalendar.Json.Numeral.count?`, `HashCalendar.Json.Numeral.int?` — whole numbers in range;
* `HashCalendar.Json.Number`, `HashCalendar.Json.Numeral.number?` — the number denoted in general;
* `HashCalendar.Json.Number.numeral` — the written form of a number.
-/

import HashCalendar.Number.Shortest

set_option relaxedAutoImplicit false
set_option autoImplicit false

namespace HashCalendar.Json

/-- A numeral as it is written. -/
structure Numeral where
  negative : Bool
  whole : List Nat
  fraction : List Nat
  /-- The sign and the digits of the exponent. -/
  exponent : Option (Bool × List Nat)
  deriving DecidableEq, Repr

namespace Numeral

/-! ### Writing and reading -/

/-- The numeral of a natural number. -/
def ofNat (n : Nat) : Numeral := ⟨false, Decimal.digits n, [], none⟩

/-- The numeral of a whole number. -/
def ofInt (n : Int) : Numeral := ⟨n < 0, Decimal.digits n.natAbs, [], none⟩

/-- A numeral as bytes; an exponent is written with its sign. -/
def bytes (n : Numeral) : Bytes :=
  (if n.negative then [45] else []) ++ n.whole.map Decimal.byte ++
  (if n.fraction = [] then [] else 46 :: n.fraction.map Decimal.byte) ++
  (match n.exponent with
   | none => []
   | some (negative, ds) => 101 :: (if negative then 45 else 43) :: ds.map Decimal.byte)

/-- The digits at the head of a list of bytes, and what follows them. -/
def spanDigits : Bytes → List Nat × Bytes
  | [] => ([], [])
  | b :: rest =>
    match Decimal.ofByte? b with
    | some d => let (ds, after) := spanDigits rest; (d :: ds, after)
    | none => ([], b :: rest)

/-- The sign at the head of a list of bytes: whether it is a minus, and what follows. -/
def spanSign : Bytes → Bool × Bytes
  | 45 :: rest => (true, rest)
  | 43 :: rest => (false, rest)
  | rest => (false, rest)

/-- The exponent that makes up a whole list of bytes; nothing is no exponent. -/
def exponentOf? : Bytes → Option (Option (Bool × List Nat))
  | [] => some none
  | b :: rest =>
    if b = 101 || b = 69 then
      let (negative, rest) := spanSign rest
      match spanDigits rest with
      | (d :: ds, []) => some (some (negative, d :: ds))
      | _ => none
    else none

/-- Reads a numeral that makes up a whole list of bytes. -/
def ofBytes? (bs : Bytes) : Option Numeral := do
  let (negative, bs) := match bs with
    | 45 :: rest => (true, rest)
    | rest => (false, rest)
  let (whole, rest) := spanDigits bs
  if whole = [] || (whole.head? = some 0 && whole ≠ [0]) then none
  match rest with
  | 46 :: rest =>
    let (fraction, rest) := spanDigits rest
    if fraction = [] then none
    some ⟨negative, whole, fraction, ← exponentOf? rest⟩
  | rest => some ⟨negative, whole, [], ← exponentOf? rest⟩

/-! ### Whole numbers -/

/-- The count that a numeral denotes: no sign, no point, no exponent, and 64 bits. -/
def count? (n : Numeral) : Option Nat :=
  if !n.negative && n.fraction = [] && n.exponent = none && Decimal.value n.whole < UInt64.size then
    some (Decimal.value n.whole)
  else none

/-- The whole number that a numeral without point and exponent denotes. -/
def int? (n : Numeral) : Option Int :=
  if n.fraction = [] && n.exponent = none then
    some (if n.negative then -(Decimal.value n.whole : Int) else Decimal.value n.whole)
  else none

end Numeral

/-! ### Numbers in general -/

/-- The number denoted by a numeral: whole where it fits 64 bits, else floating-point. -/
inductive Number where
  | natural (n : Nat)
  /-- The number `-n`, for `n` above zero. -/
  | negative (n : Nat)
  | float (f : Float)

namespace Numeral

/-- Takes up digits while the number they make fits 64 bits; the digits left over follow. -/
def accumulate (significand : Nat) : List Nat → Nat × List Nat
  | [] => (significand, [])
  | d :: ds =>
    if 10 * significand + d < UInt64.size then accumulate (10 * significand + d) ds
    else (significand, d :: ds)

/-- The leading digits that fit 64 bits, and the power of ten that they are multiplied with.
Digits before the point that do not fit raise the power, those after it are dropped. -/
def significand (n : Numeral) : Nat × Int :=
  let (leading, spare) := accumulate 0 n.whole
  let (taken, rest) := accumulate leading n.fraction
  (taken, (spare.length : Int) - (n.fraction.length - rest.length : Nat))

/-- A floating-point number times a power of ten.  Beyond `10 ^ 308` there is no power to multiply
with; division goes in two steps, and further down nothing but zero is left. -/
def scale (f : Float) (e : Int) : Option Float :=
  let power (k : Nat) : Float := Float.ofScientific 1 false k
  if 0 ≤ e then
    if e ≤ 308 then
      let g := f * power e.toNat
      if g.isInf then none else some g
    else if f == 0 then some f else none
  else if -308 ≤ e then some (f / power e.natAbs)
  else if -616 ≤ e then some (f / power 308 / power (e.natAbs - 308))
  else some 0

/-- The floating-point number that a numeral denotes; none beyond the range. -/
def float? (n : Numeral) : Option Float := do
  let (significand, shift) := n.significand
  let exponent : Int := match n.exponent with
    | none => 0
    | some (negative, ds) => if negative then -(Decimal.value ds : Int) else Decimal.value ds
  let f ← scale significand.toUInt64.toFloat (shift + exponent)
  some (if n.negative then -f else f)

/-- The number that a numeral denotes.  Whole numbers are those without point and exponent that fit
64 bits, except a zero with a minus sign. -/
def number? (n : Numeral) : Option Number :=
  let value := Decimal.value n.whole
  if n.fraction = [] && n.exponent = none then
    if !n.negative && value < UInt64.size then some (.natural value)
    else if n.negative && 0 < value && value ≤ UInt64.size / 2 then some (.negative value)
    else n.float?.map .float
  else n.float?.map .float

end Numeral

namespace Number

/-- The digits of a decimal in the form of a numeral: positional where the exponent of the first
digit is between -5 and 15, with at least one digit on either side of the point, and with an
exponent otherwise. -/
def layout (negative : Bool) (ds : List Nat) (e : Int) : Numeral :=
  if e < -5 || 15 < e then
    ⟨negative, ds.take 1, ds.drop 1, some (e < 0, Decimal.digits e.natAbs)⟩
  else if e < 0 then
    ⟨negative, [0], List.replicate (e.natAbs - 1) 0 ++ ds, none⟩
  else
    let width := e.toNat + 1
    let whole := ds.take width ++ List.replicate (width - ds.length) 0
    ⟨negative, whole, if ds.length ≤ width then [0] else ds.drop width, none⟩

/-- The written form of a number; a floating-point number is written by its shortest digits. -/
def numeral : Number → Numeral
  | .natural n => .ofNat n
  | .negative n => ⟨true, Decimal.digits n, [], none⟩
  | .float f =>
    if f == 0 then ⟨Shortest.isNegative f, [0], [0], none⟩
    else
      let (ds, e) := (Shortest.ofFloat f).decimal
      layout (Shortest.isNegative f) ds e

end Number

end HashCalendar.Json
