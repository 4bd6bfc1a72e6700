/-
**The shortest decimal that reads back.**

A positive binary fraction `m · 2 ^ q` stands for the interval of all reals that round to it.  The
shortest decimal is sought grid by grid: for one digit, two digits and so on, the two neighbours of
the value on the grid of decimals with that many digits are tried, and the first grid with a hit
wins.  Of two hits the nearer one is taken, and in an exact tie the even one.

Main definitions:

* `HashCalendar.Shortest.Binary` — a binary fraction with the interval that rounds to it;
* `HashCalendar.Shortest.Binary.decimal` — its shortest decimal, as digits and an exponent;
* `HashCalendar.Shortest.ofFloat` — the binary fraction of a floating-point number.
-/

import HashCalendar.Number.Decimal

set_option relaxedAutoImplicit false
set_option autoImplicit false

namespace HashCalendar.Shortest

/-- A fraction of natural numbers. -/
structure Ratio where
  num : Nat
  den : Nat

namespace Ratio

/-- The number `n · 2 ^ e`. -/
def scaled (n : Nat) (e : Int) : Ratio := ⟨n * Nat.pow 2 e.toNat, Nat.pow 2 (-e).toNat⟩

/-- The number `n · 10 ^ e`. -/
def decimal (n : Nat) (e : Int) : Ratio := ⟨n * Nat.pow 10 e.toNat, Nat.pow 10 (-e).toNat⟩

/-- Whether one fraction is below another. -/
def lt (a b : Ratio) : Bool := a.num * b.den < b.num * a.den

/-- Whether one fraction is at most another. -/
def le (a b : Ratio) : Bool := a.num * b.den ≤ b.num * a.den

/-- The sum of two fractions. -/
def add (a b : Ratio) : Ratio := ⟨a.num * b.den + b.num * a.den, a.den * b.den⟩

end Ratio

/-- The binary fraction `mantissa · 2 ^ exponent`; `narrow` tells that the next fraction below is
only half as far away as the next one above. -/
structure Binary where
  mantissa : Nat
  exponent : Int
  narrow : Bool

namespace Binary

/-- The value itself. -/
def ratio (b : Binary) : Ratio := .scaled b.mantissa b.exponent

/-- Whether a number rounds to the value: it lies between the midpoints to the neighbours, and on a
midpoint only if the mantissa is even. -/
def contains (b : Binary) (r : Ratio) : Bool :=
  let low := Ratio.scaled (4 * b.mantissa - if b.narrow then 1 else 2) (b.exponent - 2)
  let high := Ratio.scaled (4 * b.mantissa + 2) (b.exponent - 2)
  if b.mantissa % 2 = 0 then low.le r && r.le high else low.lt r && r.lt high

/-- The exponent of the leading decimal digit, for a value above zero. -/
def leading (b : Binary) : Int :=
  let r := b.ratio
  if r.den ≤ r.num then ((Decimal.digits (r.num / r.den)).length : Int) - 1
  else
    match (List.range 400).find? fun j => r.den ≤ r.num * Nat.pow 10 j with
    | some j => -(j : Int)
    | none => -400

/-- The number of units of size `10 ^ e` in the value, rounded down. -/
def units (b : Binary) (e : Int) : Nat :=
  let r := b.ratio
  r.num * Nat.pow 10 (-e).toNat / (r.den * Nat.pow 10 e.toNat)

/-- The decimal with the given number of digits that reads back, if there is one: a whole number of
units and the exponent of the unit. -/
def onGrid (b : Binary) (count : Nat) : Option (Nat × Int) :=
  let e := b.leading - count + 1
  let lower := b.units e
  let below := b.contains (.decimal lower e)
  let above := b.contains (.decimal (lower + 1) e)
  let twice := Ratio.add b.ratio b.ratio
  let sum := Ratio.decimal (2 * lower + 1) e
  match below, above with
  | false, false => none
  | true, false => some (lower, e)
  | false, true => some (lower + 1, e)
  | true, true =>
    if twice.lt sum then some (lower, e)
    else if sum.lt twice then some (lower + 1, e)
    else some (if lower % 2 = 0 then lower else lower + 1, e)

/-- Digits without trailing zeros. -/
def trimZeros (ds : List Nat) : List Nat := (ds.reverse.dropWhile (· = 0)).reverse

/-- The digits of the shortest decimal that reads back, without trailing zeros, and the exponent of
the first digit. -/
def decimal (b : Binary) : List Nat × Int :=
  let (count, e) := ((List.range 17).findSome? fun k => b.onGrid (k + 1)).getD
    (b.units (b.leading - 16), b.leading - 16)
  let ds := Decimal.digits count
  (trimZeros ds, e + ds.length - 1)

end Binary

/-- The binary fraction of a finite floating-point number other than zero, without its sign. -/
def ofFloat (f : Float) : Binary :=
  let fraction := (f.toBits &&& 0xfffffffffffff).toNat
  let biased := ((f.toBits >>> 52) &&& 0x7ff).toNat
  if biased = 0 then ⟨fraction, -1074, false⟩
  else
    ⟨0x10000000000000 + fraction, (biased : Int) - 1075, fraction == 0 && decide (1 < biased)⟩

/-- Whether the sign bit of a floating-point number is set. -/
def isNegative (f : Float) : Bool := f.toBits >>> 63 = 1

end HashCalendar.Shortest
