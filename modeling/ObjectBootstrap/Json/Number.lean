import ObjectBootstrap.Text.Decimal

/-!
# Numbers of JSON text

What becomes of a number of JSON text that is handed on. A number that is written without a point
and without an exponent, and that sixty-four bits have room for, is an integer and stays as it is
written. Every other number becomes a double, minus zero included; one that no double has room for
is refused.

A double is found in few steps, and so it need not be the nearest one. Digits are gathered in a
significand as long as sixty-four bits hold it. Digits left over in front of the point still count
as places; those left over behind it do not count at all. The significand is rounded to a double,
and that is multiplied or divided by a rounded power of ten, which rounds again.

A double is written with all the digits it has. This is longer than it has to be, and in return
there is nothing to choose: the text stands for the double itself, and so it is read back as that
double.

## Main definitions

* `Numeral`: the parts of a number as it is written.
* `Numeral.toDouble?`: the double that a number becomes.
* `exactDecimal`: all the digits of a double.
* `numberText?`: how a number is written when it is handed on.

## Theorems

* `Numeral.gather_lt`: sixty-four bits hold a gathered significand.
-/

namespace ObjectBootstrap

/-- The parts of a number as it is written. -/
structure Numeral where
  negative : Bool
  /-- The digits in front of the point. -/
  whole : List Char
  /-- The digits behind the point; there are none when no point is written. -/
  fraction : List Char
  /-- No exponent when none is written. -/
  exponent : Option Int

/-- The first number that sixty-four bits have no room for: two to the power of sixty-four. -/
def unsignedReach : Nat := 18446744073709551616

/-- The largest exponent of a power of ten that a double has room for. -/
def largestPower : Nat := 308

/-- A power of ten, rounded to a double. -/
def powerOfTen (places : Nat) : Float := Float.ofScientific 1 false places

/-- Divides by a power of ten, by `largestPower` places at a time. -/
def shrink (x : Float) (places : Nat) : Float :=
  if places ≤ largestPower then x / powerOfTen places
  else if x == 0 then x
  else shrink (x / powerOfTen largestPower) (places - largestPower)
termination_by places
decreasing_by simp only [largestPower] at *; omega

/-- Multiplies by a power of ten, which may be negative; fails when no double has room for the
    product. -/
def scale? (x : Float) : Int → Option Float
  | .ofNat places =>
    if places ≤ largestPower then
      let product := x * powerOfTen places
      if product.isInf then none else some product
    else if x == 0 then some x
    else none
  | .negSucc n => some (shrink x (n + 1))

namespace Numeral

/-- The exponent that is written with an optional sign and digits. -/
def exponentOf (cs : List Char) : Int :=
  let (negative, digits) := splitSign cs
  if negative then -(decimalValue digits : Int) else decimalValue digits

/-- Whether a character opens an exponent. -/
def opensExponent (c : Char) : Bool := c == 'e' || c == 'E'

/-- Takes a number of JSON text apart. -/
def ofText (text : String) : Numeral :=
  let (negative, cs) := splitSign text.toList
  let digits := cs.takeWhile fun c => !opensExponent c
  { negative
    whole := digits.takeWhile (· != '.')
    fraction := (digits.dropWhile (· != '.')).drop 1
    exponent :=
      match cs.dropWhile fun c => !opensExponent c with
      | [] => none
      | _ :: written => some (exponentOf written) }

/-- Adds digits to a significand as long as sixty-four bits hold it, and leaves the others over. -/
def gather (significand : Nat) : List Char → Nat × List Char
  | [] => (significand, [])
  | c :: rest =>
    let longer := decimalValue [c] + significand * 10
    if longer < unsignedReach then gather longer rest else (significand, c :: rest)

/-- Sixty-four bits hold a gathered significand if they held the one it started from. -/
theorem gather_lt {significand : Nat} (h : significand < unsignedReach) (digits : List Char) :
    (gather significand digits).1 < unsignedReach := by
  fun_induction gather significand digits with
  | case1 => exact h
  | case2 _ _ _ _ hlonger ih => exact ih hlonger
  | case3 => exact h

/-- Whether a number is written as an integer and fits into sixty-four bits. Minus zero is none. -/
def isInteger (n : Numeral) : Bool :=
  let size := decimalValue n.whole
  n.fraction.isEmpty && n.exponent.isNone &&
    if n.negative then decide (0 < size ∧ size ≤ signedReach) else decide (size < unsignedReach)

/-- The double that a number becomes; none when it is too large. -/
def toDouble? (n : Numeral) : Option Float :=
  let (wholePart, places) := gather 0 n.whole
  let (significand, unused) := gather wholePart n.fraction
  let exponent : Int := places.length - (n.fraction.length - unused.length) + n.exponent.getD 0
  (scale? (Float.ofNat significand) exponent).map fun size => if n.negative then -size else size

end Numeral

/-- All the digits of a finite double, with at least one of them on either side of the point. -/
def exactDecimal (x : Float) : String :=
  let bits := x.toBits.toNat
  let power := bits / 4503599627370496 % 2048
  let part := bits % 4503599627370496
  -- The size of the double is `significand` times two to the power of `power` less 1075.
  let (significand, power) := if power = 0 then (part, 1) else (4503599627370496 + part, power)
  let sign := if signedReach ≤ bits then "-" else ""
  if 1075 ≤ power then
    sign ++ toString (significand * Nat.pow 2 (power - 1075)) ++ ".0"
  else
    -- Dividing by a power of two is multiplying by one of five and moving the point.
    let places := 1075 - power
    let digits := (toString (significand * Nat.pow 5 places)).toList.leftpad (places + 1) '0'
    let whole := digits.take (digits.length - places)
    let fraction := ((digits.drop (digits.length - places)).reverse.dropWhile (· == '0')).reverse
    sign ++ String.ofList (whole ++ '.' :: if fraction.isEmpty then ['0'] else fraction)

/-- How a number is written when it is handed on; fails for one that no double has room for. -/
def numberText? (text : String) : Option String :=
  let n := Numeral.ofText text
  if n.isInteger then some text else n.toDouble?.map exactDecimal

end ObjectBootstrap
