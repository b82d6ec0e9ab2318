/-!
# Decimal numbers

Reading integers written with the ten ASCII digits. A sign may stand in front of the digits, and at
least one digit has to stand behind it; leading zeros do not matter.

## Main definitions

* `decimalValue`: the number that digits stand for.
* `signedReach`: how far sixty-four bits reach.
* `signedDecimal?`: reads an integer that fits into sixty-four bits.
-/

namespace ObjectBootstrap

/-- The number that a list of decimal digits stands for. -/
def decimalValue (digits : List Char) : Nat :=
  digits.foldl (fun (n : Nat) c => n * 10 + (c.toNat - 48)) 0

/-- Splits a text into its sign and the rest; true stands for a minus. -/
def splitSign : List Char → Bool × List Char
  | '-' :: rest => (true, rest)
  | '+' :: rest => (false, rest)
  | cs => (false, cs)

/-- The number of magnitudes on either side of zero that a signed sixty-four-bit integer has room
for: two to the power of sixty-three. -/
def signedReach : Nat := 9223372036854775808

/-- Reads an integer that is at least minus `signedReach` and less than `signedReach`. -/
def signedDecimal? (text : String) : Option Int :=
  let (negative, digits) := splitSign text.toList
  if digits.isEmpty || !digits.all Char.isDigit then none
  else
    let size := decimalValue digits
    if negative then if size ≤ signedReach then some (-(size : Int)) else none
    else if size < signedReach then some (size : Int) else none

end ObjectBootstrap
