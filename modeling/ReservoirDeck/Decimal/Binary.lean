/-!
A binary64 number taken apart: its sign, and a natural number times a power of two.
-/

namespace ReservoirDeck

inductive Binary
  | nan
  | infinite (negative : Bool)
  /-- The number `mantissa * 2 ^ exponent`, negated if `negative`. -/
  | finite (negative : Bool) (mantissa : Nat) (exponent : Int)
  deriving Repr, DecidableEq

namespace Binary

def minExponent : Int := -1074

/-- Smallest mantissa above the smallest exponent. -/
def minNormal : Nat := Nat.pow 2 52

def ofFloat (x : Float) : Binary :=
  let bits := x.toBits.toNat
  let negative := bits / Nat.pow 2 63 == 1
  let biased : Nat := bits / Nat.pow 2 52 % Nat.pow 2 11
  let fraction := bits % Nat.pow 2 52
  if biased = Nat.pow 2 11 - 1 then
    if fraction = 0 then .infinite negative else .nan
  else if biased = 0 then .finite negative fraction minExponent
  else .finite negative (minNormal + fraction) (minExponent + ((biased : Int) - 1))

end Binary

/-- A real read as a whole number: toward zero, kept in range, and zero for a NaN. -/
def wholeNumber (x : Float) : Int32 :=
  match Binary.ofFloat x with
  | .nan => 0
  | .infinite negative => if negative then Int32.minValue else Int32.maxValue
  | .finite negative mantissa exponent =>
    let whole : Nat := mantissa * Nat.pow 2 exponent.toNat / Nat.pow 2 (-exponent).toNat
    Int32.ofIntClamp (if negative then -whole else whole)

end ReservoirDeck
