import ReservoirDeck.Decimal.Binary

/-!
The shortest decimal that reads back as a given binary number. A decimal reads back as the number
if it lies in the interval of reals that round to the number. Grids of decimals are tried from
coarse to fine, and the first that has a point in the interval gives the digits.
-/

namespace ReservoirDeck

/-- The number `digits * 10 ^ exponent`. -/
structure Decimal where
  digits : Nat
  exponent : Int
  deriving Repr, DecidableEq

/-- A number with the ends of the interval that rounds to it, over one denominator. -/
structure RoundingInterval where
  low : Nat
  value : Nat
  high : Nat
  denominator : Nat
  /-- The ends belong to the interval. -/
  closed : Bool
  deriving Repr, DecidableEq

namespace RoundingInterval

/-- Half the distance to each neighbour of `mantissa * 2 ^ exponent`. The lower neighbour of a
power of two is nearer. -/
def ofBinary (mantissa : Nat) (exponent : Int) : RoundingInterval :=
  let below := if mantissa = Binary.minNormal ∧ Binary.minExponent < exponent then 1 else 2
  let scale := Nat.pow 2 exponent.toNat
  { low := (4 * mantissa - below) * scale
    value := 4 * mantissa * scale
    high := (4 * mantissa + 2) * scale
    denominator := 4 * Nat.pow 2 (-exponent).toNat
    closed := mantissa % 2 == 0 }

/-- The interval in units of `10 ^ exponent`. -/
def inUnits (i : RoundingInterval) (exponent : Int) : RoundingInterval :=
  let scale := Nat.pow 10 (-exponent).toNat
  { i with
    low := i.low * scale
    value := i.value * scale
    high := i.high * scale
    denominator := i.denominator * Nat.pow 10 exponent.toNat }

def contains (i : RoundingInterval) (n : Nat) : Bool :=
  let x := n * i.denominator
  if i.closed then i.low ≤ x && x ≤ i.high else i.low < x && x < i.high

/-- The whole number inside that is nearest to the value; of two as near, the larger. -/
def nearest? (i : RoundingInterval) : Option Nat :=
  let n := i.value / i.denominator
  let nearer := 2 * (i.value - n * i.denominator) < i.denominator
  match i.contains n, i.contains (n + 1) with
  | true, true => some (if nearer then n else n + 1)
  | true, false => some n
  | false, true => some (n + 1)
  | false, false => none

/-- Tries `count` grids, each ten times finer than the one before. -/
def search? (i : RoundingInterval) : (count : Nat) → (exponent : Int) → Option Decimal
  | 0, _ => none
  | count + 1, exponent =>
    match (i.inUnits exponent).nearest? with
    | some digits => some ⟨digits, exponent⟩
    | none => search? i count (exponent - 1)

end RoundingInterval

namespace Decimal

/-- An exponent whose grid is too coarse for `mantissa * 2 ^ exponent`. -/
def coarsest (mantissa : Nat) (exponent : Int) : Int :=
  (mantissa.log2 + 1 + exponent) * 30103 / 100000 + 1

/-- All digits of a binary number. -/
def exact (mantissa : Nat) (exponent : Int) : Decimal :=
  ⟨mantissa * Nat.pow 2 exponent.toNat * Nat.pow 5 (-exponent).toNat, min exponent 0⟩

/-- The fewest digits that read back as `mantissa * 2 ^ exponent`, which is not zero. Seventeen
always do, so the search ends. -/
def shortest (mantissa : Nat) (exponent : Int) : Decimal :=
  ((RoundingInterval.ofBinary mantissa exponent).search? 24 (coarsest mantissa exponent)).getD
    (exact mantissa exponent)

end Decimal

end ReservoirDeck
