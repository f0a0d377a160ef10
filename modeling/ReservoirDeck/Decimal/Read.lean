import ReservoirDeck.Decimal.Text

/-!
Reading numbers: a sign, digits around an optional point, and an optional exponent marked by `e`
or `d`. The value is rounded once, to the nearest binary64 number.
-/

namespace ReservoirDeck

/-- Splits a sign off; true if it is a minus. -/
def splitSign : List Char → Bool × List Char
  | '-' :: rest => (true, rest)
  | '+' :: rest => (false, rest)
  | cs => (false, cs)

def digitsValue (cs : List Char) : Nat :=
  cs.foldl (fun n c => 10 * n + (c.toNat - '0'.toNat)) 0

def naturalOfChars? (cs : List Char) : Option Nat :=
  if cs ≠ [] ∧ cs.all Char.isDigit then some (digitsValue cs) else none

def integerOfChars? (cs : List Char) : Option Int :=
  let (negative, digits) := splitSign cs
  (naturalOfChars? digits).map fun n => if negative then -n else n

namespace Decimal

/-- The exponent after the digits of a number; zero if nothing is left. -/
def exponentOfChars? : List Char → Option Int
  | [] => some 0
  | mark :: cs => if mark ∈ ['e', 'E', 'd', 'D'] then integerOfChars? cs else none

/-- An unsigned number, without the sign in front. -/
def ofChars? (cs : List Char) : Option Decimal := do
  let whole := cs.takeWhile Char.isDigit
  let rest := cs.dropWhile Char.isDigit
  let (fraction, tail) :=
    match rest with
    | '.' :: after => (after.takeWhile Char.isDigit, after.dropWhile Char.isDigit)
    | _ => ([], rest)
  guard (whole ++ fraction ≠ [])
  let exponent ← exponentOfChars? tail
  return ⟨digitsValue (whole ++ fraction), exponent - fraction.length⟩

/-- The nearest binary64 number. Magnitudes far outside the range are not computed. -/
def toFloat (d : Decimal) : Float :=
  let leading := d.leadingExponent
  if d.digits = 0 ∨ leading < -400 then 0
  else if 400 < leading then Float.ofBits 0x7FF0000000000000
  else if d.exponent < 0 then Float.ofScientific d.digits true (-d.exponent).toNat
  else Float.ofScientific d.digits false d.exponent.toNat

end Decimal

/-- The real that a deck text stands for, if it is one. -/
def realOfText? (s : String) : Option Float :=
  let (negative, digits) := splitSign s.toList
  (Decimal.ofChars? digits).map fun d => if negative then -d.toFloat else d.toFloat

/-- The integer that a deck text stands for, if it is one in range. -/
def integerOfText? (s : String) : Option Int32 :=
  (integerOfChars? s.toList).bind fun n =>
    if Int32.minValue.toInt ≤ n ∧ n ≤ Int32.maxValue.toInt then some (Int32.ofInt n) else none

end ReservoirDeck
