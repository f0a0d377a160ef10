import ReservoirDeck.Decimal.Shortest

/-!
Texts of numbers. Decks write very large and very small magnitudes with an exponent; messages
never do.
-/

namespace ReservoirDeck

namespace Decimal

def digitChars (d : Decimal) : List Char :=
  Nat.toDigits 10 d.digits

/-- Digits with a point where needed, and no exponent. -/
def positional (d : Decimal) : List Char :=
  let places := (-d.exponent).toNat
  let whole := d.digitChars ++ List.replicate d.exponent.toNat '0'
  if places = 0 then whole
  else if places < whole.length then
    whole.take (whole.length - places) ++ '.' :: whole.drop (whole.length - places)
  else
    '0' :: '.' :: List.replicate (places - whole.length) '0' ++ whole

def leadingExponent (d : Decimal) : Int :=
  d.exponent + d.digitChars.length - 1

/-- One digit before the point, and an exponent. -/
def exponential (d : Decimal) : List Char :=
  let fraction := match d.digitChars.tail with
    | [] => []
    | rest => '.' :: rest
  d.digitChars.take 1 ++ fraction ++ 'e' :: (toString d.leadingExponent).toList

/-- Without an exponent from `10 ^ -4` up to below `10 ^ 15`. -/
def deckChars (d : Decimal) : List Char :=
  if -4 ≤ d.leadingExponent ∧ d.leadingExponent < 15 then d.positional else d.exponential

end Decimal

namespace Binary

/-- The text of a number, given that of a positive decimal. -/
def text (positive : Decimal → List Char) : Binary → String
  | .nan => "NaN"
  | .infinite negative => if negative then "-inf" else "inf"
  | .finite negative mantissa exponent =>
    let magnitude := if mantissa = 0 then ['0'] else positive (Decimal.shortest mantissa exponent)
    String.ofList (if negative then '-' :: magnitude else magnitude)

end Binary

/-- The shortest text that a deck reads back as the number. -/
def deckText (x : Float) : String :=
  (Binary.ofFloat x).text Decimal.deckChars

/-- The shortest text without an exponent. -/
def plainText (x : Float) : String :=
  (Binary.ofFloat x).text Decimal.positional

end ReservoirDeck
