import ReservoirDeck.Text.Printable

/-!
Single characters as messages show them: between apostrophes, and by code point if they cannot be
seen.
-/

namespace ReservoirDeck

/-- What stands between the apostrophes. -/
def escapeChar (c : Char) : List Char :=
  if c = '\x00' then ['\\', '0']
  else if c = '\t' then ['\\', 't']
  else if c = '\n' then ['\\', 'n']
  else if c = '\x0d' then ['\\', 'r']
  else if c = '\\' ∨ c = '\'' then ['\\', c]
  else if isPrintable c then [c]
  else ['\\', 'u', '\x7b'] ++ Nat.toDigits 16 c.toNat ++ ['\x7d']

def charLiteral (c : Char) : String :=
  String.ofList ('\'' :: escapeChar c ++ ['\''])

/-- The character whose code point is the byte. -/
def charOfByte (b : UInt8) : Char :=
  Char.ofNat b.toNat

end ReservoirDeck
