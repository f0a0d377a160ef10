import ReservoirDeck.Text.Cursor

/-!
What comes next, judged by one byte. Keywords without a record count read rows until the name of
the next keyword shows up.
-/

namespace ReservoirDeck

inductive Lookahead
  /-- A digit, a sign, a point or a star: numbers follow. -/
  | data
  | quoted
  /-- A letter: a keyword name follows. -/
  | keyword
  | terminator
  | endOfInput
  | other (byte : UInt8)
  deriving Repr, DecidableEq

namespace Lookahead

def ofByte (b : UInt8) : Lookahead :=
  if Byte.isDigit b || b == Byte.plus || b == Byte.dash || b == Byte.point || b == Byte.star then
    .data
  else if b == Byte.quote then .quoted
  else if b == Byte.slash then .terminator
  else if Byte.isLetter b then .keyword
  else .other b

/-- Rows end at the next keyword and at the end of the text. -/
def endsRows : Lookahead → Bool
  | .keyword | .endOfInput => true
  | _ => false

end Lookahead

/-- What follows the blanks and comment lines in front. -/
def Cursor.lookahead (c : Cursor) : Lookahead :=
  match c.skipTrivia.rest with
  | [] => .endOfInput
  | b :: _ => .ofByte b

end ReservoirDeck
