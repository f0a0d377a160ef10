import ReservoirDeck.Text.Bytes

/-!
A place in the text of a deck. A cursor only ever moves by `forward`, so the text stays, the
position grows, and what is read next is a function of the bytes still ahead.
-/

namespace ReservoirDeck

/-- One-based line and column, in bytes. -/
structure Location where
  line : Nat
  column : Nat
  deriving Repr, DecidableEq

def Location.describe (l : Location) : String :=
  s!"line {l.line}, column {l.column}"

/-- The text, the offset reached, and the bytes from there on. An offset past the end is a place
with no bytes ahead. -/
structure Cursor where
  text : List UInt8
  pos : Nat
  rest : List UInt8
  rest_eq : rest = text.drop pos

namespace Cursor

def ofBytes (text : List UInt8) : Cursor :=
  ⟨text, 0, text, rfl⟩

/-- The start of a text. What lies past the size limit is not read. -/
def ofString (s : String) : Cursor :=
  ofBytes (Text.held s)

theorem rest_ofString {s : String} (h : Text.Fits s) : (ofString s).rest = Text.bytes s :=
  Text.held_of_fits h

def forward (c : Cursor) (n : Nat) : Cursor :=
  ⟨c.text, c.pos + n, c.rest.drop n, by rw [c.rest_eq, List.drop_drop]⟩

@[simp] theorem text_forward (c : Cursor) (n : Nat) : (c.forward n).text = c.text := rfl

@[simp] theorem pos_forward (c : Cursor) (n : Nat) : (c.forward n).pos = c.pos + n := rfl

@[simp] theorem rest_forward (c : Cursor) (n : Nat) : (c.forward n).rest = c.rest.drop n := rfl

@[simp] theorem forward_zero (c : Cursor) : c.forward 0 = c := rfl

theorem forward_forward (c : Cursor) (m n : Nat) :
    (c.forward m).forward n = c.forward (m + n) := by
  simp [forward, List.drop_drop, Nat.add_assoc]

/-- The byte here; zero at the end. -/
def current (c : Cursor) : UInt8 :=
  c.rest.headD 0

/-- The byte after the one here; zero at the end. -/
def peek (c : Cursor) : UInt8 :=
  c.rest.tail.headD 0

def atEnd (c : Cursor) : Bool :=
  c.rest.isEmpty

def slice (c : Cursor) (start stop : Nat) : String :=
  Text.ofBytes ((c.text.take stop).drop start)

/-- Counts the newlines passed, and the bytes passed since the last of them. -/
def location (c : Cursor) : Location :=
  let passed := c.text.take c.pos
  { line := passed.count Byte.newline + 1
    column := (passed.reverse.takeWhile (· != Byte.newline)).length + 1 }

/-- A comment starts with two dashes. -/
def atComment (c : Cursor) : Bool :=
  c.current == Byte.dash && c.peek == Byte.dash

/-- The bytes of the current line still ahead, without its line break. -/
def line (c : Cursor) : List UInt8 :=
  c.rest.takeWhile (· != Byte.newline)

def lineHasTerminator (c : Cursor) : Bool :=
  c.line.contains Byte.slash

def skipWhile (c : Cursor) (p : UInt8 → Bool) : Cursor :=
  c.forward (c.rest.takeWhile p).length

def skipBlanks (c : Cursor) : Cursor :=
  c.skipWhile Byte.isBlank

def toLineEnd (c : Cursor) : Cursor :=
  c.forward c.line.length

/-- Size of the first line, its line break included. -/
def lineSize : List UInt8 → Nat
  | [] => 0
  | b :: rest => if b == Byte.newline then 1 else lineSize rest + 1

def skipLine (c : Cursor) : Cursor :=
  c.forward (lineSize c.rest)

/-- Size of the blanks and comment lines in front; `inComment` if the first byte is inside a
comment. -/
def triviaSize (inComment : Bool) : List UInt8 → Nat
  | [] => 0
  | b :: rest =>
    if inComment then triviaSize (b != Byte.newline) rest + 1
    else if Byte.isBlank b then triviaSize false rest + 1
    else if b == Byte.dash && rest.head? == some Byte.dash then triviaSize true rest + 1
    else 0

def skipTrivia (c : Cursor) : Cursor :=
  c.forward (triviaSize false c.rest)

/-- The first byte after blanks; zero at the end. Comments are not skipped. -/
def peekSignificant (c : Cursor) : UInt8 :=
  c.skipBlanks.current

def trimReturns (bs : List UInt8) : List UInt8 :=
  (bs.reverse.dropWhile (· == Byte.carriageReturn)).reverse

/-- The rest of the line, without its line break. -/
def readLine (c : Cursor) : String × Cursor :=
  (Text.ofBytes (trimReturns c.line), c.skipLine)

def remaining (c : Cursor) : Nat :=
  c.rest.length

theorem remaining_forward (c : Cursor) (n : Nat) :
    (c.forward n).remaining = c.remaining - n := by
  simp [remaining]

theorem remaining_forward_le (c : Cursor) (n : Nat) :
    (c.forward n).remaining ≤ c.remaining := by
  rw [remaining_forward]
  omega

theorem remaining_forward_lt {c : Cursor} {n : Nat} (more : c.rest ≠ []) (moves : 0 < n) :
    (c.forward n).remaining < c.remaining := by
  have : 0 < c.remaining := List.length_pos_iff.mpr more
  rw [remaining_forward]
  omega

end Cursor

end ReservoirDeck
