/-!
Deck text as bytes: the encoding of a text, and the byte classes that the deck format knows.
Everything the format gives a meaning to is ASCII; other bytes only occur inside tokens and lines.
-/

namespace ReservoirDeck

namespace Text

def bytes (s : String) : List UInt8 :=
  s.toByteArray.data.toList

/-- The text that some bytes spell. Bytes that are not UTF-8 spell the empty text. -/
def ofBytes (bs : List UInt8) : String :=
  (String.fromUTF8? ⟨bs.toArray⟩).getD ""

theorem fromUTF8?_toByteArray (s : String) : String.fromUTF8? s.toByteArray = some s := by
  rw [String.fromUTF8?, dif_pos s.isValidUTF8]
  rfl

@[simp] theorem ofBytes_bytes (s : String) : ofBytes (bytes s) = s := by
  have kept : (⟨(bytes s).toArray⟩ : ByteArray) = s.toByteArray := by simp [bytes]
  rw [ofBytes, kept, fromUTF8?_toByteArray, Option.getD_some]

@[simp] theorem bytes_empty : bytes "" = [] := rfl

@[simp] theorem bytes_append (s t : String) : bytes (s ++ t) = bytes s ++ bytes t := by
  simp [bytes]

theorem bytes_injective {s t : String} (h : bytes s = bytes t) : s = t := by
  rw [← ofBytes_bytes s, h, ofBytes_bytes]

/-- Places in a text are 32-bit numbers, so this many bytes of it are read. -/
def sizeLimit : Nat := 4294967295

/-- The bytes of a text that are read. A longer text is cut, be it inside a character. -/
def held (s : String) : List UInt8 :=
  (bytes s).take sizeLimit

/-- The text is read whole. -/
def Fits (s : String) : Prop :=
  (bytes s).length ≤ sizeLimit

instance (s : String) : Decidable (Fits s) :=
  inferInstanceAs (Decidable (_ ≤ _))

theorem held_of_fits {s : String} (h : Fits s) : held s = bytes s :=
  List.take_of_length_le h

theorem length_held_le (s : String) : (held s).length ≤ (bytes s).length :=
  List.length_take_le' _ _

theorem fits_append {s t : String} :
    Fits (s ++ t) ↔ (bytes s).length + (bytes t).length ≤ sizeLimit := by
  rw [Fits, bytes_append, List.length_append]

theorem Fits.left {s t : String} (h : Fits (s ++ t)) : Fits s :=
  Nat.le_trans (Nat.le_add_right _ _) (fits_append.mp h)

theorem Fits.right {s t : String} (h : Fits (s ++ t)) : Fits t :=
  Nat.le_trans (Nat.le_add_left _ _) (fits_append.mp h)

theorem Fits.drop_middle {s t u : String} (h : Fits (s ++ t ++ u)) : Fits (s ++ u) := by
  rw [fits_append, bytes_append, List.length_append] at h
  rw [fits_append]
  omega

end Text

namespace Byte

def tab : UInt8 := 9
def newline : UInt8 := 10
def carriageReturn : UInt8 := 13
def space : UInt8 := 32
def quote : UInt8 := 39
def star : UInt8 := 42
def plus : UInt8 := 43
def dash : UInt8 := 45
def point : UInt8 := 46
def slash : UInt8 := 47

/-- A byte that separates tokens. -/
def isBlank (b : UInt8) : Bool :=
  b == space || b == tab || b == carriageReturn || b == newline

/-- A byte that a bare token stops before. -/
def endsBare (b : UInt8) : Bool :=
  isBlank b || b == slash || b == 0

def isDigit (b : UInt8) : Bool :=
  48 ≤ b && b ≤ 57

def isLetter (b : UInt8) : Bool :=
  (65 ≤ b && b ≤ 90) || (97 ≤ b && b ≤ 122)

end Byte

end ReservoirDeck
