import ReservoirDeck.Text.Cursor

/-!
The text as it is held in memory. A zero byte marks its end, and more of them fill the last block. A
cursor looks at the bytes there, so it may look past the end of the text, but not past the last block.
-/

namespace ReservoirDeck

namespace Text

/-- Memory is taken in blocks of this many bytes. -/
def blockSize : Nat := 64

/-- The size of a text with its end mark and its padding. -/
def paddedSize (size : Nat) : Nat :=
  (size + 1 + (blockSize - 1)) / blockSize * blockSize

def padded (bs : List UInt8) : List UInt8 :=
  bs ++ List.replicate (paddedSize bs.length - bs.length) 0

theorem lt_paddedSize (size : Nat) : size < paddedSize size := by
  unfold paddedSize blockSize
  omega

/-- Behind the end mark there is padding, unless the mark is the last byte of its block. -/
theorem succ_lt_paddedSize_iff (size : Nat) :
    size + 1 < paddedSize size ↔ size % blockSize + 1 ≠ blockSize := by
  unfold paddedSize blockSize
  omega

@[simp] theorem length_padded (bs : List UInt8) : (padded bs).length = paddedSize bs.length := by
  have hmore := lt_paddedSize bs.length
  rw [padded, List.length_append, List.length_replicate]
  omega

end Text

namespace Cursor

/-- The byte `ahead` places after the one here, as it is held in memory. There is none past the last
block. -/
def byte? (c : Cursor) (ahead : Nat) : Option UInt8 :=
  (Text.padded c.text)[c.pos + ahead]?

theorem byte?_of_lt {c : Cursor} {ahead : Nat} (h : c.pos + ahead < Text.paddedSize c.text.length) :
    c.byte? ahead = some ((c.rest.drop ahead).headD 0) := by
  unfold byte? Text.padded
  rw [c.rest_eq, List.drop_drop, List.headD_eq_head?_getD, List.head?_drop]
  rcases Nat.lt_or_ge (c.pos + ahead) c.text.length with htext | hend
  · rw [List.getElem?_append_left htext, List.getElem?_eq_getElem htext]
    rfl
  · rw [List.getElem?_append_right hend, List.getElem?_eq_none hend]
    exact List.getElem?_replicate_of_lt (by omega)

theorem byte?_of_le {c : Cursor} {ahead : Nat} (h : Text.paddedSize c.text.length ≤ c.pos + ahead) :
    c.byte? ahead = none := by
  apply List.getElem?_eq_none
  rwa [Text.length_padded]

/-- The calls on a cursor. -/
inductive Call
  | current
  | peek
  | atEnd
  | atComment
  | peekSignificant
  | lookahead
  | lineHasTerminator
  | advance
  | skipBlanks
  | skipTrivia
  | skipLetters
  | toLineEnd
  | skipLine
  | line
  | token
  | tokens
  deriving DecidableEq

/-- The call has an answer. A call that looks at a byte which is not held panics. Most calls look at the
byte here first, and at the next one only behind a dash. -/
def answers (c : Cursor) : Call → Bool
  | .atEnd | .advance | .toLineEnd => true
  | .lineHasTerminator => decide (c.pos ≤ Text.paddedSize c.text.length)
  | .peek => (c.byte? 1).isSome
  | _ => (c.byte? 0).isSome

end Cursor

end ReservoirDeck
