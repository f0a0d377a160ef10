import ReservoirDeck.Text.Padded

/-!
Looking at the padded text. From every place of a text, its end included, the byte there is held in
memory. For the byte after it this fails in one place, and no comment is looked for there.
-/

namespace ReservoirDeck

open Text (blockSize paddedSize padded)

theorem Text.lt_paddedSize_of_le {p size : Nat} (hp : p ≤ size) : p < paddedSize size :=
  Nat.lt_of_le_of_lt hp (lt_paddedSize size)

/-- Nothing is held after the byte at `p` only if this is the end mark and the last of its block. -/
theorem Text.succ_lt_paddedSize_iff_of_le {p size : Nat} (hp : p ≤ size) :
    p + 1 < paddedSize size ↔ ¬ (p = size ∧ size % blockSize + 1 = blockSize) := by
  rcases Nat.lt_or_eq_of_le hp with hlt | rfl
  · have hheld : p + 1 < paddedSize size := lt_paddedSize_of_le hlt
    exact iff_of_true hheld fun hend => Nat.ne_of_lt hlt hend.1
  · rw [succ_lt_paddedSize_iff]
    exact not_congr (iff_and_self.mpr fun _ => rfl)

namespace Cursor

variable {c : Cursor}

theorem lt_length_of_current (h : c.current ≠ 0) : c.pos < c.text.length := by
  apply Nat.lt_of_not_le
  intro hend
  apply h
  rw [current, c.rest_eq, List.drop_eq_nil_of_le hend]
  rfl

theorem byte?_zero (h : c.pos < paddedSize c.text.length) : c.byte? 0 = some c.current :=
  byte?_of_lt h

theorem byte?_one (h : c.pos + 1 < paddedSize c.text.length) : c.byte? 1 = some c.peek := by
  rw [byte?_of_lt h, List.drop_one]
  rfl

/-- At every place of a text the byte there is held in memory, and so is the one after it, unless the
place is the end of the text and the end mark is the last byte of its block: then nothing is held after
it. Where a dash is, the byte after it is always held. -/
theorem padded_backs_reads (text : List UInt8) {p : Nat} (hp : p ≤ text.length) :
    let c := (Cursor.ofBytes text).forward p
    (c.pos < (padded text).length ∧ c.byte? 0 = some c.current) ∧
      (c.pos + 1 < (padded text).length ↔
        ¬ (p = text.length ∧ text.length % blockSize + 1 = blockSize)) ∧
      (c.byte? 1 = if p = text.length ∧ text.length % blockSize + 1 = blockSize then none
        else some c.peek) ∧
      (c.current = Byte.dash → c.byte? 1 = some c.peek) := by
  intro c
  have hpos : c.pos = p := Nat.zero_add p
  have htext : c.text = text := rfl
  have hsize : (padded text).length = paddedSize c.text.length := Text.length_padded text
  rw [hsize]
  have hhere : c.pos < paddedSize c.text.length := by
    rw [hpos]
    exact Text.lt_paddedSize_of_le hp
  have hnext : c.pos + 1 < paddedSize c.text.length ↔
      ¬ (p = text.length ∧ text.length % blockSize + 1 = blockSize) := by
    rw [hpos]
    exact Text.succ_lt_paddedSize_iff_of_le hp
  refine ⟨⟨hhere, byte?_zero hhere⟩, hnext, ?_, ?_⟩
  · split
    · next hend => exact byte?_of_le (Nat.le_of_not_lt fun hheld => hnext.mp hheld hend)
    · next hmore => exact byte?_one (hnext.mpr hmore)
  · intro hdash
    have hin : c.pos < c.text.length := lt_length_of_current (by rw [hdash]; decide)
    exact byte?_one (Text.lt_paddedSize_of_le hin)

/-- At every place of a text every call has an answer, but the look at the next byte. -/
theorem answers_of_le (hp : c.pos ≤ c.text.length) {call : Call} (h : call ≠ .peek) :
    c.answers call = true := by
  have hhere : c.pos < paddedSize c.text.length := Text.lt_paddedSize_of_le hp
  have hbyte : (c.byte? 0).isSome = true := by rw [byte?_zero hhere]; rfl
  cases call with
  | peek => exact absurd rfl h
  | lineHasTerminator => exact decide_eq_true (Nat.le_of_lt hhere)
  | atEnd | advance | toLineEnd => rfl
  | _ => exact hbyte

/-- That look has none behind the end mark where the mark is the last byte of its block. -/
theorem answers_peek_iff (hp : c.pos ≤ c.text.length) :
    c.answers .peek = true ↔ ¬ (c.pos = c.text.length ∧ c.text.length % blockSize + 1 = blockSize) := by
  rw [← Text.succ_lt_paddedSize_iff_of_le hp]
  rcases Nat.lt_or_ge (c.pos + 1) (paddedSize c.text.length) with hnext | hend
  · simp [answers, byte?_one hnext, hnext]
  · simp [answers, byte?_of_le hend, Nat.not_lt.mpr hend]

/-- A dash is the last byte of a text that fills its block up to the end mark. -/
theorem padded_backs_reads_dash :
    let text := List.replicate 62 65 ++ [Byte.dash]
    let c := (Cursor.ofBytes text).forward 62
    62 ≤ text.length ∧ text.length % blockSize + 1 = blockSize ∧ c.current = Byte.dash ∧
      c.byte? 1 = some 0 := by
  intro text c
  have hle : 62 ≤ text.length := by decide
  have hdash : c.current = Byte.dash := by decide
  obtain ⟨-, -, -, hnext⟩ := padded_backs_reads text hle
  exact ⟨hle, by decide, hdash, hnext hdash⟩

/-- At the end of that text nothing is held after the end mark. -/
theorem padded_lacks_byte_after_mark :
    let text := List.replicate 63 65
    let c := (Cursor.ofBytes text).forward 63
    c.pos ≤ text.length ∧ ¬ c.pos + 1 < (padded text).length ∧ c.byte? 1 = none := by
  decide

end Cursor

end ReservoirDeck
