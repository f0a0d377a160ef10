import Mathlib.Algebra.BigOperators.Group.List.Basic
import Mathlib.Algebra.GroupWithZero.Nat
import Mathlib.Data.List.DropRight
import ReservoirDeck.Proofs.Text.Words

/-!
Lines and columns. The line is found by one scan of what is passed and the column by another, and the
two agree: the lines that are ended and the bytes of the line reached add up to the offset. So places
of one text are in the order of their lines and columns, and an error tells where it was found.
-/

namespace ReservoirDeck

namespace Text

/-- The lines of a text, without their newlines. Every newline ends a line, and behind the last of them
there is one more line, which may be empty. -/
def lines (text : List UInt8) : List (List UInt8) :=
  text.splitOn Byte.newline

/-- The bytes that some lines take, each with its newline. -/
def lineSizes (ls : List (List UInt8)) : Nat :=
  (ls.map fun line => line.length + 1).sum

/-- The bytes `passed` are the lines `ended`, each with its newline, and `reached` of the line after
them. -/
structure InLines (passed : List UInt8) (ended : List (List UInt8)) (reached : List UInt8) : Prop where
  eq : passed = ended.flatMap (· ++ [Byte.newline]) ++ reached
  not_mem_ended : ∀ line ∈ ended, Byte.newline ∉ line
  not_mem_reached : Byte.newline ∉ reached

namespace InLines

variable {passed reached : List UInt8} {ended : List (List UInt8)}

theorem newline (h : InLines passed ended reached) :
    InLines (passed ++ [Byte.newline]) (ended ++ [reached]) [] where
  eq := by simp [h.eq]
  not_mem_ended line hline := by
    rcases List.mem_append.mp hline with hended | hreached
    · exact h.not_mem_ended line hended
    · rw [List.mem_singleton.mp hreached]
      exact h.not_mem_reached
  not_mem_reached := List.not_mem_nil

theorem other (h : InLines passed ended reached) {b : UInt8} (hb : b ≠ Byte.newline) :
    InLines (passed ++ [b]) ended (reached ++ [b]) where
  eq := by rw [h.eq, List.append_assoc]
  not_mem_ended := h.not_mem_ended
  not_mem_reached hmem := by
    rcases List.mem_append.mp hmem with hreached | hlast
    · exact h.not_mem_reached hreached
    · exact hb (List.mem_singleton.mp hlast).symm

theorem length_eq (h : InLines passed ended reached) :
    passed.length = lineSizes ended + reached.length := by
  rw [h.eq, List.length_append, List.length_flatMap]
  simp [lineSizes]

end InLines

end Text

namespace Location

open Text (lines lineSizes)

/-- Line and column say where the offset `p` is in a text: the lines before that line, each with its
newline, and the bytes of it that are passed make up the first `p` bytes. -/
structure IsAt (l : Location) (text : List UInt8) (p : Nat) : Prop where
  line_pos : 0 < l.line
  column_pos : 0 < l.column
  line_le : l.line ≤ (lines text).length
  offset : lineSizes ((lines text).take (l.line - 1)) + (l.column - 1) = p
  newline_not_mem : Byte.newline ∉ (text.take p).rtake (l.column - 1)

/-- On a line above, or on the same line and further left. -/
def Before (l l' : Location) : Prop :=
  l.line < l'.line ∨ l.line = l'.line ∧ l.column < l'.column

variable {l l' : Location} {text : List UInt8} {p q : Nat}

theorem Before.ne (h : l.Before l') : l ≠ l' := by
  rintro rfl
  simp [Before] at h

/-- Of two places, the later one comes after if it is not on a line above. -/
theorem IsAt.before (h : l.IsAt text p) (h' : l'.IsAt text q) (hline : l.line ≤ l'.line) (hlt : p < q) :
    l.Before l' := by
  rcases Nat.lt_or_eq_of_le hline with hbelow | hsame
  · exact Or.inl hbelow
  · have hoffset := h.offset
    have hoffset' := h'.offset
    rw [hsame] at hoffset
    exact Or.inr ⟨hsame, by omega⟩

end Location

namespace Cursor

variable {c d : Cursor}

end Cursor

end ReservoirDeck
