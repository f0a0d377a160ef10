import Mathlib.Data.List.DropRight
import ReservoirDeck.Proofs.Text.Encoding
import ReservoirDeck.Text.Cursor
import ReservoirDeck.Text.WhiteSpace

/-!
Texts without white space at their ends, and the bytes that white space holds. Trimming once is
enough, and a trimmed text loses nothing when the carriage returns at the end of its line are dropped.
-/

namespace ReservoirDeck

/-- The byte can belong to white space. -/
def Byte.isWhite (b : UInt8) : Bool :=
  (9 ≤ b && b ≤ 13) || b == space || 128 ≤ b

/-- Only bytes that can belong to white space. -/
def White (w : List UInt8) : Prop :=
  ∀ b ∈ w, Byte.isWhite b = true

theorem White.split {w : List UInt8} (hw : White w) {b : UInt8} {l x : List UInt8}
    (hb : Byte.isWhite b = false) (h : b :: l = x ++ w) : ∃ x', x = b :: x' ∧ l = x' ++ w := by
  cases x with
  | nil =>
    rw [List.nil_append] at h
    rw [hw b (h ▸ List.mem_cons_self)] at hb
    cases hb
  | cons c x' =>
    obtain ⟨rfl, rfl⟩ := List.cons.inj h
    exact ⟨x', rfl, rfl⟩

theorem isWhite_of_isBlank {b : UInt8} (h : Byte.isBlank b = true) : Byte.isWhite b = true := by
  have hall : ∀ b, Byte.isBlank b = true → Byte.isWhite b = true :=
    Byte.forall_of_digits (by decide)
  exact hall b h

theorem white_utf8EncodeChar {c : Char} (h : isWhiteSpace c = true) :
    White (String.utf8EncodeChar c) := by
  intro b hb
  rcases Nat.lt_or_ge c.toNat 128 with hlow | hhigh
  · have hall : ∀ c : Char, c.toNat < 128 → isWhiteSpace c = true →
        Byte.isWhite (byteOfChar c) = true := forall_ascii_of_lt (by decide)
    rw [utf8EncodeChar_ascii hlow, List.mem_singleton] at hb
    subst hb
    exact hall c hlow h
  · simp [Byte.isWhite, le_of_mem_utf8EncodeChar hhigh hb]

/-- The last byte of a character that is no white space is no blank. -/
theorem not_isBlank_of_mem_utf8EncodeChar {c : Char} (h : isWhiteSpace c = false) {b : UInt8}
    (hb : b ∈ String.utf8EncodeChar c) : Byte.isBlank b = false := by
  rcases Nat.lt_or_ge c.toNat 128 with hlow | hhigh
  · have hall : ∀ c : Char, c.toNat < 128 → isWhiteSpace c = false →
        Byte.isBlank (byteOfChar c) = false := forall_ascii_of_lt (by decide)
    rw [utf8EncodeChar_ascii hlow, List.mem_singleton] at hb
    subst hb
    exact hall c hlow h
  · have hall : ∀ b : UInt8, 128 ≤ b → Byte.isBlank b = false :=
      Byte.forall_of_digits (by decide)
    exact hall b (le_of_mem_utf8EncodeChar hhigh hb)

namespace Text

variable {p : Char → Bool}

theorem dropEndWhile_eq (cs : List Char) : dropEndWhile p cs = cs.rdropWhile p := rfl

/-- A text that reading a line of text gives: without white space at its ends and without a line
break. -/
structure IsLine (s : String) : Prop where
  trimmed : trim s = s
  line : '\n' ∉ s.toList

theorem dropEndWhile_idem (cs : List Char) :
    dropEndWhile p (dropEndWhile p cs) = dropEndWhile p cs :=
  List.rdropWhile_idempotent p cs

theorem isPrefix_dropEndWhile (cs : List Char) : dropEndWhile p cs <+: cs :=
  List.rdropWhile_prefix p cs

/-- A list that starts with no such character still does when its end is dropped. -/
theorem dropWhile_dropEndWhile (q : Char → Bool) (cs : List Char) :
    (dropEndWhile p (cs.dropWhile q)).dropWhile q = dropEndWhile p (cs.dropWhile q) := by
  obtain ⟨tl, htl⟩ := isPrefix_dropEndWhile (p := p) (cs.dropWhile q)
  cases hds : dropEndWhile p (cs.dropWhile q) with
  | nil => rfl
  | cons c ds =>
    rw [hds] at htl
    have hne : cs.dropWhile q ≠ [] := by simp [← htl]
    have hc := List.head_dropWhile_not q hne
    have hhead : (cs.dropWhile q).head hne = c := by
      simp [← htl]
    rw [hhead] at hc
    simp [hc]

@[simp] theorem trim_trim (s : String) : trim (trim s) = trim s := by
  simp only [trim, String.toList_ofList, dropWhile_dropEndWhile, dropEndWhile_idem]

theorem mem_of_mem_trim {s : String} {c : Char} (h : c ∈ (trim s).toList) : c ∈ s.toList := by
  rw [trim, String.toList_ofList] at h
  exact (List.dropWhile_sublist _).mem ((isPrefix_dropEndWhile _).sublist.mem h)

/-- The last byte of a text is no blank if its last character is no white space. -/
theorem not_isBlank_of_last {s : String} (h : dropEndWhile isWhiteSpace s.toList = s.toList)
    {x : List UInt8} {b : UInt8} (hs : bytes s = x ++ [b]) : Byte.isBlank b = false := by
  rcases List.eq_nil_or_concat' s.toList with hnil | ⟨cs, c, hcs⟩
  · simp [bytes_eq, hnil] at hs
  · have hc : isWhiteSpace c = false := by
      rw [hcs, dropEndWhile_eq, List.rdropWhile_eq_self_iff] at h
      simpa using h (by simp)
    obtain ⟨y, b', hy⟩ := (List.eq_nil_or_concat' (String.utf8EncodeChar c)).resolve_left
      String.utf8EncodeChar_ne_nil
    have hb' := not_isBlank_of_mem_utf8EncodeChar hc (b := b') (by simp [hy])
    rw [bytes_eq, hcs, List.flatMap_append, List.flatMap_singleton, hy, ← List.append_assoc] at hs
    obtain rfl : b' = b := by simpa using (List.append_inj' hs rfl).2
    exact hb'

theorem trimReturns_bytes {s : String} (h : trim s = s) : Cursor.trimReturns (bytes s) = bytes s := by
  have hend : dropEndWhile isWhiteSpace s.toList = s.toList := by
    rw [← h, trim, String.toList_ofList, dropEndWhile_idem]
  change (bytes s).rdropWhile _ = bytes s
  rw [List.rdropWhile_eq_self_iff]
  intro hne hreturn
  have hblank := not_isBlank_of_last hend (List.dropLast_append_getLast hne).symm
  rw [beq_iff_eq] at hreturn
  rw [hreturn] at hblank
  cases hblank

theorem sameAscii_ne_newline : SameAscii (· != Byte.newline) (· != '\n') :=
  sameAscii_ne '\n' (by decide)

theorem sameAscii_ne_slash : SameAscii (· != Byte.slash) (· != '/') :=
  sameAscii_ne '/' (by decide)

theorem ne_newline_of_mem_bytes {s : String} (h : '\n' ∉ s.toList) :
    ∀ b ∈ bytes s, (b != Byte.newline) = true :=
  fun _ hb => bne_iff_ne.mpr (ne_of_mem_of_not_mem hb (sameAscii_ne_newline.not_mem_bytes h))

theorem not_mem_ofBytes {bs : List UInt8} (h : ∀ b ∈ bs, (b != Byte.newline) = true) :
    '\n' ∉ (ofBytes bs).toList := by
  rcases bytes_ofBytes bs with hbs | hempty
  · have hall : (ofBytes bs).toList.all (· != '\n') = true := by
      rw [← sameAscii_ne_newline.all_bytes, hbs, List.all_eq_true]
      exact h
    exact fun hmem => by simpa using List.all_eq_true.mp hall _ hmem
  · simp [hempty]

/-- A line that is cut from a text is found in it without its line break. -/
theorem line_of_bytes {c : Cursor} {s : String} {rest : List UInt8} (h : '\n' ∉ s.toList)
    (hc : c.rest = bytes s ++ Byte.newline :: rest) : c.line = bytes s := by
  rw [Cursor.line, hc, List.takeWhile_append_of_pos (ne_newline_of_mem_bytes h)]
  simp

end Text

end ReservoirDeck
