import Mathlib.Tactic.Common
import ReservoirDeck.Text.Bytes

/-!
Texts and their bytes. An ASCII character is one byte and every other character is bytes above, so a
class of ASCII characters is found in the bytes of a text as it is in its characters.
-/

namespace ReservoirDeck

/-- What holds of the bytes with these two hexadecimal digits holds of all. -/
theorem Byte.forall_of_digits {P : UInt8 → Prop}
    (h : ∀ m < 16, ∀ n < 16, P (UInt8.ofNat (16 * m + n))) (b : UInt8) : P b := by
  have hlt := b.toNat_lt
  have hb := h (b.toNat / 16) (by omega) (b.toNat % 16) (by omega)
  rwa [Nat.div_add_mod, UInt8.ofNat_toNat] at hb

theorem forall_ascii_of_lt {P : Char → Prop} (h : ∀ n < 128, P (Char.ofNat n)) (c : Char)
    (hc : c.toNat < 128) : P c := by
  simpa using h c.toNat hc

theorem toNat_lt_of_isAlpha {c : Char} (h : c.isAlpha = true) : c.toNat < 128 := by
  delta Char.isAlpha Char.isUpper Char.isLower at h
  simp [UInt32.le_iff_toNat_le] at h
  have : c.toNat = c.val.toNat := rfl
  omega

def byteOfChar (c : Char) : UInt8 :=
  UInt8.ofNat c.toNat

theorem utf8EncodeChar_ascii {c : Char} (h : c.toNat < 128) :
    String.utf8EncodeChar c = [byteOfChar c] := by
  have hv : c.val.toNat ≤ 0x7f := Nat.le_of_lt_succ h
  simp only [String.utf8EncodeChar, hv, if_true]
  rfl

theorem le_of_mem_utf8EncodeChar {c : Char} (h : 128 ≤ c.toNat) {b : UInt8}
    (hb : b ∈ String.utf8EncodeChar c) : 128 ≤ b := by
  have hv : ¬ c.val.toNat ≤ 0x7f := Nat.not_le_of_lt h
  have hvalid := c.valid
  simp only [UInt32.isValidChar, Nat.isValidChar] at hvalid
  rw [UInt8.le_iff_toNat_le]
  simp only [String.utf8EncodeChar, hv, if_false] at hb
  split at hb
  · simp only [List.mem_cons, List.not_mem_nil, or_false] at hb
    rcases hb with rfl | rfl <;> simp <;> omega
  · split at hb
    · simp only [List.mem_cons, List.not_mem_nil, or_false] at hb
      rcases hb with rfl | rfl | rfl <;> simp <;> omega
    · simp only [List.mem_cons, List.not_mem_nil, or_false] at hb
      rcases hb with rfl | rfl | rfl | rfl <;> simp <;> omega

namespace Text

theorem bytes_ofList (cs : List Char) :
    bytes (String.ofList cs) = cs.flatMap String.utf8EncodeChar := by
  simp [bytes, List.utf8Encode]

theorem bytes_eq (s : String) : bytes s = s.toList.flatMap String.utf8EncodeChar := by
  rw [← bytes_ofList, String.ofList_toList]

@[simp] theorem bytes_eq_nil {s : String} : bytes s = [] ↔ s = "" := by
  constructor
  · intro h
    exact bytes_injective (h.trans bytes_empty.symm)
  · rintro rfl
    rfl

/-- A text is either the bytes it was cut from, or empty because they spell nothing. -/
theorem bytes_ofBytes (bs : List UInt8) : bytes (ofBytes bs) = bs ∨ ofBytes bs = "" := by
  simp only [ofBytes, String.fromUTF8?]
  split
  · left
    simp [bytes, String.fromUTF8]
  · right
    rfl

theorem bytes_ascii {s : String} (h : ∀ c ∈ s.toList, c.toNat < 128) :
    bytes s = s.toList.map byteOfChar := by
  rw [bytes_eq]
  generalize s.toList = cs at h
  induction cs with
  | nil => rfl
  | cons c cs ih =>
    rw [List.flatMap_cons, utf8EncodeChar_ascii (h c List.mem_cons_self),
      ih fun d hd => h d (List.mem_cons_of_mem c hd)]
    rfl

theorem bytes_cons {s : String} {c : Char} {cs : List Char} (hs : s.toList = c :: cs) :
    ∃ b bs, bytes s = b :: bs ∧ (c.toNat < 128 → b = byteOfChar c ∧ bs = bytes (String.ofList cs)) ∧
      (128 ≤ c.toNat → 128 ≤ b) := by
  rw [bytes_eq, hs, List.flatMap_cons, bytes_ofList]
  rcases Nat.lt_or_ge c.toNat 128 with hc | hc
  · exact ⟨byteOfChar c, _, by rw [utf8EncodeChar_ascii hc]; rfl, fun _ => ⟨rfl, rfl⟩,
      fun h => absurd hc (Nat.not_lt_of_le h)⟩
  · obtain ⟨b, bs, hb⟩ := List.exists_cons_of_ne_nil (String.utf8EncodeChar_ne_nil (c := c))
    refine ⟨b, bs ++ _, by rw [hb]; rfl, fun h => absurd h (Nat.not_lt_of_le hc), fun _ => ?_⟩
    exact le_of_mem_utf8EncodeChar hc (by simp [hb])

end Text

/-- A class of bytes and a class of characters that mean the same ASCII characters, and hold for
everything else. -/
structure SameAscii (p : UInt8 → Bool) (q : Char → Bool) : Prop where
  ascii : ∀ n < 128, p (byteOfChar (Char.ofNat n)) = q (Char.ofNat n)
  bytes : ∀ n < 256, 128 ≤ n → p (UInt8.ofNat n) = true
  chars : ∀ c : Char, 128 ≤ c.toNat → q c = true

theorem byteOfChar_inj {c c' : Char} (h : c.toNat < 128) (h' : c'.toNat < 128) :
    byteOfChar c = byteOfChar c' ↔ c = c' := by
  constructor
  · intro heq
    have hnat := congrArg UInt8.toNat heq
    simp only [byteOfChar, UInt8.toNat_ofNat'] at hnat
    rw [Nat.mod_eq_of_lt (by omega), Nat.mod_eq_of_lt (by omega)] at hnat
    exact Char.toNat_inj.mp hnat
  · rintro rfl
    rfl

theorem sameAscii_ne (c : Char) (hc : c.toNat < 128) :
    SameAscii (· != byteOfChar c) (· != c) where
  ascii n hn := by
    have hlow : (Char.ofNat n).toNat < 128 := by
      have hvalid : n.isValidChar := Or.inl (by omega)
      rw [Char.ofNat, dif_pos hvalid]
      exact hn
    rw [Bool.eq_iff_iff, bne_iff_ne, bne_iff_ne, ne_eq, ne_eq, byteOfChar_inj hlow hc]
  bytes n hn hge := by
    rw [bne_iff_ne]
    intro heq
    have hnat := congrArg UInt8.toNat heq
    simp only [byteOfChar, UInt8.toNat_ofNat'] at hnat
    omega
  chars c' hc' := by
    rw [bne_iff_ne]
    rintro rfl
    omega

namespace SameAscii

variable {p : UInt8 → Bool} {q : Char → Bool} (h : SameAscii p q)
include h

theorem byteOfChar {c : Char} (hc : c.toNat < 128) : p (byteOfChar c) = q c := by
  simpa using h.ascii c.toNat hc

theorem byte {b : UInt8} (hb : 128 ≤ b) : p b = true := by
  simpa using h.bytes b.toNat b.toNat_lt (UInt8.le_iff_toNat_le.mp hb)

theorem all_bytes (s : String) : (Text.bytes s).all p = s.toList.all q := by
  rw [Text.bytes_eq]
  induction s.toList with
  | nil => rfl
  | cons c cs ih =>
    rw [List.flatMap_cons, List.all_append, List.all_cons, ih]
    congr 1
    rcases Nat.lt_or_ge c.toNat 128 with hc | hc
    · simp [utf8EncodeChar_ascii hc, h.byteOfChar hc]
    · rw [h.chars c hc, List.all_eq_true]
      exact fun b hb => h.byte (le_of_mem_utf8EncodeChar hc hb)

theorem head_bytes (s : String) : (Text.bytes s).head?.all p = s.toList.head?.all q := by
  cases hcs : s.toList with
  | nil =>
    obtain rfl := String.toList_eq_nil_iff.mp hcs
    rfl
  | cons c cs =>
    obtain ⟨b, bs, hb, hlow, hhigh⟩ := Text.bytes_cons hcs
    rw [hb]
    rcases Nat.lt_or_ge c.toNat 128 with hc | hc
    · simpa [(hlow hc).1] using h.byteOfChar hc
    · simp [h.byte (hhigh hc), h.chars c hc]

/-- The bytes in front that are in the class are those of the characters in front that are. -/
theorem takeWhile_bytes (s : String) :
    (Text.bytes s).takeWhile p = Text.bytes (String.ofList (s.toList.takeWhile q)) := by
  rw [Text.bytes_eq, Text.bytes_ofList]
  induction s.toList with
  | nil => rfl
  | cons c cs ih =>
    rcases Nat.lt_or_ge c.toNat 128 with hc | hc
    · rw [List.flatMap_cons, utf8EncodeChar_ascii hc, List.singleton_append, List.takeWhile_cons,
        List.takeWhile_cons, h.byteOfChar hc, ih]
      cases q c with
      | true => simp [utf8EncodeChar_ascii hc]
      | false => rfl
    · have hall : ∀ b ∈ String.utf8EncodeChar c, p b = true :=
        fun b hb => h.byte (le_of_mem_utf8EncodeChar hc hb)
      rw [List.flatMap_cons, List.takeWhile_append_of_pos hall, List.takeWhile_cons, h.chars c hc,
        ih]
      rfl

omit h in
theorem and {p' : UInt8 → Bool} {q' : Char → Bool} (h : SameAscii p q) (h' : SameAscii p' q') :
    SameAscii (fun b => p b && p' b) (fun c => q c && q' c) where
  ascii n hn := by rw [h.ascii n hn, h'.ascii n hn]
  bytes n hn hge := by rw [h.bytes n hn hge, h'.bytes n hn hge, Bool.and_self]
  chars c hc := by rw [h.chars c hc, h'.chars c hc, Bool.and_self]

omit h in
/-- A byte is in the encoding of a text if its character is in the text. -/
theorem mem_bytes {b : UInt8} {c : Char} (h : SameAscii (· != b) (· != c)) {s : String} :
    b ∈ Text.bytes s ↔ c ∈ s.toList := by
  have hall : (Text.bytes s).all (· != b) = s.toList.all (· != c) := h.all_bytes s
  rw [Bool.eq_iff_iff] at hall
  simp only [List.all_eq_true, bne_iff_ne] at hall
  constructor
  · intro hb
    by_contra hc
    exact hall.mpr (fun c' hc' => ne_of_mem_of_not_mem hc' hc) b hb rfl
  · intro hc
    by_contra hb
    exact hall.mp (fun b' hb' => ne_of_mem_of_not_mem hb' hb) c hc rfl

omit h in
theorem not_mem_bytes {b : UInt8} {c : Char} (h : SameAscii (· != b) (· != c)) {s : String}
    (hs : c ∉ s.toList) : b ∉ Text.bytes s :=
  mt h.mem_bytes.mp hs

end SameAscii

end ReservoirDeck
