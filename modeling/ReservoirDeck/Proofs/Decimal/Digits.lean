import Mathlib.Data.List.TakeWhile
import ReservoirDeck.Proofs.Decimal.Characters
import ReservoirDeck.Proofs.RoundTrip.Slots

/-!
Texts of numbers as words. A text of digits, signs, points and exponent marks is one bare word that
holds no star.
-/

namespace ReservoirDeck

theorem digitsValue_eq (cs : List Char) : digitsValue cs = Nat.ofDigitChars 10 cs 0 := by
  rw [digitsValue, Nat.ofDigitChars_eq_foldl]

theorem isDigit_of_mem_toDigits {n : Nat} {c : Char} (h : c ∈ Nat.toDigits 10 n) :
    c.isDigit = true :=
  Nat.isDigit_of_mem_toDigits (by decide) (by decide) h

@[simp] theorem digitsValue_toDigits (n : Nat) : digitsValue (Nat.toDigits 10 n) = n := by
  rw [digitsValue_eq, Nat.ofDigitChars_ten_toDigits]

theorem naturalOfChars?_toDigits (n : Nat) : naturalOfChars? (Nat.toDigits 10 n) = some n := by
  rw [naturalOfChars?, if_pos, digitsValue_toDigits]
  exact ⟨Nat.toDigits_ne_nil, List.all_eq_true.mpr fun _ hc => isDigit_of_mem_toDigits hc⟩

theorem splitSign_digits {cs : List Char} (h : ∀ c ∈ cs.head?, c.isDigit = true) :
    splitSign cs = (false, cs) := by
  unfold splitSign
  split
  · simp at h
  · simp at h
  · rfl

theorem head?_toDigits (n : Nat) : ∀ c ∈ (Nat.toDigits 10 n).head?, c.isDigit = true :=
  fun _ hc => isDigit_of_mem_toDigits (List.mem_of_mem_head? hc)

def isNumberChar (c : Char) : Bool :=
  c.isDigit || c == '-' || c == '.' || c == 'e'

/-- Characters that start with a digit, or with a minus sign and a digit. -/
inductive StartsNumber : List Char → Prop
  | digit {c : Char} {cs : List Char} (h : c.isDigit = true) : StartsNumber (c :: cs)
  | minus {c : Char} {cs : List Char} (h : c.isDigit = true) : StartsNumber ('-' :: c :: cs)

theorem toNat_of_isDigit {c : Char} (h : c.isDigit = true) : 48 ≤ c.toNat ∧ c.toNat ≤ 57 := by
  simp only [Char.isDigit, Bool.and_eq_true, decide_eq_true_eq, UInt32.le_iff_toNat_le] at h
  exact h

theorem isNumberChar_lt {c : Char} (h : isNumberChar c = true) : c.toNat < 128 := by
  simp only [isNumberChar, Bool.or_eq_true, beq_iff_eq] at h
  rcases h with ((h | rfl) | rfl) | rfl
  · have := toNat_of_isDigit h
    omega
  · decide
  · decide
  · decide

theorem isNumberChar_bare {c : Char} (h : isNumberChar c = true) :
    endsBareChar c = false ∧ c ≠ '*' ∧ c ≠ '\'' := by
  simp only [isNumberChar, Bool.or_eq_true, beq_iff_eq] at h
  rcases h with ((h | rfl) | rfl) | rfl
  · simp only [endsBareChar, Bool.or_eq_false_iff, beq_eq_false_iff_ne]
    refine ⟨⟨⟨⟨⟨⟨?_, ?_⟩, ?_⟩, ?_⟩, ?_⟩, ?_⟩, ?_, ?_⟩ <;>
    · rintro rfl
      exact absurd h (by decide)
  · decide
  · decide
  · decide

theorem ofByte_digit {c : Char} (h : c.isDigit = true) :
    Lookahead.ofByte (byteOfChar c) = .data := by
  obtain ⟨hlow, hhigh⟩ := toNat_of_isDigit h
  have hb : (byteOfChar c).toNat = c.toNat := by
    simp only [byteOfChar, UInt8.toNat_ofNat']
    omega
  have hdigit : Byte.isDigit (byteOfChar c) = true := by
    simp only [Byte.isDigit, Bool.and_eq_true, decide_eq_true_eq, UInt8.le_iff_toNat_le, hb]
    exact ⟨hlow, hhigh⟩
  simp [Lookahead.ofByte, hdigit]

theorem StartsNumber.plain {cs : List Char} (h : StartsNumber cs) :
    cs.take 2 ≠ ['-', '-'] ∧ ∀ b ∈ (cs.map byteOfChar).head?, Lookahead.ofByte b = .data := by
  cases h with
  | @digit c cs h =>
    refine ⟨fun htake => ?_, by simpa using ofByte_digit h⟩
    obtain rfl : c = '-' := (List.cons.inj htake).1
    exact absurd h (by decide)
  | @minus c cs h =>
    refine ⟨fun htake => ?_, fun b hb => ?_⟩
    · obtain rfl : c = '-' := by simpa using htake
      exact absurd h (by decide)
    · obtain rfl : byteOfChar '-' = b := by simpa using hb
      decide

theorem dataText_of_number {s : String} (hall : ∀ c ∈ s.toList, isNumberChar c = true)
    (hstart : StartsNumber s.toList) : DataText s := by
  have hbare : s.toList.all (!endsBareChar ·) = true :=
    List.all_eq_true.mpr fun c hc => by simp [(isNumberChar_bare (hall c hc)).1]
  have hquote : s.toList.head? ≠ some '\'' := fun h =>
    (isNumberChar_bare (hall _ (List.mem_of_mem_head? h))).2.2 rfl
  have hne : s ≠ "" := by
    rintro rfl
    cases hstart
  refine ⟨⟨hne, ?_⟩, ?_⟩
  · simp [readsBackBare, hbare, hquote, hstart.plain.1]
  · rw [Text.bytes_ascii fun c hc => isNumberChar_lt (hall c hc)]
    exact hstart.plain.2

theorem Item.ofText?_of_number {τ : Type} [DeckNumber τ] {s : String} {v : τ}
    (hall : ∀ c ∈ s.toList, isNumberChar c = true) (hv : DeckNumber.ofText? s = some v) :
    Item.ofText? s = some (.value v) := by
  have hstar : '*' ∉ s.toList := fun hmem => absurd (hall '*' hmem) (by decide)
  rw [Item.ofText?, splitStar_eq_none.mpr hstar]
  simp [hv]

theorem EntryWord.of_number {τ : Type} [DeckNumber τ] {s : String} {v : τ}
    (hall : ∀ c ∈ s.toList, isNumberChar c = true) (hstart : StartsNumber s.toList)
    (hv : DeckNumber.ofText? s = some v) : EntryWord τ s (some v) :=
  .given (dataText_of_number hall hstart) (Item.ofText?_of_number hall hv)

theorem toList_toString_nat (n : Nat) : (toString n).toList = Nat.toDigits 10 n := by
  rw [Nat.toString_eq_ofList_toDigits, String.toList_ofList]

theorem startsNumber_toDigits (n : Nat) : StartsNumber (Nat.toDigits 10 n) := by
  obtain ⟨c, cs, h⟩ := List.exists_cons_of_ne_nil (Nat.toDigits_ne_nil (n := n) (b := 10))
  rw [h]
  exact .digit (isDigit_of_mem_toDigits (n := n) (by simp [h]))

theorem isNumberChar_toDigits (n : Nat) : ∀ c ∈ Nat.toDigits 10 n, isNumberChar c = true :=
  fun c hc => by simp [isNumberChar, isDigit_of_mem_toDigits hc]

/-- The characters of an integer: its digits, after a minus sign if it is negative. -/
theorem toList_toString_int (n : Int) :
    (toString n).toList =
      if n < 0 then '-' :: Nat.toDigits 10 n.natAbs else Nat.toDigits 10 n.natAbs := by
  rw [Int.toString_eq_repr, Int.repr_eq_if]
  by_cases h : n < 0
  · have habs : (-n).toNat = n.natAbs := by omega
    rw [if_neg (by omega), if_pos h, String.toList_append, Nat.toList_repr, habs]
    rfl
  · have habs : n.toNat = n.natAbs := by omega
    rw [if_pos (by omega), if_neg h, Nat.toList_repr, habs]

theorem integerOfChars?_toString (n : Int) : integerOfChars? (toString n).toList = some n := by
  rw [toList_toString_int]
  by_cases h : n < 0
  · simp only [h, if_true, integerOfChars?, splitSign, naturalOfChars?_toDigits]
    change some (-(n.natAbs : Int)) = some n
    rw [Option.some.injEq]
    omega
  · simp only [h, if_false, integerOfChars?, splitSign_digits (head?_toDigits _),
      naturalOfChars?_toDigits, Bool.false_eq_true]
    change some (n.natAbs : Int) = some n
    rw [Option.some.injEq]
    omega

theorem isNumberChar_toString_int (n : Int) :
    ∀ c ∈ (toString n).toList, isNumberChar c = true := by
  intro c hc
  rw [toList_toString_int] at hc
  split at hc
  · rcases List.mem_cons.mp hc with rfl | hc
    · rfl
    · exact isNumberChar_toDigits _ c hc
  · exact isNumberChar_toDigits _ c hc

theorem startsNumber_toString_int (n : Int) : StartsNumber (toString n).toList := by
  rw [toList_toString_int]
  split
  · obtain ⟨c, cs, h⟩ := List.exists_cons_of_ne_nil (Nat.toDigits_ne_nil (n := n.natAbs) (b := 10))
    rw [h]
    exact .minus (isDigit_of_mem_toDigits (n := n.natAbs) (by simp [h]))
  · exact startsNumber_toDigits _

theorem entryWord_int {n : Int} (hlow : Int32.minValue.toInt ≤ n) (hhigh : n ≤ Int32.maxValue.toInt) :
    EntryWord Int32 (toString n) (some (Int32.ofInt n)) := by
  refine .of_number (isNumberChar_toString_int n) (startsNumber_toString_int n) ?_
  change integerOfText? (toString n) = _
  rw [integerOfText?, integerOfChars?_toString, Option.bind_some, if_pos ⟨hlow, hhigh⟩]

theorem entryWord_integerText (n : Int32) : EntryWord Int32 (integerText n) (some n) := by
  have h := entryWord_int n.minValue_le_toInt n.toInt_le
  rwa [Int32.ofInt_toInt] at h

end ReservoirDeck
