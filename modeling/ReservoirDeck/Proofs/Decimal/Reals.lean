import ReservoirDeck.Decimal.Text
import ReservoirDeck.Proofs.Decimal.Intervals
import ReservoirDeck.Proofs.Decimal.Spellings

/-!
Texts of reals. The shortest text of a finite number is read as that number, bit for bit.
-/

namespace ReservoirDeck

namespace Decimal

variable {d : Decimal}

theorem isNumberChar_digits {cs : List Char} (h : ∀ c ∈ cs, c.isDigit = true) :
    ∀ c ∈ cs, isNumberChar c = true :=
  fun c hc => by simp [isNumberChar, h c hc]

theorem isNumberChar_positional : ∀ c ∈ d.positional, isNumberChar c = true := by
  have hwhole := isNumberChar_digits (List.forall_mem_append.mpr
    ⟨isDigit_digitChars (d := d), isDigit_zeros d.exponent.toNat⟩)
  simp only [positional]
  generalize d.digitChars ++ List.replicate d.exponent.toNat '0' = ws at hwhole
  split
  · exact hwhole
  · split
    · refine List.forall_mem_append.mpr ⟨fun c hc => hwhole c (List.mem_of_mem_take hc), ?_⟩
      exact List.forall_mem_cons.mpr ⟨rfl, fun c hc => hwhole c (List.mem_of_mem_drop hc)⟩
    · refine List.forall_mem_append.mpr ⟨?_, hwhole⟩
      exact List.forall_mem_cons.mpr ⟨rfl, List.forall_mem_cons.mpr
        ⟨rfl, isNumberChar_digits (isDigit_zeros _)⟩⟩

theorem isNumberChar_exponential : ∀ c ∈ d.exponential, isNumberChar c = true := by
  have hdigits := isNumberChar_digits (isDigit_digitChars (d := d))
  simp only [exponential, List.forall_mem_append, List.forall_mem_cons]
  refine ⟨⟨fun c hc => hdigits c (List.mem_of_mem_take hc), ?_⟩, rfl, isNumberChar_toString_int _⟩
  split
  · simp
  · exact List.forall_mem_cons.mpr ⟨rfl, fun c hc => hdigits c (List.mem_of_mem_tail hc)⟩

theorem isNumberChar_deckChars : ∀ c ∈ d.deckChars, isNumberChar c = true := by
  rw [deckChars]
  split
  · exact isNumberChar_positional
  · exact isNumberChar_exponential

theorem head?_positional : ∃ c cs, d.positional = c :: cs ∧ c.isDigit = true := by
  obtain ⟨c, cs, hdigits⟩ := List.exists_cons_of_ne_nil (digitChars_ne_nil (d := d))
  have hc := isDigit_digitChars (d := d) c (by simp [hdigits])
  simp only [positional, hdigits, List.cons_append]
  split
  · exact ⟨c, _, rfl, hc⟩
  · split
    · next hlt =>
      rw [List.take_cons (by omega)]
      exact ⟨c, _, rfl, hc⟩
    · exact ⟨'0', _, rfl, rfl⟩

theorem head?_deckChars : ∃ c cs, d.deckChars = c :: cs ∧ c.isDigit = true := by
  obtain ⟨c, cs, hdigits⟩ := List.exists_cons_of_ne_nil (digitChars_ne_nil (d := d))
  have hc := isDigit_digitChars (d := d) c (by simp [hdigits])
  rw [deckChars]
  split
  · exact head?_positional
  · exact ⟨c, _, by rw [exponential, hdigits]; rfl, hc⟩

theorem ofChars?_deckChars (d : Decimal) :
    ∃ d', ofChars? d.deckChars = some d' ∧ d'.value = d.value := by
  rw [deckChars]
  split
  · exact ofChars?_positional d
  · exact ofChars?_exponential d

end Decimal

/-- The characters of a text are these, after a minus sign if it is negative. -/
def signed (negative : Bool) (cs : List Char) : List Char :=
  if negative then '-' :: cs else cs

theorem splitSign_signed (negative : Bool) {c : Char} {cs : List Char} (hc : c.isDigit = true) :
    splitSign (signed negative (c :: cs)) = (negative, c :: cs) := by
  cases negative
  · change splitSign (c :: cs) = _
    exact splitSign_digits (by simpa using hc)
  · rfl

theorem EntryWord.of_signed {negative : Bool} {c : Char} {cs : List Char} {y : Float}
    {d : Decimal} (hall : ∀ c' ∈ c :: cs, isNumberChar c' = true) (hc : c.isDigit = true)
    (hd : Decimal.ofChars? (c :: cs) = some d) (hy : (if negative then -d.toFloat else d.toFloat) = y) :
    EntryWord Float (String.ofList (signed negative (c :: cs))) (some y) := by
  refine .of_number ?_ ?_ ?_
  · rw [String.toList_ofList, signed]
    split
    · exact List.forall_mem_cons.mpr ⟨rfl, hall⟩
    · exact hall
  · rw [String.toList_ofList]
    cases negative
    · exact .digit hc
    · exact .minus hc
  · change realOfText? _ = _
    simp only [realOfText?, String.toList_ofList, splitSign_signed negative hc, hd, Option.map_some,
      hy]

theorem neg_or_packed {negative : Bool} {m : ℕ} {e : ℤ} (hc : IsCanonical m e) (he : e ≤ 971) :
    (if negative then -packed false m e else packed false m e) = packed negative m e := by
  cases negative
  · rfl
  · exact neg_packed hc he

theorem entryWord_deckText {x : Float} (hx : x.isFinite = true) :
    EntryWord Float (deckText x) (some x) := by
  obtain ⟨negative, m, e, hbinary⟩ := ofFloat_of_isFinite hx
  rw [deckText, hbinary, Binary.text]
  rcases Nat.eq_zero_or_pos m with rfl | hm
  · obtain rfl := eq_zero hbinary
    refine EntryWord.of_signed (d := ⟨0, 0⟩) (List.all_eq_true.mp rfl) (by decide) (by decide) ?_
    cases negative <;> decide
  · obtain ⟨hc, he, rfl⟩ := eq_packed hbinary hm
    obtain ⟨d, hd, hvalue⟩ := Decimal.ofChars?_deckChars (Decimal.shortest m e)
    obtain ⟨c, cs, hchars, hdigit⟩ := Decimal.head?_deckChars (d := Decimal.shortest m e)
    have hall := Decimal.isNumberChar_deckChars (d := Decimal.shortest m e)
    rw [hchars] at hd hall
    rw [if_neg hm.ne', hchars]
    refine EntryWord.of_signed hall hdigit hd ?_
    rw [Decimal.toFloat_eq (hvalue ▸ roundsTo_shortest hc) hc he]
    exact neg_or_packed hc he

/-- An integer that is read as a real is the same integer as a whole number. -/
theorem entryWord_index (n : Int32) :
    ∃ y, EntryWord Float (integerText n) (some y) ∧ wholeNumber y = n := by
  obtain ⟨k, hk⟩ : ∃ k, n.toInt.natAbs = k := ⟨_, rfl⟩
  obtain ⟨negative, hneg⟩ : ∃ negative : Bool, decide (n.toInt < 0) = negative := ⟨_, rfl⟩
  have hchars : integerText n = String.ofList (signed negative (Nat.toDigits 10 k)) := by
    rw [← String.toList_inj, integerText, toList_toString_int, String.toList_ofList, signed, ← hneg, hk]
    simp
  have hn : (if negative then -(k : ℤ) else k) = n.toInt := by
    subst hneg
    by_cases h : n.toInt < 0 <;> simp [h] <;> omega
  obtain ⟨c, cs, hdigits⟩ := List.exists_cons_of_ne_nil (Nat.toDigits_ne_nil (n := k) (b := 10))
  have hall := isNumberChar_toDigits k
  have hdigit : c.isDigit = true := isDigit_of_mem_toDigits (n := k) (by simp [hdigits])
  have hd : Decimal.ofChars? (Nat.toDigits 10 k) = some ⟨k, 0⟩ := by
    have hend : Decimal.EndsDigits [] := by simp [Decimal.EndsDigits]
    have h := Decimal.ofChars?_whole (fun c hc => isDigit_of_mem_toDigits hc)
      (Nat.toDigits_ne_nil (n := k) (b := 10)) hend rfl
    rwa [List.append_nil, digitsValue_toDigits] at h
  rw [hdigits] at hchars hall hd
  rw [hchars]
  refine ⟨_, EntryWord.of_signed hall hdigit hd rfl, ?_⟩
  rcases Nat.eq_zero_or_pos k with rfl | hpos
  · have hzero : n.toInt = 0 := Int.natAbs_eq_zero.mp hk
    obtain rfl : n = 0 := Int32.toInt_inj.mp hzero
    subst hneg
    decide +kernel
  · have hlt : k < 2 ^ 53 := by
      have := n.le_toInt
      have := n.toInt_lt
      omega
    obtain ⟨m, e, hc, hlow, hle, hvalue, hm, -⟩ := exists_canonical hpos hlt
    rw [Decimal.toFloat_eq (m := m) (e := e) (.of_eq (by simpa [Decimal.value] using hvalue)) hc
      (by omega), neg_or_packed hc (by omega), wholeNumber, ofFloat_packed negative hc (by omega)]
    have hwhole : m * 2 ^ e.toNat / 2 ^ (-e).toNat = k := by
      rw [Int.toNat_of_nonpos hle, hm, Nat.pow_zero, Nat.mul_one, Nat.mul_div_cancel _ (by positivity)]
    simp only [Nat.pow_eq, hwhole, hn, Int32.ofIntClamp_toInt]

end ReservoirDeck
