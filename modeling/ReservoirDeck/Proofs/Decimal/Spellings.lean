import ReservoirDeck.Proofs.Decimal.Digits
import ReservoirDeck.Proofs.Decimal.Values

/-!
Spellings of decimals. With a point or an exponent, they are read as decimals of the same value.
-/

namespace ReservoirDeck

namespace Decimal

/-- Neither a digit nor a point comes first. -/
def EndsDigits (cs : List Char) : Prop :=
  ∀ c ∈ cs.head?, c.isDigit = false ∧ c ≠ '.'

variable {tail : List Char} {n : ℤ}

theorem takeWhile_digits {whole : List Char} (h : ∀ c ∈ whole, c.isDigit = true) (rest : List Char)
    (hrest : ∀ c ∈ rest.head?, c.isDigit = false) :
    (whole ++ rest).takeWhile Char.isDigit = whole ∧
      (whole ++ rest).dropWhile Char.isDigit = rest := by
  rw [List.takeWhile_append_of_pos h, List.dropWhile_append_of_pos h]
  cases rest with
  | nil => simp
  | cons c rest => simp [hrest c rfl]

theorem ofChars?_whole {whole : List Char} (hwhole : ∀ c ∈ whole, c.isDigit = true) (hne : whole ≠ [])
    (htail : EndsDigits tail) (hn : exponentOfChars? tail = some n) :
    ofChars? (whole ++ tail) = some ⟨digitsValue whole, n⟩ := by
  obtain ⟨htake, hdrop⟩ := takeWhile_digits hwhole tail fun c hc => (htail c hc).1
  simp only [ofChars?, htake, hdrop]
  split
  · exact absurd rfl (htail '.' rfl).2
  · simp [hne, hn]

theorem ofChars?_point (whole fraction : List Char) (hwhole : ∀ c ∈ whole, c.isDigit = true)
    (hfraction : ∀ c ∈ fraction, c.isDigit = true) (hne : whole ≠ []) (htail : EndsDigits tail)
    (hn : exponentOfChars? tail = some n) :
    ofChars? (whole ++ '.' :: (fraction ++ tail)) =
      some ⟨digitsValue (whole ++ fraction), n - fraction.length⟩ := by
  obtain ⟨htake, hdrop⟩ := takeWhile_digits hwhole ('.' :: (fraction ++ tail))
    fun c hc => by
      obtain rfl : '.' = c := by simpa using hc
      decide
  obtain ⟨htake', hdrop'⟩ := takeWhile_digits hfraction tail fun c hc => (htail c hc).1
  simp only [ofChars?, htake, hdrop, htake', hdrop']
  simp [hne, hn]

theorem digitsValue_append (cs ds : List Char) :
    digitsValue (cs ++ ds) = 10 ^ ds.length * digitsValue cs + digitsValue ds := by
  simp only [digitsValue_eq]
  rw [Nat.ofDigitChars_append, Nat.ofDigitChars_eq_ofDigitChars_zero]

theorem digitsValue_zeros (k : ℕ) : digitsValue (List.replicate k '0') = 0 := by
  rw [digitsValue_eq, Nat.ofDigitChars_replicate_zero, Nat.mul_zero]

variable {d : Decimal}

theorem isDigit_digitChars : ∀ c ∈ d.digitChars, c.isDigit = true :=
  fun _ hc => isDigit_of_mem_toDigits hc

theorem digitChars_ne_nil : d.digitChars ≠ [] :=
  Nat.toDigits_ne_nil

theorem isDigit_zeros (k : ℕ) : ∀ c ∈ List.replicate k '0', c.isDigit = true := by
  intro c hc
  rw [List.eq_of_mem_replicate hc]
  rfl

theorem ofChars?_positional (d : Decimal) :
    ∃ d', ofChars? d.positional = some d' ∧ d'.value = d.value := by
  have hend : EndsDigits [] := by simp [EndsDigits]
  have hwhole : ∀ c ∈ d.digitChars ++ List.replicate d.exponent.toNat '0', c.isDigit = true :=
    List.forall_mem_append.mpr ⟨isDigit_digitChars, isDigit_zeros _⟩
  have hvalue : digitsValue (d.digitChars ++ List.replicate d.exponent.toNat '0') =
      10 ^ d.exponent.toNat * d.digits := by
    rw [digitsValue_append, digitsValue_zeros, digitChars, digitsValue_toDigits,
      List.length_replicate, Nat.add_zero]
  have hunit : (10 : ℚ) ^ d.exponent.toNat * 10 ^ (-((-d.exponent).toNat : ℤ)) = 10 ^ d.exponent := by
    rw [← zpow_natCast, ← zpow_add₀ (by norm_num)]
    congr 1
    omega
  simp only [positional]
  generalize hws : d.digitChars ++ List.replicate d.exponent.toNat '0' = ws at hwhole hvalue
  generalize (-d.exponent).toNat = places at hunit
  have hsame : (⟨digitsValue ws, 0 - places⟩ : Decimal).value = d.value := by
    rw [value, value, hvalue, ← hunit, zero_sub]
    push_cast
    ring
  refine ⟨⟨digitsValue ws, 0 - places⟩, ?_, hsame⟩
  split
  · next hzero =>
    have hne : ws ≠ [] := by simp [← hws, digitChars_ne_nil]
    simpa [hzero] using ofChars?_whole hwhole hne hend rfl
  split
  · next hlt =>
    have hne : ws.take (ws.length - places) ≠ [] := by
      rw [← List.length_pos_iff, List.length_take]
      omega
    have hpoint := ofChars?_point (ws.take (ws.length - places))
      (ws.drop (ws.length - places)) (fun c hc => hwhole c (List.mem_of_mem_take hc))
      (fun c hc => hwhole c (List.mem_of_mem_drop hc)) hne hend rfl
    rw [List.take_append_drop, List.append_nil, List.length_drop] at hpoint
    rw [hpoint]
    congr 2
    omega
  · next hge =>
    have hpoint := ofChars?_point ['0']
      (List.replicate (places - ws.length) '0' ++ ws) (by simp)
      (List.forall_mem_append.mpr ⟨isDigit_zeros _, hwhole⟩) (by simp) hend rfl
    have hzeros : digitsValue (['0'] ++ (List.replicate (places - ws.length) '0' ++ ws)) =
        digitsValue ws := by
      rw [← List.append_assoc, ← List.replicate_one, List.replicate_append_replicate,
        digitsValue_append, digitsValue_zeros]
      simp
    rw [hzeros, List.append_nil, List.length_append, List.length_replicate] at hpoint
    rw [List.cons_append, List.cons_append]
    apply hpoint.trans
    congr 2
    omega

theorem ofChars?_exponential (d : Decimal) :
    ∃ d', ofChars? d.exponential = some d' ∧ d'.value = d.value := by
  have hend : EndsDigits ('e' :: (toString d.leadingExponent).toList) := by
    simp [EndsDigits]
  have hexponent : exponentOfChars? ('e' :: (toString d.leadingExponent).toList) =
      some d.leadingExponent := by
    rw [exponentOfChars?, if_pos (by decide), integerOfChars?_toString]
  obtain ⟨c, cs, hdigits⟩ := List.exists_cons_of_ne_nil (digitChars_ne_nil (d := d))
  have hall := isDigit_digitChars (d := d)
  rw [hdigits, List.forall_mem_cons] at hall
  have hvalue : digitsValue (c :: cs) = d.digits := by
    rw [← hdigits, digitChars, digitsValue_toDigits]
  have hplaces : d.leadingExponent - cs.length = d.exponent := by
    rw [leadingExponent, hdigits, List.length_cons]
    omega
  refine ⟨⟨d.digits, d.exponent⟩, ?_, rfl⟩
  rw [exponential, hdigits]
  cases cs with
  | nil =>
    have hread := ofChars?_whole (List.forall_mem_singleton.mpr hall.1) (by simp) hend hexponent
    simp only [List.length_nil, Nat.cast_zero, sub_zero] at hplaces
    simpa [hvalue, hplaces] using hread
  | cons c' cs =>
    have hread := ofChars?_point [c] (c' :: cs) (by simpa using hall.1) hall.2
      (by simp) hend hexponent
    rw [List.singleton_append, List.singleton_append, hvalue, hplaces] at hread
    simpa using hread

end Decimal

end ReservoirDeck
