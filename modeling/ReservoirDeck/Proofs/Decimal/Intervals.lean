import ReservoirDeck.Decimal.Shortest
import ReservoirDeck.Proofs.Decimal.Values

/-!
The digits that are found for a binary64 number. They stand for a number in its rounding interval,
so they are read as the number again.
-/

namespace ReservoirDeck

namespace RoundingInterval

variable {i : RoundingInterval} {n : ℕ}

theorem contains_of_nearest? (h : i.nearest? = some n) : i.contains n = true := by
  simp only [nearest?] at h
  split at h <;> cases h
  · next h₁ h₂ => split <;> assumption
  · assumption
  · assumption

theorem contains_of_search? {count : ℕ} {a : ℤ} {d : Decimal} (h : i.search? count a = some d) :
    (i.inUnits d.exponent).contains d.digits = true := by
  induction count generalizing a with
  | zero => cases h
  | succ count ih =>
    rw [search?] at h
    split at h
    · next digits hdigits =>
      cases h
      exact contains_of_nearest? hdigits
    · exact ih h

end RoundingInterval

theorem zpow_mul_pow_toNat {b : ℚ} (hb : b ≠ 0) (a : ℤ) :
    b ^ a * b ^ (-a).toNat = b ^ a.toNat := by
  rw [← zpow_natCast, ← zpow_natCast, ← zpow_add₀ hb]
  congr 1
  omega

variable {m : ℕ} {e : ℤ}

/-- The ends of the rounding interval and the numbers of units, over the denominator. -/
theorem inUnits_ofBinary (hc : IsCanonical m e) (a : ℤ) {i : RoundingInterval}
    (hi : (RoundingInterval.ofBinary m e).inUnits a = i) :
    ∃ c : ℚ, 0 < c ∧ ((m : ℚ) - halfBelow m e) * 2 ^ e * c = i.low ∧
      ((m : ℚ) + 1 / 2) * 2 ^ e * c = i.high ∧
        ∀ n : ℕ, (n : ℚ) * 10 ^ a * c = (n * i.denominator : ℕ) := by
  have htwo := zpow_mul_pow_toNat (b := 2) (by norm_num) e
  have hten := zpow_mul_pow_toNat (b := 10) (by norm_num) a
  obtain ⟨below, hbelow, hcast, hle⟩ : ∃ below : ℕ,
      (if m = Binary.minNormal ∧ Binary.minExponent < e then 1 else 2) = below ∧
        (below : ℚ) = 4 * halfBelow m e ∧ below ≤ 4 * m := by
    have hm := hc.pos
    by_cases h : m = 2 ^ 52 ∧ -1074 < e
    · exact ⟨1, if_pos h, by rw [halfBelow, if_pos h]; norm_num, by omega⟩
    · exact ⟨2, if_neg h, by rw [halfBelow, if_neg h]; norm_num, by omega⟩
  subst hi
  simp only [RoundingInterval.inUnits, RoundingInterval.ofBinary, hbelow, Nat.pow_eq]
  refine ⟨4 * 2 ^ (-e).toNat * 10 ^ (-a).toNat, by positivity, ?_, ?_, fun n => ?_⟩
  · push_cast [hle]
    rw [← htwo, hcast]
    ring
  · push_cast
    rw [← htwo]
    ring
  · push_cast
    rw [← hten]
    ring

/-- A whole number of units in the rounding interval rounds to the number. -/
theorem roundsTo_of_contains (hc : IsCanonical m e) {a : ℤ} {n : ℕ}
    (h : ((RoundingInterval.ofBinary m e).inUnits a).contains n = true) :
    RoundsTo (n * 10 ^ a) m e := by
  have hclosed : ((RoundingInterval.ofBinary m e).inUnits a).closed = (m % 2 == 0) := rfl
  generalize hi : (RoundingInterval.ofBinary m e).inUnits a = i at h hclosed
  obtain ⟨c, hpos, hlow, hhigh, hvalue⟩ := inUnits_ofBinary hc a hi
  simp only [RoundingInterval.contains, hclosed] at h
  by_cases heven : (m % 2 == 0) = true
  · simp only [heven, if_true, Bool.and_eq_true, decide_eq_true_eq] at h
    refine ⟨le_of_mul_le_mul_right ?_ hpos, le_of_mul_le_mul_right ?_ hpos, fun _ => ?_⟩
    · rw [hlow, hvalue]
      exact_mod_cast h.1
    · rw [hhigh, hvalue]
      exact_mod_cast h.2
    · simpa using heven
  · simp only [heven, if_false, Bool.false_eq_true, Bool.and_eq_true, decide_eq_true_eq] at h
    have hlt : ((m : ℚ) - halfBelow m e) * 2 ^ e < n * 10 ^ a := by
      refine lt_of_mul_lt_mul_right ?_ hpos.le
      rw [hlow, hvalue]
      exact_mod_cast h.1
    have hgt : n * 10 ^ a < ((m : ℚ) + 1 / 2) * 2 ^ e := by
      refine lt_of_mul_lt_mul_right ?_ hpos.le
      rw [hhigh, hvalue]
      exact_mod_cast h.2
    refine ⟨hlt.le, hgt.le, ?_⟩
    rintro (heq | heq)
    · exact absurd heq hlt.ne'
    · exact absurd heq hgt.ne

theorem value_exact (m : ℕ) (e : ℤ) : (Decimal.exact m e).value = m * 2 ^ e := by
  have htwo := zpow_mul_pow_toNat (b := 2) (by norm_num) e
  have hten : (10 : ℚ) ^ min e 0 = (2 ^ (-e).toNat * 5 ^ (-e).toNat)⁻¹ := by
    have hmin : min e 0 = -((-e).toNat : ℤ) := by omega
    rw [hmin, zpow_neg, zpow_natCast, ← mul_pow]
    norm_num
  have h₂ : (2 : ℚ) ^ (-e).toNat ≠ 0 := by positivity
  have h₅ : (5 : ℚ) ^ (-e).toNat ≠ 0 := by positivity
  simp only [Decimal.value, Decimal.exact, Nat.pow_eq]
  push_cast
  rw [hten, ← htwo]
  field_simp

theorem roundsTo_shortest (hc : IsCanonical m e) : RoundsTo (Decimal.shortest m e).value m e := by
  rw [Decimal.shortest]
  cases hd : (RoundingInterval.ofBinary m e).search? 24 (Decimal.coarsest m e) with
  | some d => exact roundsTo_of_contains hc (RoundingInterval.contains_of_search? hd)
  | none => exact .of_eq (value_exact m e)

end ReservoirDeck
