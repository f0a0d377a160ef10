import ReservoirDeck.Decimal.Read
import ReservoirDeck.Proofs.Decimal.Arithmetic

/-!
Values of decimals. The binary64 number of a decimal depends on its value alone, and is the one that
the value rounds to.
-/

namespace ReservoirDeck

/-- The number that a decimal stands for. -/
def Decimal.value (d : Decimal) : ℚ :=
  d.digits * 10 ^ d.exponent

theorem zpow_two_le_zpow_ten {a b : ℤ} (hb : 0 ≤ b) (h : a ≤ 3 * b) : (2 : ℚ) ^ a ≤ 10 ^ b := by
  calc
    (2 : ℚ) ^ a ≤ 2 ^ (3 * b) := zpow_two_le h
    _ = 8 ^ b := by
      rw [zpow_mul]
      norm_num
    _ ≤ 10 ^ b := zpow_le_zpow_left₀ hb (by norm_num) (by norm_num)

theorem RoundsTo.bounds {v : ℚ} {m : ℕ} {e : ℤ} (h : RoundsTo v m e) (hc : IsCanonical m e)
    (he : e ≤ 971) : (2 : ℚ) ^ (-1075 : ℤ) ≤ v ∧ v < 2 ^ (1024 : ℤ) := by
  have hhalf := halfBelow_le m e
  have hpos : (1 : ℚ) ≤ m := by exact_mod_cast hc.pos
  have hlt : (m : ℚ) + 1 ≤ 2 ^ (53 : ℤ) := by exact_mod_cast hc.lt
  constructor
  · calc
      (2 : ℚ) ^ (-1075 : ℤ) = 1 / 2 * 2 ^ (-1074 : ℤ) := by
        rw [show (-1075 : ℤ) = -1 + -1074 by norm_num, zpow_add₀ (by norm_num)]
        norm_num
      _ ≤ (m - halfBelow m e) * 2 ^ e :=
        mul_le_mul (by linarith) (zpow_two_le hc.least) (zpow_two_pos _).le (by linarith)
      _ ≤ v := h.low
  · calc
      v ≤ (m + 1 / 2) * 2 ^ e := h.high
      _ < 2 ^ (53 : ℤ) * 2 ^ e := mul_lt_mul_of_pos_right (by linarith) (zpow_two_pos e)
      _ = 2 ^ (53 + e) := (zpow_add₀ (by norm_num) _ _).symm
      _ ≤ 2 ^ (1024 : ℤ) := zpow_two_le (by omega)

namespace Decimal

variable {d : Decimal} {m : ℕ} {e : ℤ}

theorem length_digitChars (hd : 0 < d.digits) :
    10 ^ (d.digitChars.length - 1) ≤ d.digits ∧ d.digits < 10 ^ d.digitChars.length := by
  have hpos : 0 < d.digitChars.length := Nat.length_toDigits_pos
  refine ⟨?_, (Nat.length_toDigits_le_iff (by decide) hpos).mp le_rfl⟩
  by_cases hone : d.digitChars.length = 1
  · rw [hone]
    exact hd
  · by_contra hlt
    have := (Nat.length_toDigits_le_iff (n := d.digits) (b := 10) (by decide)
      (k := d.digitChars.length - 1) (by omega)).mpr (by omega)
    rw [digitChars] at *
    omega

theorem value_bounds (hd : 0 < d.digits) :
    (10 : ℚ) ^ d.leadingExponent ≤ d.value ∧ d.value < 10 ^ (d.leadingExponent + 1) := by
  obtain ⟨hlow, hhigh⟩ := length_digitChars hd
  have hpos : 0 < d.digitChars.length := Nat.length_toDigits_pos
  have hunit : (0 : ℚ) < 10 ^ d.exponent := zpow_pos (by norm_num) _
  constructor
  · have hcast : ((10 : ℚ) ^ ((d.digitChars.length - 1 : ℕ) : ℤ)) ≤ d.digits := by
      rw [zpow_natCast]
      exact_mod_cast hlow
    calc
      (10 : ℚ) ^ d.leadingExponent
          = 10 ^ ((d.digitChars.length - 1 : ℕ) : ℤ) * 10 ^ d.exponent := by
        rw [← zpow_add₀ (by norm_num), leadingExponent]
        congr 1
        omega
      _ ≤ d.value := mul_le_mul_of_nonneg_right hcast hunit.le
  · have hcast : (d.digits : ℚ) < 10 ^ ((d.digitChars.length : ℕ) : ℤ) := by
      rw [zpow_natCast]
      exact_mod_cast hhigh
    calc
      d.value < 10 ^ ((d.digitChars.length : ℕ) : ℤ) * 10 ^ d.exponent :=
        mul_lt_mul_of_pos_right hcast hunit
      _ = 10 ^ (d.leadingExponent + 1) := by
        rw [← zpow_add₀ (by norm_num), leadingExponent]
        congr 1
        omega

theorem leadingExponent_bounds (hd : 0 < d.digits) (h : RoundsTo d.value m e)
    (hc : IsCanonical m e) (he : e ≤ 971) :
    -400 ≤ d.leadingExponent ∧ d.leadingExponent ≤ 400 := by
  obtain ⟨hlow, hhigh⟩ := h.bounds hc he
  obtain ⟨hlow', hhigh'⟩ := value_bounds hd
  constructor
  · by_contra hlt
    have hsmall : (10 : ℚ) ^ (d.leadingExponent + 1) ≤ 2 ^ (-1075 : ℤ) := by
      rw [← neg_neg (d.leadingExponent + 1), zpow_neg, zpow_neg _ 1075]
      exact inv_anti₀ (zpow_two_pos _) (zpow_two_le_zpow_ten (by omega) (by omega))
    exact absurd (hlow.trans_lt hhigh') (not_lt.mpr hsmall)
  · by_contra hlt
    have hlarge : (2 : ℚ) ^ (1024 : ℤ) ≤ 10 ^ d.leadingExponent :=
      zpow_two_le_zpow_ten (by omega) (by omega)
    exact absurd (hlow'.trans_lt hhigh) (not_lt.mpr hlarge)

/-- A decimal that rounds to a binary64 number is read as that number. -/
theorem toFloat_eq (h : RoundsTo d.value m e) (hc : IsCanonical m e) (he : e ≤ 971) :
    d.toFloat = packed false m e := by
  have hd : 0 < d.digits := by
    by_contra hzero
    have hvalue : d.value = 0 := by simp [value, Nat.eq_zero_of_not_pos hzero]
    have hpos := (h.bounds hc he).1
    rw [hvalue] at hpos
    exact absurd (zpow_two_pos (-1075)) (not_lt.mpr hpos)
  obtain ⟨hlow, hhigh⟩ := leadingExponent_bounds hd h hc he
  have hlog : d.digitChars.length - 1 ≤ d.digits.log2 := by
    refine (Nat.le_log2 hd.ne').mpr ?_
    exact (Nat.pow_le_pow_left (by decide) _).trans (length_digitChars hd).1
  have hpos : 0 < d.digitChars.length := Nat.length_toDigits_pos
  have hexponent : d.leadingExponent = d.exponent + d.digitChars.length - 1 := rfl
  rw [value] at h
  rw [toFloat, if_neg (by omega), if_neg (by omega)]
  by_cases hneg : d.exponent < 0
  · rw [if_pos hneg]
    exact ofScientific_eq hd (by rw [if_pos rfl]; omega) (by omega) (by omega) hc h
  · rw [if_neg hneg]
    exact ofScientific_eq hd (by rw [if_neg Bool.false_ne_true]; omega) (by omega) (by omega) hc h

end Decimal

end ReservoirDeck
