import Mathlib.Tactic.FieldSimp
import ReservoirDeck.Proofs.Decimal.Packing

/-!
Products and quotients of binary64 numbers, and powers of ten among them. Each is rounded once, from
its exact value.
-/

namespace ReservoirDeck

open Float.Model Float.Model.UnpackedFloat

theorem stands_exact {k : ℕ} {v : ℚ} (h : v = k) :
    Stands (.ofMantissaAndAccuracy k .exact) v :=
  ⟨0, le_rfl, one_pos, by simp [ExtendedMantissa.ofMantissaAndAccuracy],
    by simp [ExtendedMantissa.ofMantissaAndAccuracy, h]⟩

theorem stands_quotient (n : ℕ) {d : ℕ} (hd : 0 < d) :
    Stands (.ofMantissaAndAccuracy (n / d) (accuracyOfFraction (n % d) d)) (n / d : ℚ) := by
  have hpos : (0 : ℚ) < d := by exact_mod_cast hd
  have hlt : ((n % d : ℕ) : ℚ) < d := by exact_mod_cast Nat.mod_lt n hd
  have hvalue : (n / d : ℚ) = (n / d : ℕ) + (n % d : ℕ) / d := by
    have hsum : ((n % d : ℕ) : ℚ) + d * (n / d : ℕ) = n := by exact_mod_cast Nat.mod_add_div n d
    rw [div_eq_iff hpos.ne', add_mul, div_mul_cancel₀ _ hpos.ne']
    linarith
  rw [hvalue]
  generalize n / d = q
  generalize n % d = rest at hlt
  by_cases hzero : rest = 0
  · simp only [accuracyOfFraction, hzero, if_true]
    exact stands_exact (by simp)
  · have hrest : (0 : ℚ) < rest := by exact_mod_cast Nat.pos_of_ne_zero hzero
    have hfraction : (rest / d : ℚ) * d = rest := div_mul_cancel₀ _ hpos.ne'
    have hlow : (0 : ℚ) < rest / d := by positivity
    have hhigh : (rest / d : ℚ) < 1 := (div_lt_one hpos).mpr hlt
    generalize (rest / d : ℚ) = f at hfraction hlow hhigh ⊢
    simp only [accuracyOfFraction, hzero, if_false]
    rcases hcompare : compare (2 * rest) d with _ | _ | _
    · have hhalf : 2 * (rest : ℚ) < d := by exact_mod_cast compare_lt_iff_lt.mp hcompare
      rw [← hfraction] at hhalf
      refine ⟨2 * f, by linarith, by nlinarith, ?_, ?_⟩ <;>
        simp [ExtendedMantissa.ofMantissaAndAccuracy, hlow.ne']
    · have hhalf : 2 * (rest : ℚ) = d := by exact_mod_cast compare_eq_iff_eq.mp hcompare
      rw [← hfraction] at hhalf
      have hf : f = 1 / 2 := by nlinarith
      refine ⟨0, le_rfl, one_pos, ?_, ?_⟩ <;>
        simp [ExtendedMantissa.ofMantissaAndAccuracy, hf]
    · have hhalf : (d : ℚ) < 2 * rest := by exact_mod_cast compare_gt_iff_gt.mp hcompare
      rw [← hfraction] at hhalf
      have hf : 1 / 2 < f := by nlinarith
      have hne : 2 * f - 1 ≠ 0 := by linarith
      refine ⟨2 * f - 1, by linarith, by linarith, ?_, ?_⟩ <;>
        simp [ExtendedMantissa.ofMantissaAndAccuracy, hne]

theorem le_target {k : ℕ} {a : ℤ} (h : 2 ^ 52 ≤ k ∨ a ≤ -1074) : a ≤ target k a := by
  rw [target_eq]
  rcases h with h | h
  · have := (Nat.le_log2 (by omega)).mpr h
    omega
  · omega

theorem roundWithAccuracy_exact {k : ℕ} {a : ℤ} (hk : 2 ^ 52 ≤ k ∨ a ≤ -1074) {m : ℕ} {e : ℤ}
    (h : RoundsTo (k * 2 ^ a) m e) (hc : IsCanonical m e) (s : Sign) :
    roundWithAccuracy Format.binary64 s k a .exact = .finite s m e hc.pos := by
  refine roundWithAccuracy_eq (stands_exact ?_) (le_target hk) ?_ h hc s
  · exact mul_div_cancel_right₀ _ (zpow_two_pos a).ne'
  · exact hk.imp_left fun hk => by omega

/-- A dividend with enough bits more than the divisor gives a mantissa in full. -/
theorem pow_le_quotient {m₁ m₂ n : ℕ} (h₁ : 0 < m₁) (h₂ : 0 < m₂)
    (h : 52 + (m₂.log2 + 1) ≤ m₁.log2 + n) : 2 ^ 52 ≤ m₁ * 2 ^ n / m₂ := by
  rw [Nat.le_div_iff_mul_le h₂]
  calc
    2 ^ 52 * m₂ ≤ 2 ^ 52 * 2 ^ (m₂.log2 + 1) := Nat.mul_le_mul_left _ Nat.lt_log2_self.le
    _ = 2 ^ (52 + (m₂.log2 + 1)) := (Nat.pow_add ..).symm
    _ ≤ 2 ^ (m₁.log2 + n) := Nat.pow_le_pow_right (by decide) h
    _ = 2 ^ m₁.log2 * 2 ^ n := Nat.pow_add ..
    _ ≤ m₁ * 2 ^ n := Nat.mul_le_mul_right _ (Nat.log2_self_le h₁.ne')

theorem quotient_div_unit (m₁ : ℕ) {m₂ n : ℕ} (h₂ : 0 < m₂) {e₁ e₂ t : ℤ} (hn : e₁ = n + e₂ + t) :
    (m₁ * 2 ^ e₁ / (m₂ * 2 ^ e₂) / 2 ^ t : ℚ) = ((m₁ * 2 ^ n : ℕ) : ℚ) / m₂ := by
  have hunit : (2 : ℚ) ^ e₁ = 2 ^ n * 2 ^ e₂ * 2 ^ t := by
    rw [← zpow_natCast, ← zpow_add₀ (by norm_num), ← zpow_add₀ (by norm_num), hn]
  have hm₂ : (m₂ : ℚ) ≠ 0 := by exact_mod_cast h₂.ne'
  have := (zpow_two_pos e₂).ne'
  have := (zpow_two_pos t).ne'
  rw [hunit]
  push_cast
  field_simp

theorem divCore_eq {m₁ m₂ : ℕ} (h₁ : 0 < m₁) (h₂ : 0 < m₂) (e₁ e₂ : ℤ) {m : ℕ} {e : ℤ}
    (h : RoundsTo (m₁ * 2 ^ e₁ / (m₂ * 2 ^ e₂)) m e) (hc : IsCanonical m e) (s : Sign) :
    roundWithAccuracy Format.binary64 s (divCore Format.binary64 m₁ e₁ m₂ e₂).1
      (divCore Format.binary64 m₁ e₁ m₂ e₂).2.1 (divCore Format.binary64 m₁ e₁ m₂ e₂).2.2 =
        .finite s m e hc.pos := by
  obtain ⟨t, ht, hle⟩ : ∃ t : ℤ, min (e₁ - e₂) (Format.binary64.targetExponent
      (totalExponent m₁ e₁ - totalExponent m₂ e₂)) = t ∧
      t = min (e₁ - e₂) (max (m₁.log2 + e₁ - (m₂.log2 + e₂) - 53) (-1074)) := by
    refine ⟨_, rfl, ?_⟩
    congr 1
    have hbits : Format.binary64.mantissaBits = 53 := rfl
    simp only [Format.targetExponent, totalExponent, hbits, Format.minExponent]
    norm_num
    omega
  obtain ⟨n, hn⟩ : ∃ n : ℕ, (e₁ - e₂ - t).toNat = n := ⟨_, rfl⟩
  have hcore : divCore Format.binary64 m₁ e₁ m₂ e₂ =
      (m₁ * 2 ^ n / m₂, t, accuracyOfFraction (m₁ * 2 ^ n % m₂) m₂) := by
    simp only [divCore, ht, hn, Nat.shiftLeft_eq]
  rw [hcore]
  have hlarge : 2 ^ 52 ≤ m₁ * 2 ^ n / m₂ ∨ t ≤ -1074 := by
    by_cases hleast : t ≤ -1074
    · exact .inr hleast
    · exact .inl (pow_le_quotient h₁ h₂ (by omega))
  refine roundWithAccuracy_eq (v := m₁ * 2 ^ e₁ / (m₂ * 2 ^ e₂)) ?_ (le_target hlarge) ?_ h hc s
  · rw [quotient_div_unit (n := n) m₁ h₂ (by omega)]
    exact stands_quotient _ h₂
  · exact hlarge.imp_left fun hlarge => by omega

section Operations

variable {m₁ m₂ m : ℕ} {e₁ e₂ e : ℤ} (h₁ : IsCanonical m₁ e₁) (he₁ : e₁ ≤ 971)
  (h₂ : IsCanonical m₂ e₂) (he₂ : e₂ ≤ 971) (hc : IsCanonical m e)
include h₁ he₁ h₂ he₂ hc

theorem packed_mul (h : RoundsTo (m₁ * 2 ^ e₁ * (m₂ * 2 ^ e₂)) m e) :
    packed false m₁ e₁ * packed false m₂ e₂ = packed false m e := by
  change Float.ofModel (.pack (UnpackedFloat.mul _ (packed false m₁ e₁).toModel.unpack
    (packed false m₂ e₂).toModel.unpack)) = _
  rw [unpack_toModel, unpack_toModel, ofFloat_packed false h₁ he₁, ofFloat_packed false h₂ he₂,
    unpacked_finite false h₁.pos, unpacked_finite false h₂.pos, packed_eq false hc.pos]
  delta UnpackedFloat.mul
  dsimp only
  have hlarge : 2 ^ 52 ≤ m₁ * m₂ ∨ e₁ + e₂ ≤ -1074 := by
    rcases h₁.normal with hm₁ | rfl
    · exact .inl (hm₁.trans (Nat.le_mul_of_pos_right _ h₂.pos))
    · rcases h₂.normal with hm₂ | rfl
      · exact .inl (hm₂.trans (Nat.le_mul_of_pos_left _ h₁.pos))
      · exact .inr (by decide)
  rw [roundWithAccuracy_exact hlarge _ hc]
  · rfl
  · rw [zpow_add₀ (by norm_num)]
    push_cast
    convert h using 1
    ring

theorem packed_div (h : RoundsTo (m₁ * 2 ^ e₁ / (m₂ * 2 ^ e₂)) m e) :
    packed false m₁ e₁ / packed false m₂ e₂ = packed false m e := by
  change Float.ofModel (.pack (UnpackedFloat.div _ (packed false m₁ e₁).toModel.unpack
    (packed false m₂ e₂).toModel.unpack)) = _
  rw [unpack_toModel, unpack_toModel, ofFloat_packed false h₁ he₁, ofFloat_packed false h₂ he₂,
    unpacked_finite false h₁.pos, unpacked_finite false h₂.pos, packed_eq false hc.pos]
  delta UnpackedFloat.div
  dsimp only
  rw [divCore_eq h₁.pos h₂.pos e₁ e₂ h hc]
  rfl

end Operations

theorem RoundsTo.of_eq {v : ℚ} {m : ℕ} {e : ℤ} (h : v = m * 2 ^ e) : RoundsTo v m e := by
  have hpos := zpow_two_pos e
  have hbelow : 0 < halfBelow m e := by
    rw [halfBelow]
    split <;> norm_num
  subst h
  refine ⟨?_, ?_, ?_⟩
  · exact mul_le_mul_of_nonneg_right (by linarith) hpos.le
  · exact mul_le_mul_of_nonneg_right (by linarith) hpos.le
  · rintro (h | h) <;>
    · have := mul_right_cancel₀ hpos.ne' h
      linarith

theorem exists_canonical {k : ℕ} (hpos : 0 < k) (hlt : k < 2 ^ 53) :
    ∃ m e, IsCanonical m e ∧ -52 ≤ e ∧ e ≤ 0 ∧ (k : ℚ) = m * 2 ^ e ∧
      m = k * 2 ^ (-e).toNat ∧ e = target k 0 := by
  have hlow := Nat.log2_self_le hpos.ne'
  have hhigh := Nat.lt_log2_self (n := k)
  have hlog : k.log2 ≤ 52 := by
    have := (Nat.log2_lt hpos.ne').mpr hlt
    omega
  refine ⟨k * 2 ^ (52 - k.log2), (k.log2 : ℤ) - 52, ⟨by positivity, ?_, by omega, .inl ?_⟩,
    by omega, by omega, ?_, by congr 2; omega, by rw [target_eq]; omega⟩
  · calc
      k * 2 ^ (52 - k.log2) < 2 ^ (k.log2 + 1) * 2 ^ (52 - k.log2) :=
        Nat.mul_lt_mul_of_pos_right hhigh (by positivity)
      _ = 2 ^ 53 := by rw [← Nat.pow_add]; congr 1; omega
  · calc
      2 ^ 52 = 2 ^ k.log2 * 2 ^ (52 - k.log2) := by rw [← Nat.pow_add]; congr 1; omega
      _ ≤ k * 2 ^ (52 - k.log2) := Nat.mul_le_mul_right _ hlow
  · push_cast
    rw [mul_assoc, ← zpow_natCast, ← zpow_add₀ (by norm_num)]
    have : ((52 - k.log2 : ℕ) : ℤ) + ((k.log2 : ℤ) - 52) = 0 := by omega
    rw [this, zpow_zero, mul_one]

theorem round_whole {k m : ℕ} {e : ℤ} (hc : IsCanonical m e) (hm : m = k * 2 ^ (-e).toNat)
    (he : e = target k 0) (hle : e ≤ 0) (s : Sign) :
    UnpackedFloat.round Format.binary64 s k 0 = .finite s m e hc.pos := by
  have hexponent : (0 : ℤ) - ((0 - e).toNat : ℕ) = e := by omega
  have hmantissa : k <<< (0 - e).toNat = m := by
    rw [Nat.shiftLeft_eq, hm]
    congr 2
    omega
  rw [target] at he
  have hdecreased : decreaseExponent k 0 (Format.binary64.targetExponent (totalExponent k 0)) =
      (m, e) := by
    simp only [decreaseExponent, ← he, hexponent, hmantissa]
  rw [UnpackedFloat.round, hdecreased]
  exact roundWithAccuracy_exact (hc.normal.imp_right (·.le)) (.of_eq rfl) hc s

theorem toFloat_whole {k : ℕ} (hpos : 0 < k) (hlt : k < 2 ^ 53) :
    ∃ m e, IsCanonical m e ∧ e ≤ 971 ∧ (k : ℚ) = m * 2 ^ e ∧
      k.toUInt64.toFloat = packed false m e := by
  obtain ⟨m, e, hc, hlow, hle, hvalue, hm, he⟩ := exists_canonical hpos hlt
  refine ⟨m, e, hc, by omega, hvalue, ?_⟩
  have hk : k.toUInt64.toNat = k := by
    rw [Nat.toUInt64, UInt64.toNat_ofNat']
    omega
  have hsign : compare (k : ℤ) 0 = .gt := compare_gt_iff_gt.mpr (by omega)
  change Float.ofModel (.pack (UnpackedFloat.normalize _ (k.toUInt64.toNat : ℤ) 0 .positive)) = _
  rw [hk]
  simp only [UnpackedFloat.normalize, hsign, Int.toNat_natCast]
  rw [round_whole hc hm he hle, packed_eq false hc.pos]
  rfl

theorem exactlyRepresentablePowersOfTen_eq {n : ℕ}
    (hn : n < Float.exactlyRepresentablePowersOfTen.size) :
    ∃ m e, IsCanonical m e ∧ e ≤ 971 ∧ (10 ^ n : ℚ) = m * 2 ^ e ∧
      Float.exactlyRepresentablePowersOfTen[n] = packed false m e := by
  have htable : ∀ i : Fin 23,
      Binary.ofFloat Float.exactlyRepresentablePowersOfTen[i] =
          .finite false (10 ^ i.val * 2 ^ 52 / 2 ^ (10 ^ i.val).log2)
            (((10 ^ i.val).log2 : ℤ) - 52) ∧
        10 ^ i.val * 2 ^ 52 / 2 ^ (10 ^ i.val).log2 * 2 ^ (10 ^ i.val).log2 =
          10 ^ i.val * 2 ^ 52 := by
    decide
  obtain ⟨hbinary, hexact⟩ := htable ⟨n, hn⟩
  dsimp only at hbinary hexact
  generalize 10 ^ n * 2 ^ 52 / 2 ^ (10 ^ n).log2 = m at hbinary hexact
  generalize (10 ^ n).log2 = k at hbinary hexact
  have hpos : 0 < m := by
    rcases Nat.eq_zero_or_pos m with rfl | hpos
    · have : 0 < 10 ^ n * 2 ^ 52 := by positivity
      omega
    · exact hpos
  obtain ⟨hc, he, hpacked⟩ := eq_packed hbinary hpos
  refine ⟨m, _, hc, he, ?_, hpacked⟩
  have hexact : (m : ℚ) * 2 ^ k = 10 ^ n * 2 ^ 52 := by exact_mod_cast hexact
  rw [zpow_sub₀ (by norm_num), mul_div_assoc', zpow_natCast, hexact]
  norm_num

/-- The product or quotient of a whole number and a power of ten is rounded once. -/
theorem ofScientific_small {k n m : ℕ} {e : ℤ} {below : Bool} (hpos : 0 < k) (hk : k < 2 ^ 53)
    (hn : n ≤ 22) (hc : IsCanonical m e)
    (h : RoundsTo (if below then k / 10 ^ n else k * 10 ^ n) m e) :
    Float.ofScientific k below n = packed false m e := by
  obtain ⟨m₁, e₁, hc₁, he₁, hvalue₁, hpacked₁⟩ := toFloat_whole hpos hk
  obtain ⟨m₂, e₂, hc₂, he₂, hvalue₂, hpacked₂⟩ :=
    exactlyRepresentablePowersOfTen_eq (n := n) (Nat.lt_of_le_of_lt hn (by decide))
  rw [hvalue₁, hvalue₂] at h
  simp only [Float.ofScientific, dif_pos (And.intro hk hn), hpacked₁, hpacked₂]
  cases below
  · exact packed_mul hc₁ he₁ hc₂ he₂ hc h
  · exact packed_div hc₁ he₁ hc₂ he₂ hc h

theorem ofScientific_large {k m : ℕ} {a e : ℤ} (hpos : 0 < k) (ha : a ≤ 2048)
    (ha' : -2048 - (k.log2 : ℤ) ≤ a) (hc : IsCanonical m e) (h : RoundsTo (k * 10 ^ a) m e) :
    Float.ofModel (Float.Model.ofScientific k a) = packed false m e := by
  have hrounded : UnpackedFloat.ofScientific Format.binary64 k a = .finite .positive m e hc.pos := by
    rw [UnpackedFloat.ofScientific, dif_neg hpos.ne', if_neg (by norm_num; omega),
      if_neg (by norm_num; omega)]
    by_cases hnonneg : 0 ≤ a
    · rw [if_pos hnonneg]
      have hmantissa : Format.binary64.mantissaBits = 53 := rfl
      have hlarge : 2 ^ 52 ≤ k * 2 ^ 53 * 10 ^ a.toNat := by
        have : 0 < k * 10 ^ a.toNat := by positivity
        have : k * 2 ^ 53 * 10 ^ a.toNat = 2 ^ 53 * (k * 10 ^ a.toNat) := by ring
        omega
      delta UnpackedFloat.mul
      dsimp only
      rw [hmantissa, Nat.shiftLeft_eq]
      refine roundWithAccuracy_exact (.inl hlarge) ?_ hc .positive
      convert h using 1
      have hpower : (10 : ℚ) ^ a = 10 ^ a.toNat := by
        rw [← zpow_natCast, Int.toNat_of_nonneg hnonneg]
      rw [hpower]
      push_cast
      norm_num
      ring
    · rw [if_neg hnonneg]
      delta UnpackedFloat.div
      dsimp only
      refine divCore_eq hpos (by positivity) 0 0 ?_ hc .positive
      convert h using 1
      have hpower : (10 : ℚ) ^ a = (10 ^ (-a).toNat)⁻¹ := by
        rw [← zpow_natCast, Int.toNat_of_nonneg (by omega), ← zpow_neg, neg_neg]
      rw [hpower]
      simp [div_eq_mul_inv]
  rw [Float.Model.ofScientific, hrounded, packed_eq false hc.pos]
  rfl

theorem ofScientific_eq {k n m : ℕ} {a e : ℤ} {below : Bool} (hpos : 0 < k)
    (hn : a = if below then -(n : ℤ) else n) (ha : a ≤ 2048) (ha' : -2048 - (k.log2 : ℤ) ≤ a)
    (hc : IsCanonical m e) (h : RoundsTo (k * 10 ^ a) m e) :
    Float.ofScientific k below n = packed false m e := by
  by_cases hsmall : k < 2 ^ 53 ∧ n ≤ 22
  · refine ofScientific_small hpos hsmall.1 hsmall.2 hc ?_
    convert h using 1
    subst hn
    cases below <;> simp [zpow_neg, div_eq_mul_inv]
  · have hexponent : (if below then Int.negOfNat n else Int.ofNat n) = a := by
      subst hn
      cases below
      · rfl
      · simp [Int.negOfNat_eq]
    simp only [Float.ofScientific, dif_neg hsmall, hexponent]
    exact ofScientific_large hpos ha ha' hc h

end ReservoirDeck
