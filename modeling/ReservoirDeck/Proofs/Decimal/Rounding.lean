import Mathlib.Data.Rat.Defs
import Mathlib.Tactic.Linarith
import Mathlib.Tactic.Positivity
import Mathlib.Tactic.Ring
import ReservoirDeck.Decimal.Binary

/-!
Rounding to binary64. A mantissa with a round bit and a sticky bit tells enough of a number to find
the whole number nearest to it, and a number that is close to a canonical one rounds to that one.
-/

namespace ReservoirDeck

open Float.Model Float.Model.UnpackedFloat

/-- The whole number nearest to `v`, and the even one of two that are as near. -/
structure IsNearest (v : ℚ) (n : ℕ) : Prop where
  low : (n : ℚ) - 1 / 2 ≤ v
  high : v ≤ n + 1 / 2
  even : v = n - 1 / 2 ∨ v = n + 1 / 2 → n % 2 = 0

theorem IsNearest.unique {v : ℚ} {n m : ℕ} (hn : IsNearest v n) (hm : IsNearest v m) : n = m := by
  have hle : ∀ {a b : ℕ}, IsNearest v a → IsNearest v b → a ≤ b := by
    intro a b ha hb
    by_contra hlt
    have hcast : (b : ℚ) + 1 ≤ a := by exact_mod_cast Nat.lt_of_not_le hlt
    have hv : v = b + 1 / 2 := le_antisymm hb.high (by linarith [ha.low])
    have hab : (a : ℚ) = b + 1 := by linarith [ha.low]
    have heq : a = b + 1 := by exact_mod_cast hab
    have h₁ := hb.even (.inr hv)
    have h₂ := ha.even (.inl (by rw [hv, hab]; ring))
    omega
  exact Nat.le_antisymm (hle hn hm) (hle hm hn)

/-- The mantissa and the round bit are the number without a rest below one half of a unit, and the
sticky bit tells whether there is one. -/
def Stands (em : ExtendedMantissa) (v : ℚ) : Prop :=
  ∃ g : ℚ, 0 ≤ g ∧ g < 1 ∧ (em.stickyBit = true ↔ g ≠ 0) ∧
    v = em.mantissa + (em.roundBit.toNat + g) / 2

theorem Stands.shiftRightOne {em : ExtendedMantissa} {v : ℚ} (h : Stands em v) :
    Stands em.shiftRightOne (v / 2) := by
  obtain ⟨g, hlow, hhigh, hsticky, rfl⟩ := h
  obtain ⟨m, round, sticky⟩ := em
  have hm : (m : ℚ) = 2 * (m / 2 : ℕ) + (m % 2 : ℕ) := by exact_mod_cast (Nat.div_add_mod m 2).symm
  have hround : ((m % 2 != 0).toNat : ℚ) = (m % 2 : ℕ) := by
    rcases Nat.mod_two_eq_zero_or_one m with h | h <;> simp [h]
  refine ⟨(round.toNat + g) / 2, by positivity, ?_, ?_, ?_⟩
  · cases round <;> simp <;> linarith
  · simp only [ExtendedMantissa.shiftRightOne, Bool.or_eq_true] at hsticky ⊢
    rw [hsticky]
    cases round
    · simp
    · have : (1 : ℚ) + g ≠ 0 := by linarith
      simpa using this
  · simp only [ExtendedMantissa.shiftRightOne, hround]
    rw [hm]
    ring

theorem Stands.shiftRight {em : ExtendedMantissa} {v : ℚ} (h : Stands em v) (n : ℕ) :
    Stands (em >>> n) (v / 2 ^ n) := by
  change Stands (n.repeat ExtendedMantissa.shiftRightOne em) _
  induction n with
  | zero => simpa [Nat.repeat] using h
  | succ n ih =>
    have heq : v / 2 ^ (n + 1) = v / 2 ^ n / 2 := by rw [pow_succ, div_div]
    rw [heq]
    exact ih.shiftRightOne

theorem Stands.isNearest {em : ExtendedMantissa} {v : ℚ} (h : Stands em v) :
    IsNearest v em.roundedMantissa := by
  obtain ⟨g, hlow, hhigh, hsticky, rfl⟩ := h
  obtain ⟨m, round, sticky⟩ := em
  have hpos : sticky = true → 0 < g := fun h => lt_of_le_of_ne hlow (Ne.symm (hsticky.mp h))
  have hzero : sticky = false → g = 0 := fun h => by
    by_contra hg
    exact absurd (hsticky.mpr hg) (by simp [h])
  have hcast : ((m + 1 : ℕ) : ℚ) = m + 1 := Nat.cast_succ m
  cases round <;> cases sticky <;>
    simp only [ExtendedMantissa.roundedMantissa, ExtendedMantissa.accuracy,
      Accuracy.roundToNearestEven, Bool.toNat_false, Bool.toNat_true, Nat.cast_zero, Nat.cast_one]
  · rw [hzero rfl]
    exact ⟨by linarith, by linarith, by rintro (h | h) <;> linarith⟩
  · have := hpos rfl
    exact ⟨by linarith, by linarith, by rintro (h | h) <;> linarith⟩
  · rw [hzero rfl]
    rcases Nat.mod_two_eq_zero_or_one m with hm | hm <;> rw [hm]
    · exact ⟨by rw [Nat.add_zero]; linarith, by rw [Nat.add_zero]; linarith, fun _ => hm⟩
    · exact ⟨by linarith, by linarith, fun _ => by omega⟩
  · have := hpos rfl
    exact ⟨by linarith, by linarith, by rintro (h | h) <;> exfalso <;> linarith⟩

/-- The exponent of the numbers around `m * 2 ^ e`. -/
def target (m : ℕ) (e : ℤ) : ℤ :=
  Format.binary64.targetExponent (totalExponent m e)

theorem target_eq (m : ℕ) (e : ℤ) : target m e = max (m.log2 + 1 + e - 53) (-1074) := by
  have hbits : Format.binary64.mantissaBits = 53 := rfl
  simp [target, Format.targetExponent, totalExponent, hbits, Format.minExponent]

theorem shiftToTargetExponent_eq {m : ℕ} {e : ℤ} (he : e ≤ target m e) (acc : Accuracy) :
    shiftToTargetExponent Format.binary64 m e acc =
      (ExtendedMantissa.ofMantissaAndAccuracy m acc >>> (target m e - e).toNat, target m e) := by
  change (_, e + ((target m e - e).toNat : ℤ)) = (_, target m e)
  rw [Int.toNat_of_nonneg (by omega), add_sub_cancel]
  rfl

theorem shiftToTargetExponent_of_lt {m : ℕ} (hm : m < 2 ^ 53) {e : ℤ} (he : -1074 ≤ e) :
    shiftToTargetExponent Format.binary64 m e .exact = (⟨m, false, false⟩, e) := by
  have hlog : m.log2 < 53 := by
    by_cases h : m = 0
    · simp [h]
    · exact (Nat.log2_lt h).mpr hm
  have hshift : (target m e - e).toNat = 0 := by
    rw [target_eq]
    omega
  rw [target] at hshift
  simp only [shiftToTargetExponent, shiftToExponent, hshift]
  simp [ExtendedMantissa.ofMantissaAndAccuracy, HShiftRight.hShiftRight, Nat.repeat]

theorem shiftToTargetExponent_of_carry {e : ℤ} (he : -1074 ≤ e) :
    shiftToTargetExponent Format.binary64 (2 ^ 53) e .exact =
      (⟨2 ^ 52, false, false⟩, e + 1) := by
  have hshift : (target (2 ^ 53) e - e).toNat = 1 := by
    rw [target_eq, Nat.log2_two_pow]
    omega
  rw [target] at hshift
  simp only [shiftToTargetExponent, shiftToExponent, hshift]
  simp [ExtendedMantissa.ofMantissaAndAccuracy, HShiftRight.hShiftRight, Nat.repeat,
    ExtendedMantissa.shiftRightOne]

/-- The number `m * 2 ^ e` is positive and has its mantissa in full, or the least exponent. -/
structure IsCanonical (m : ℕ) (e : ℤ) : Prop where
  pos : 0 < m
  lt : m < 2 ^ 53
  least : -1074 ≤ e
  normal : 2 ^ 52 ≤ m ∨ e = -1074

/-- Half the way down to the next number, in units of `2 ^ e`. -/
def halfBelow (m : ℕ) (e : ℤ) : ℚ :=
  if m = 2 ^ 52 ∧ -1074 < e then 1 / 4 else 1 / 2

theorem halfBelow_le (m : ℕ) (e : ℤ) : halfBelow m e ≤ 1 / 2 := by
  rw [halfBelow]
  split <;> norm_num

/-- The number is not farther from `m * 2 ^ e` than half the way to the next ones. -/
structure RoundsTo (v : ℚ) (m : ℕ) (e : ℤ) : Prop where
  low : (m - halfBelow m e) * 2 ^ e ≤ v
  high : v ≤ (m + 1 / 2) * 2 ^ e
  even : v = (m - halfBelow m e) * 2 ^ e ∨ v = (m + 1 / 2) * 2 ^ e → m % 2 = 0

theorem zpow_two_pos (e : ℤ) : (0 : ℚ) < 2 ^ e :=
  zpow_pos (by norm_num) e

theorem zpow_two_le {a b : ℤ} (h : a ≤ b) : (2 : ℚ) ^ a ≤ 2 ^ b :=
  zpow_le_zpow_right₀ (by norm_num) h

section RoundsTo

variable {v : ℚ} {m : ℕ} {e t : ℤ}

theorem RoundsTo.isNearest (h : RoundsTo v m e) : IsNearest (v / 2 ^ e) m := by
  have hpos := zpow_two_pos e
  have hhalf := halfBelow_le m e
  have hlow : m - halfBelow m e ≤ v / 2 ^ e := (le_div_iff₀ hpos).mpr h.low
  refine ⟨by linarith, (div_le_iff₀ hpos).mpr h.high, ?_⟩
  rintro (htie | htie)
  · have heq : v / 2 ^ e = m - halfBelow m e := by linarith
    exact h.even (.inl ((div_eq_iff hpos.ne').mp heq))
  · exact h.even (.inr ((div_eq_iff hpos.ne').mp htie))

theorem zpow_two_add (t : ℤ) : (2 : ℚ) ^ (t + 53) = 2 ^ 52 * 2 ^ (t + 1) := by
  rw [← zpow_natCast, ← zpow_add₀ (by norm_num)]
  congr 1
  push_cast
  ring

/-- The grid of a value is not coarser than the grid of a number that it rounds to. -/
theorem RoundsTo.target_le (h : RoundsTo v m e) (hc : IsCanonical m e)
    (hn : t = -1074 ∨ 2 ^ (t + 52) ≤ v) : t ≤ e := by
  by_contra hgt
  have hlarge := (hn.resolve_left (by have := hc.least; omega)).trans h.high
  have hle : (2 : ℚ) ^ (53 : ℤ) * 2 ^ e ≤ 2 ^ (t + 52) := by
    rw [← zpow_add₀ (by norm_num)]
    exact zpow_two_le (by omega)
  have := le_of_mul_le_mul_right (hle.trans hlarge) (zpow_two_pos e)
  have hm : (m : ℚ) + 1 ≤ 2 ^ 53 := by exact_mod_cast hc.lt
  norm_num at this hm
  linarith

/-- A finer grid is one step finer, and then the number is the least normal one of its own grid. -/
theorem RoundsTo.eq_of_target_lt (h : RoundsTo v m e) (hc : IsCanonical m e)
    (hv : v < 2 ^ (t + 53)) (ht : -1074 ≤ t) (hlt : t < e) : e = t + 1 ∧ m = 2 ^ 52 := by
  have hpos := zpow_two_pos e
  have hhalf := halfBelow_le m e
  have hm : 2 ^ 52 ≤ m := hc.normal.resolve_right (by omega)
  have hm' : (2 : ℚ) ^ 52 ≤ m := by exact_mod_cast hm
  have hbelow : (m - halfBelow m e) * 2 ^ e < 2 ^ (t + 53) := lt_of_le_of_lt h.low hv
  obtain rfl : e = t + 1 := by
    by_contra hne
    have hle : (2 : ℚ) ^ (t + 53) ≤ 2 ^ (51 : ℤ) * 2 ^ e := by
      rw [← zpow_add₀ (by norm_num)]
      exact zpow_two_le (by omega)
    have := lt_of_mul_lt_mul_right (lt_of_lt_of_le hbelow hle) hpos.le
    norm_num at this
    linarith
  refine ⟨rfl, ?_⟩
  by_contra hne
  have hlarge : ((2 ^ 52 + 1 : ℕ) : ℚ) ≤ m := by exact_mod_cast (by omega : 2 ^ 52 + 1 ≤ m)
  rw [zpow_two_add] at hbelow
  have := lt_of_mul_lt_mul_right hbelow hpos.le
  push_cast at hlarge
  linarith

theorem RoundsTo.isNearest_finer (h : RoundsTo v (2 ^ 52) (t + 1)) (hv : v < 2 ^ (t + 53))
    (ht : -1074 ≤ t) : IsNearest (v / 2 ^ t) (2 ^ 53) := by
  have hhalf : halfBelow (2 ^ 52) (t + 1) = 1 / 4 := if_pos ⟨rfl, by omega⟩
  have hdouble : (2 : ℚ) ^ (t + 1) = 2 * 2 ^ t := by
    rw [zpow_add₀ (by norm_num)]
    ring
  have hlow := h.low
  rw [hhalf, hdouble] at hlow
  rw [zpow_two_add, hdouble] at hv
  refine ⟨(le_div_iff₀ (zpow_two_pos t)).mpr ?_, (div_le_iff₀ (zpow_two_pos t)).mpr ?_, ?_⟩
  · push_cast at hlow ⊢
    linarith
  · push_cast
    linarith [zpow_two_pos t]
  · intro _
    norm_num

/-- Cut to 53 bits, the number has the exponent of the canonical one, or the one below if it rounds
up to a power of two. -/
theorem RoundsTo.target (h : RoundsTo v m e) (hc : IsCanonical m e)
    (hv : v < 2 ^ (t + 53)) (ht : -1074 ≤ t) (hn : t = -1074 ∨ 2 ^ (t + 52) ≤ v) :
    (t = e ∧ IsNearest (v / 2 ^ t) m) ∨
      (t + 1 = e ∧ m = 2 ^ 52 ∧ IsNearest (v / 2 ^ t) (2 ^ 53)) := by
  rcases (h.target_le hc hn).eq_or_lt with rfl | hlt
  · exact .inl ⟨rfl, h.isNearest⟩
  · obtain ⟨rfl, rfl⟩ := h.eq_of_target_lt hc hv ht hlt
    exact .inr ⟨rfl, rfl, h.isNearest_finer hv ht⟩

end RoundsTo

theorem Stands.bounds {k : ℕ} {acc : Accuracy} {v : ℚ}
    (h : Stands (.ofMantissaAndAccuracy k acc) v) : (k : ℚ) ≤ v ∧ v < k + 1 := by
  obtain ⟨g, hlow, hhigh, -, rfl⟩ := h
  have hmantissa : (ExtendedMantissa.ofMantissaAndAccuracy k acc).mantissa = k := by
    unfold ExtendedMantissa.ofMantissaAndAccuracy
    split <;> rfl
  rw [hmantissa]
  cases (ExtendedMantissa.ofMantissaAndAccuracy k acc).roundBit <;>
    simp only [Bool.toNat_false, Bool.toNat_true, Nat.cast_zero, Nat.cast_one] <;>
    exact ⟨by linarith, by linarith⟩

/-- Between these powers of two lies a number that is cut to 53 bits. -/
theorem target_bounds {k : ℕ} {a : ℤ} {v : ℚ} (hlow : k * 2 ^ a ≤ v) (hhigh : v < (k + 1) * 2 ^ a)
    (hk : k ≠ 0 ∨ a ≤ -1074) :
    v < 2 ^ (target k a + 53) ∧ (target k a = -1074 ∨ 2 ^ (target k a + 52) ≤ v) := by
  have htarget := target_eq k a
  constructor
  · have hlt : (k : ℚ) + 1 ≤ 2 ^ ((k.log2 + 1 : ℕ) : ℤ) := by
      rw [zpow_natCast]
      exact_mod_cast Nat.lt_log2_self (n := k)
    calc
      v < (k + 1) * 2 ^ a := hhigh
      _ ≤ 2 ^ ((k.log2 + 1 : ℕ) : ℤ) * 2 ^ a := mul_le_mul_of_nonneg_right hlt (zpow_two_pos a).le
      _ = 2 ^ (((k.log2 + 1 : ℕ) : ℤ) + a) := (zpow_add₀ (by norm_num) _ _).symm
      _ ≤ 2 ^ (target k a + 53) := zpow_two_le (by push_cast; omega)
  · by_cases hleast : target k a = -1074
    · exact .inl hleast
    · right
      have hk : k ≠ 0 := by
        rintro rfl
        rw [Nat.log2_zero] at htarget
        omega
      have hle : (2 : ℚ) ^ ((k.log2 : ℕ) : ℤ) ≤ k := by
        rw [zpow_natCast]
        exact_mod_cast Nat.log2_self_le hk
      calc
        (2 : ℚ) ^ (target k a + 52) = 2 ^ (((k.log2 : ℕ) : ℤ) + a) := by
          congr 1
          omega
        _ = 2 ^ ((k.log2 : ℕ) : ℤ) * 2 ^ a := zpow_add₀ (by norm_num) _ _
        _ ≤ k * 2 ^ a := mul_le_mul_of_nonneg_right hle (zpow_two_pos a).le
        _ ≤ v := hlow

theorem roundWithAccuracy_eq {k : ℕ} {a : ℤ} {acc : Accuracy} {v : ℚ}
    (hv : Stands (.ofMantissaAndAccuracy k acc) (v / 2 ^ a)) (ha : a ≤ target k a)
    (hk : k ≠ 0 ∨ a ≤ -1074) {m : ℕ} {e : ℤ} (h : RoundsTo v m e) (hc : IsCanonical m e)
    (s : Sign) : roundWithAccuracy Format.binary64 s k a acc = .finite s m e hc.pos := by
  obtain ⟨hlow, hhigh⟩ := hv.bounds
  rw [le_div_iff₀ (zpow_two_pos a)] at hlow
  rw [div_lt_iff₀ (zpow_two_pos a)] at hhigh
  obtain ⟨hlt, hleast⟩ := target_bounds hlow hhigh hk
  have hthreshold : -1074 ≤ target k a := by
    rw [target_eq]
    omega
  have hnear : IsNearest (v / 2 ^ target k a)
      (ExtendedMantissa.ofMantissaAndAccuracy k acc >>> (target k a - a).toNat).roundedMantissa := by
    have hunit : (2 : ℚ) ^ target k a =
        2 ^ a * 2 ^ (target k a - a).toNat := by
      rw [← zpow_natCast, ← zpow_add₀ (by norm_num)]
      congr 1
      omega
    rw [hunit, ← div_div]
    exact (hv.shiftRight _).isNearest
  rcases h.target hc hlt hthreshold hleast with ⟨rfl, hnear'⟩ | ⟨rfl, rfl, hnear'⟩
  · have hfinal := shiftToTargetExponent_of_lt hc.lt hc.least
    rw [roundWithAccuracy, shiftToTargetExponent_eq ha]
    dsimp only
    rw [hnear.unique hnear', hfinal]
    exact dif_neg hc.pos.ne'
  · have hfinal := shiftToTargetExponent_of_carry hthreshold
    rw [roundWithAccuracy, shiftToTargetExponent_eq ha]
    dsimp only
    rw [hnear.unique hnear', hfinal]
    exact dif_neg (by norm_num)

end ReservoirDeck
