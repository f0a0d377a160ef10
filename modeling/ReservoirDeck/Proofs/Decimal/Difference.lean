import ReservoirDeck.Proofs.Decimal.Arithmetic

/-!
Differences of binary64 numbers. Two numbers are whole multiples of the smallest one, and so is what
they are apart. So the difference of two that are not equal is not rounded to zero.
-/

namespace ReservoirDeck

open Float.Model Float.Model.UnpackedFloat

/-- A positive number cut at the exponent of its grid is at least one unit, and has 53 bits. -/
theorem cut_bounds {k : ℕ} {a : ℤ} (hk : 0 < k) (hleast : -1074 ≤ a) (ha : a ≤ target k a) :
    (1 : ℚ) ≤ k / 2 ^ (target k a - a).toNat ∧ (k : ℚ) / 2 ^ (target k a - a).toNat < 2 ^ 53 ∧
      (target k a = -1074 ∨ (2 : ℚ) ^ 52 ≤ k / 2 ^ (target k a - a).toNat) := by
  have htarget := target_eq k a
  have hlow := Nat.log2_self_le hk.ne'
  have hhigh := Nat.lt_log2_self (n := k)
  obtain ⟨n, hn⟩ : ∃ n, (target k a - a).toNat = n := ⟨_, rfl⟩
  have hunit : (0 : ℚ) < 2 ^ n := by positivity
  rw [hn, le_div_iff₀ hunit, div_lt_iff₀ hunit, le_div_iff₀ hunit]
  have hlt : k < 2 ^ 53 * 2 ^ n := by
    rw [← Nat.pow_add]
    exact hhigh.trans_le (Nat.pow_le_pow_right (by decide) (by omega))
  refine ⟨?_, by exact_mod_cast hlt, ?_⟩
  · have hone : 2 ^ n ≤ k := (Nat.pow_le_pow_right (by decide) (by omega)).trans hlow
    rw [one_mul]
    exact_mod_cast hone
  · by_cases ht : target k a = -1074
    · exact .inl ht
    · right
      have hfull : 2 ^ 52 * 2 ^ n ≤ k := by
        rw [← Nat.pow_add]
        exact (Nat.pow_le_pow_right (by decide) (by omega)).trans hlow
      exact_mod_cast hfull

/-- Rounding a positive number that is not below the finest grid gives a canonical one. -/
theorem exists_roundWithAccuracy {k : ℕ} {a : ℤ} (hk : 0 < k) (hleast : -1074 ≤ a)
    (ha : a ≤ target k a) (s : Sign) : ∃ m e, ∃ hc : IsCanonical m e,
      roundWithAccuracy Format.binary64 s k a .exact = .finite s m e hc.pos := by
  obtain ⟨hone, hlt, hfull⟩ := cut_bounds hk hleast ha
  have ht : -1074 ≤ target k a := hleast.trans ha
  have hnear := ((stands_exact (k := k) rfl).shiftRight (target k a - a).toNat).isNearest
  obtain ⟨r, hr⟩ : ∃ r, (ExtendedMantissa.ofMantissaAndAccuracy k .exact >>>
    (target k a - a).toNat).roundedMantissa = r := ⟨_, rfl⟩
  rw [hr] at hnear
  have hpos : 0 < r := by
    have : (0 : ℚ) < r := by linarith [hnear.high]
    exact_mod_cast this
  have hle : r ≤ 2 ^ 53 := by
    have : (r : ℚ) < (2 ^ 53 + 1 : ℕ) := by
      push_cast
      linarith [hnear.low]
    have : r < 2 ^ 53 + 1 := by exact_mod_cast this
    omega
  have hnormal : 2 ^ 52 ≤ r ∨ target k a = -1074 := by
    refine hfull.symm.imp_left fun hfull => ?_
    have : ((2 ^ 52 : ℕ) : ℚ) < r + 1 := by
      push_cast
      linarith [hnear.high]
    have : 2 ^ 52 < r + 1 := by exact_mod_cast this
    omega
  rw [roundWithAccuracy, shiftToTargetExponent_eq ha]
  dsimp only
  rw [hr]
  rcases hle.lt_or_eq with hfits | rfl
  · rw [shiftToTargetExponent_of_lt hfits ht]
    exact ⟨r, _, ⟨hpos, hfits, ht, hnormal⟩, dif_neg hpos.ne'⟩
  · rw [shiftToTargetExponent_of_carry ht]
    exact ⟨2 ^ 52, _, ⟨by decide, by decide, by omega, .inl le_rfl⟩, dif_neg (by norm_num)⟩

theorem target_mul {k : ℕ} (hk : 0 < k) (d : ℕ) (a : ℤ) :
    target (k * 2 ^ d) (a - d) = target k a := by
  have hlog : (k * 2 ^ d).log2 = k.log2 + d := by
    induction d with
    | zero => simp
    | succ d ih =>
      rw [pow_succ', Nat.mul_left_comm, Nat.log2_two_mul (by positivity), ih, Nat.add_assoc]
  rw [target_eq, target_eq, hlog]
  push_cast
  congr 1
  ring

theorem exists_round {k : ℕ} {a : ℤ} (hk : 0 < k) (hleast : -1074 ≤ a) (s : Sign) :
    ∃ m e, ∃ hc : IsCanonical m e,
      UnpackedFloat.round Format.binary64 s k a = .finite s m e hc.pos := by
  obtain ⟨d, hd⟩ : ∃ d, (a - target k a).toNat = d := ⟨_, rfl⟩
  have hround : UnpackedFloat.round Format.binary64 s k a =
      roundWithAccuracy Format.binary64 s (k * 2 ^ d) (a - d) .exact := by
    rw [← Nat.shiftLeft_eq, ← hd]
    rfl
  have htarget := target_mul hk d a
  have hgrid := target_eq k a
  rw [hround]
  exact exists_roundWithAccuracy (by positivity) (by omega) (by omega) s

/-- A number taken apart is canonical, unless it is none. -/
def IsUnpacked : UnpackedFloat → Prop
  | .finite _ m e _ => IsCanonical m e
  | _ => True

theorem isUnpacked_ofFloat (x : Float) : IsUnpacked (Binary.ofFloat x).unpacked := by
  cases hx : Binary.ofFloat x with
  | nan => trivial
  | infinite negative => trivial
  | finite negative m e =>
    rcases Nat.eq_zero_or_pos m with rfl | hm
    · trivial
    · rw [unpacked_finite negative hm]
      exact (eq_packed hx hm).1

/-- The unpacked number is not packed as a zero. -/
def PacksNonzero (u : UnpackedFloat) : Prop :=
  (Float.ofModel (.pack u) == 0) = false

theorem beq_zero_eq (x : Float) : (x == 0) = (Binary.ofFloat x).unpacked.beq (.zero .positive) := by
  have hzero : Binary.ofFloat 0 = .finite false 0 (-1074) := by decide
  change x.toModel.unpack.beq (0 : Float).toModel.unpack = _
  rw [unpack_toModel, unpack_toModel, hzero]
  rfl

theorem packsNonzero_nan : PacksNonzero .notANumber := by
  rw [PacksNonzero]
  decide

theorem packsNonzero_infinity (s : Sign) : PacksNonzero (.infinity s) := by
  rw [PacksNonzero]
  cases s <;> decide

theorem packsNonzero_finite {m : ℕ} {e : ℤ} (hc : IsCanonical m e) (s : Sign) :
    PacksNonzero (.finite s m e hc.pos) := by
  obtain ⟨negative, rfl⟩ := exists_signOf s
  by_cases he : e ≤ 971
  · rw [PacksNonzero, ← packed_eq negative hc.pos, beq_zero_eq, ofFloat_packed negative hc he,
      unpacked_finite negative hc.pos]
    cases negative <;> rfl
  · have hlarge : Float.Model.pack (.finite (signOf negative) m e hc.pos) =
        .pack (.infinity (signOf negative)) := by
      have hexponent : 2 ^ 11 ≤ (e + Format.binary64.exponentBias + (52 : ℕ)).toNat + 1 := by
        simp only [Format.exponentBias]
        omega
      unfold Float.Model.pack
      congr 2
      delta UnpackedFloat.pack
      exact if_pos hexponent
    rw [PacksNonzero, hlarge]
    exact packsNonzero_infinity _

theorem IsCanonical.unique {m₁ m₂ : ℕ} {e₁ e₂ t : ℤ} (h₁ : IsCanonical m₁ e₁)
    (h₂ : IsCanonical m₂ e₂) (ht₁ : t ≤ e₁) (ht₂ : t ≤ e₂)
    (h : m₁ * 2 ^ (e₁ - t).toNat = m₂ * 2 ^ (e₂ - t).toNat) : m₁ = m₂ ∧ e₁ = e₂ := by
  have hle : ∀ {m₁ m₂ : ℕ} {e₁ e₂ : ℤ}, IsCanonical m₁ e₁ → IsCanonical m₂ e₂ → t ≤ e₁ →
      m₁ * 2 ^ (e₁ - t).toNat = m₂ * 2 ^ (e₂ - t).toNat → e₂ ≤ e₁ := by
    intro m₁ m₂ e₁ e₂ h₁ h₂ ht h
    by_contra hlt
    have hm₂ : 2 ^ 52 ≤ m₂ := h₂.normal.resolve_right (by have := h₁.least; omega)
    have hpow : 2 ^ ((e₁ - t).toNat + 1) ≤ 2 ^ (e₂ - t).toNat :=
      Nat.pow_le_pow_right (by decide) (by omega)
    have hlarge : 2 ^ 53 * 2 ^ (e₁ - t).toNat ≤ m₁ * 2 ^ (e₁ - t).toNat := by
      calc
        2 ^ 53 * 2 ^ (e₁ - t).toNat = 2 ^ 52 * 2 ^ ((e₁ - t).toNat + 1) := by ring
        _ ≤ m₂ * 2 ^ (e₂ - t).toNat := Nat.mul_le_mul hm₂ hpow
        _ = m₁ * 2 ^ (e₁ - t).toNat := h.symm
    have := Nat.le_of_mul_le_mul_right hlarge (by positivity)
    have := h₁.lt
    omega
  obtain rfl : e₁ = e₂ := le_antisymm (hle h₂ h₁ ht₂ h.symm) (hle h₁ h₂ ht₁ h)
  exact ⟨Nat.eq_of_mul_eq_mul_right (by positivity) h, rfl⟩

/-- Canonical numbers that are equal as whole multiples of a power of two compare as equal. -/
theorem compare_eq_of_apply_eq {m₁ m₂ : ℕ} {e₁ e₂ t : ℤ} (h₁ : IsCanonical m₁ e₁)
    (h₂ : IsCanonical m₂ e₂) (ht₁ : t ≤ e₁) (ht₂ : t ≤ e₂) {s₁ s₂ : Sign}
    (h : s₁.apply (m₁ <<< (e₁ - t).toNat : ℕ) = s₂.apply (m₂ <<< (e₂ - t).toNat : ℕ)) :
    UnpackedFloat.compare (.finite s₁ m₁ e₁ h₁.pos) (.finite s₂ m₂ e₂ h₂.pos) = some .eq := by
  have hpos₁ : 0 < m₁ * 2 ^ (e₁ - t).toNat := Nat.mul_pos h₁.pos (by positivity)
  have hpos₂ : 0 < m₂ * 2 ^ (e₂ - t).toNat := Nat.mul_pos h₂.pos (by positivity)
  simp only [Nat.shiftLeft_eq] at h
  generalize hn₁ : m₁ * 2 ^ (e₁ - t).toNat = n₁ at h hpos₁
  generalize hn₂ : m₂ * 2 ^ (e₂ - t).toNat = n₂ at h hpos₂
  have hsame : s₁ = s₂ ∧ n₁ = n₂ := by
    cases s₁ <;> cases s₂ <;> simp only [Sign.apply] at h <;> simp <;> omega
  obtain ⟨rfl, rfl⟩ := hsame
  obtain ⟨rfl, rfl⟩ := h₁.unique h₂ ht₁ ht₂ (hn₁.trans hn₂.symm)
  delta UnpackedFloat.compare
  cases s₁ <;> simp

theorem packsNonzero_normalize {k a : ℤ} (hk : k ≠ 0) (ha : -1074 ≤ a) (s : Sign) :
    PacksNonzero (UnpackedFloat.normalize Format.binary64 k a s) := by
  rw [UnpackedFloat.normalize]
  split
  · next hneg =>
    rw [Int.compare_eq_lt] at hneg
    obtain ⟨m, e, hc, hround⟩ := exists_round (k := (-k).toNat) (by omega) ha .negative
    rw [hround]
    exact packsNonzero_finite hc _
  · next hzero => exact absurd (Int.compare_eq_eq.mp hzero) hk
  · next hpos =>
    rw [Int.compare_eq_gt] at hpos
    obtain ⟨m, e, hc, hround⟩ := exists_round (k := k.toNat) (by omega) ha .positive
    rw [hround]
    exact packsNonzero_finite hc _

/-- Unless two numbers compare as equal, their difference is not packed as a zero. -/
theorem packsNonzero_sub {u v : UnpackedFloat} (hu : IsUnpacked u) (hv : IsUnpacked v)
    (h : u.compare v ≠ some .eq) : PacksNonzero (UnpackedFloat.sub Format.binary64 u v) := by
  cases u with
  | notANumber => exact packsNonzero_nan
  | infinity s₁ =>
    cases v with
    | notANumber => exact packsNonzero_nan
    | infinity s₂ =>
      delta UnpackedFloat.sub
      dsimp only
      split
      · exact packsNonzero_infinity s₁
      · exact packsNonzero_nan
    | zero s₂ => exact packsNonzero_infinity s₁
    | finite s₂ m₂ e₂ h₂ => exact packsNonzero_infinity s₁
  | zero s₁ =>
    cases v with
    | notANumber => exact packsNonzero_nan
    | infinity s₂ => exact packsNonzero_infinity (-s₂)
    | zero s₂ => exact absurd rfl h
    | finite s₂ m₂ e₂ h₂ => exact packsNonzero_finite hv (-s₂)
  | finite s₁ m₁ e₁ h₁ =>
    cases v with
    | notANumber => exact packsNonzero_nan
    | infinity s₂ => exact packsNonzero_infinity (-s₂)
    | zero s₂ => exact packsNonzero_finite hu s₁
    | finite s₂ m₂ e₂ h₂ =>
      have hle₁ : min e₁ e₂ ≤ e₁ := min_le_left e₁ e₂
      have hle₂ : min e₁ e₂ ≤ e₂ := min_le_right e₁ e₂
      have hleast : -1074 ≤ min e₁ e₂ := le_min hu.least hv.least
      delta UnpackedFloat.sub
      dsimp only [decreaseExponent]
      refine packsNonzero_normalize (fun hzero => ?_) hleast .positive
      exact h (compare_eq_of_apply_eq hu hv hle₁ hle₂ (sub_eq_zero.mp hzero))

/-- The difference of two numbers that are not equal does not equal zero. -/
theorem sub_beq_zero {x y : Float} (h : (x != y) = true) : (x - y == 0) = false := by
  have hbeq : (x == y) = (Binary.ofFloat x).unpacked.beq (Binary.ofFloat y).unpacked := by
    rw [← unpack_toModel, ← unpack_toModel]
    rfl
  have hsub : x - y = Float.ofModel (.pack (UnpackedFloat.sub Format.binary64
      (Binary.ofFloat x).unpacked (Binary.ofFloat y).unpacked)) := by
    rw [← unpack_toModel, ← unpack_toModel]
    rfl
  rw [hsub]
  refine packsNonzero_sub (isUnpacked_ofFloat x) (isUnpacked_ofFloat y) fun heq => ?_
  rw [bne, hbeq] at h
  delta UnpackedFloat.beq at h
  rw [heq] at h
  cases h

end ReservoirDeck
