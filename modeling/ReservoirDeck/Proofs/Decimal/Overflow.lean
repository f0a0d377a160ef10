import Mathlib
import ReservoirDeck.Proofs.Decimal.Reals

/-!
Numbers out of range. A text never stands for a NaN, so the only number that is read and cannot be
read back is an infinity, which a text of too large a magnitude rounds to.
-/

namespace ReservoirDeck

open Float.Model Float.Model.UnpackedFloat

theorem isNaN_eq (x : Float) : x.isNaN = (Binary.ofFloat x).unpacked.isNaN := by
  rw [← unpack_toModel]
  rfl

theorem isFinite_eq (x : Float) : x.isFinite = (Binary.ofFloat x).unpacked.isFinite := by
  rw [← unpack_toModel]
  rfl

theorem isInf_eq (x : Float) : x.isInf = (Binary.ofFloat x).unpacked.isInf := by
  rw [← unpack_toModel]
  rfl

theorem isNaN_of_exponent {x : Float} (h : x.toBits.toNat / 2 ^ 52 % 2 ^ 11 < 2 ^ 11 - 1) :
    x.isNaN = false := by
  rw [isNaN_eq]
  simp only [Binary.ofFloat, Nat.pow_eq]
  rw [if_neg h.ne]
  split <;>
  · rw [Binary.unpacked]
    split <;> rfl

theorem isNaN_infinity (s : Sign) : (Float.ofModel (.pack (.infinity s))).isNaN = false := by
  cases s <;> decide

theorem isNaN_zero (s : Sign) : (Float.ofModel (.pack (.zero s))).isNaN = false := by
  cases s <;> decide

theorem exponent_packComponents (negative : Bool) (exponent : BitVec 11) (mantissa : BitVec 52) :
    (packComponents Format.binary64 (signOf negative) exponent mantissa).toNat / 2 ^ 52 % 2 ^ 11 =
      exponent.toNat := by
  have h := toNat_packComponents negative exponent mantissa
  have hexponent := exponent.isLt
  have hmantissa := mantissa.isLt
  omega

theorem isNaN_finite (s : Sign) (m : ℕ) (e : ℤ) (hm : 0 < m) :
    (Float.ofModel (.pack (.finite s m e hm))).isNaN = false := by
  obtain ⟨negative, rfl⟩ := exists_signOf s
  have hbits : (Float.ofModel (.pack (.finite (signOf negative) m e hm))).toBits.toNat =
      (UnpackedFloat.pack Format.binary64 (.finite (signOf negative) m e hm)).toNat := rfl
  delta UnpackedFloat.pack at hbits
  dsimp only at hbits
  split at hbits
  · have heq : Float.ofModel (.pack (.finite (signOf negative) m e hm)) =
        Float.ofModel (.pack (.infinity (signOf negative))) := float_ext hbits
    rw [heq]
    exact isNaN_infinity _
  · next hexponent =>
    generalize (e + _ + _ : ℤ).toNat = biased at hbits hexponent
    replace hexponent : ¬ 2 ^ 11 ≤ biased + 1 := hexponent
    apply isNaN_of_exponent
    rw [hbits]
    split
    · apply (exponent_packComponents negative _ _).trans_lt
      rw [BitVec.toNat_ofNat]
      omega
    · apply (exponent_packComponents negative _ _).trans_lt
      decide

theorem isNaN_pack {u : UnpackedFloat} (hu : u.isNaN = false) :
    (Float.ofModel (.pack u)).isNaN = false := by
  cases u with
  | notANumber => cases hu
  | infinity s => exact isNaN_infinity s
  | zero s => exact isNaN_zero s
  | finite s m e hm => exact isNaN_finite s m e hm

theorem isNaN_roundWithAccuracy (s : Sign) (m : ℕ) (e : ℤ) (accuracy : Accuracy) :
    (roundWithAccuracy Format.binary64 s m e accuracy).isNaN = false := by
  unfold roundWithAccuracy
  dsimp only
  split <;> rfl

theorem isNaN_mul (s₁ s₂ : Sign) {m₁ m₂ : ℕ} (e₁ e₂ : ℤ) (h₁ : 0 < m₁) (h₂ : 0 < m₂) :
    (UnpackedFloat.mul Format.binary64 (.finite s₁ m₁ e₁ h₁) (.finite s₂ m₂ e₂ h₂)).isNaN =
      false := by
  delta UnpackedFloat.mul
  exact isNaN_roundWithAccuracy _ _ _ _

theorem isNaN_div (s₁ s₂ : Sign) {m₁ m₂ : ℕ} (e₁ e₂ : ℤ) (h₁ : 0 < m₁) (h₂ : 0 < m₂) :
    (UnpackedFloat.div Format.binary64 (.finite s₁ m₁ e₁ h₁) (.finite s₂ m₂ e₂ h₂)).isNaN =
      false := by
  delta UnpackedFloat.div
  exact isNaN_roundWithAccuracy _ _ _ _

theorem isNaN_neg (x : Float) (hx : x.isNaN = false) : (-x).isNaN = false := by
  change (Float.ofModel (.pack x.toModel.unpack.neg)).isNaN = false
  apply isNaN_pack
  change x.toModel.unpack.isNaN = false at hx
  cases h : x.toModel.unpack with
  | notANumber =>
    rw [h] at hx
    cases hx
  | _ => rfl

theorem isNaN_ofScientific_small {k n : ℕ} (below : Bool) (hpos : 0 < k) (hk : k < 2 ^ 53)
    (hn : n ≤ 22) : (Float.ofScientific k below n).isNaN = false := by
  obtain ⟨m₁, e₁, hc₁, he₁, -, hpacked₁⟩ := toFloat_whole hpos hk
  obtain ⟨m₂, e₂, hc₂, he₂, -, hpacked₂⟩ :=
    exactlyRepresentablePowersOfTen_eq (n := n) (Nat.lt_of_le_of_lt hn (by decide))
  have hunpack₁ := unpack_toModel (packed false m₁ e₁)
  have hunpack₂ := unpack_toModel (packed false m₂ e₂)
  rw [ofFloat_packed false hc₁ he₁, unpacked_finite false hc₁.pos] at hunpack₁
  rw [ofFloat_packed false hc₂ he₂, unpacked_finite false hc₂.pos] at hunpack₂
  simp only [Float.ofScientific, dif_pos (And.intro hk hn), hpacked₁, hpacked₂]
  cases below
  · change (Float.ofModel (.pack (UnpackedFloat.mul _ (packed false m₁ e₁).toModel.unpack
      (packed false m₂ e₂).toModel.unpack))).isNaN = false
    rw [hunpack₁, hunpack₂]
    exact isNaN_pack (isNaN_mul ..)
  · change (Float.ofModel (.pack (UnpackedFloat.div _ (packed false m₁ e₁).toModel.unpack
      (packed false m₂ e₂).toModel.unpack))).isNaN = false
    rw [hunpack₁, hunpack₂]
    exact isNaN_pack (isNaN_div ..)

theorem isNaN_ofScientific_large {k : ℕ} (hpos : 0 < k) (a : ℤ) :
    (Float.ofModel (Float.Model.ofScientific k a)).isNaN = false := by
  apply isNaN_pack
  unfold UnpackedFloat.ofScientific
  rw [dif_neg hpos.ne']
  split
  · rfl
  · split
    · rfl
    · split
      · exact isNaN_mul ..
      · exact isNaN_div ..

theorem isNaN_ofScientific {k : ℕ} (hpos : 0 < k) (below : Bool) (n : ℕ) :
    (Float.ofScientific k below n).isNaN = false := by
  by_cases hsmall : k < 2 ^ 53 ∧ n ≤ 22
  · exact isNaN_ofScientific_small below hpos hsmall.1 hsmall.2
  · simp only [Float.ofScientific, dif_neg hsmall]
    exact isNaN_ofScientific_large hpos _

theorem Decimal.isNaN_toFloat (d : Decimal) : d.toFloat.isNaN = false := by
  unfold toFloat
  dsimp only
  split
  · decide
  · next hrange =>
    have hpos : 0 < d.digits := by omega
    split
    · decide
    · split
      · exact isNaN_ofScientific hpos ..
      · exact isNaN_ofScientific hpos ..

/-- No text stands for a NaN. -/
theorem isNaN_of_realOfText? {s : String} {x : Float} (h : realOfText? s = some x) :
    x.isNaN = false := by
  unfold realOfText? at h
  rw [Option.map_eq_some_iff] at h
  obtain ⟨d, -, rfl⟩ := h
  split
  · exact isNaN_neg _ d.isNaN_toFloat
  · exact d.isNaN_toFloat

theorem ofFloat_of_isInf {x : Float} (h : x.isInf = true) :
    ∃ negative, Binary.ofFloat x = .infinite negative := by
  rw [isInf_eq] at h
  cases hx : Binary.ofFloat x with
  | infinite negative => exact ⟨negative, rfl⟩
  | nan =>
    rw [hx] at h
    cases h
  | finite negative m e =>
    rw [hx, Binary.unpacked] at h
    split at h <;> cases h

theorem isInf_of_not_isFinite {x : Float} (hnan : x.isNaN = false) (h : ¬ x.isFinite = true) :
    x.isInf = true := by
  rw [isNaN_eq] at hnan
  rw [isFinite_eq] at h
  rw [isInf_eq]
  cases hu : (Binary.ofFloat x).unpacked with
  | infinity s => rfl
  | notANumber =>
    rw [hu] at hnan
    cases hnan
  | _ =>
    rw [hu] at h
    exact absurd rfl h

theorem item_infinity {x : Float} (h : x.isInf = true) :
    (Item.ofText? (deckText x) : Option (Item Float)) = none := by
  obtain ⟨negative, hbinary⟩ := ofFloat_of_isInf h
  rw [deckText, hbinary]
  cases negative <;> decide

/-- Every number that is read can be written and read back, unless its magnitude is too large: it is
then an infinity, and the text of that is no item at all. -/
theorem item_deckText {s : String} {x : Float} (h : realOfText? s = some x) :
    x.isFinite = true ∧ Item.ofText? (deckText x) = some (.value x) ∨
      x.isInf = true ∧ (Item.ofText? (deckText x) : Option (Item Float)) = none := by
  by_cases hx : x.isFinite = true
  · left
    exact ⟨hx, (entryWord_deckText hx).item⟩
  · right
    have hinf := isInf_of_not_isFinite (isNaN_of_realOfText? h) hx
    exact ⟨hinf, item_infinity hinf⟩

/-- A Fortran exponent is read, written and read back. -/
theorem item_deckText_fortran :
    ∃ x, realOfText? "1.5D-3" = some x ∧ deckText x = "0.0015" ∧
      Item.ofText? (deckText x) = some (.value x) := by
  have hread : realOfText? "1.5D-3" = some (Decimal.mk 15 (-4)).toFloat := rfl
  have hfinite : (Decimal.mk 15 (-4)).toFloat.isInf = false := by decide
  refine ⟨_, hread, by decide, ?_⟩
  rcases item_deckText hread with ⟨-, h⟩ | ⟨h, -⟩
  · exact h
  · rw [hfinite] at h
    cases h

/-- A magnitude out of range is read, but what is written for it is not. -/
theorem item_overflow :
    ∃ x, realOfText? "1e999" = some x ∧ deckText x = "inf" ∧
      (Item.ofText? (deckText x) : Option (Item Float)) = none := by
  refine ⟨(Decimal.mk 1 999).toFloat, rfl, ?_, ?_⟩ <;> decide

end ReservoirDeck
