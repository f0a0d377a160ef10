import Mathlib.Algebra.GroupWithZero.Basic
import Mathlib.Algebra.Field.Rat
import Mathlib.Tactic.NormNum
import ReservoirDeck.Proofs.Conversion.Images

/-!
Conversion over exact numbers. Multipliers act on keywords: converting twice is converting once
with the products, so a conversion is undone by the inverse multipliers.
-/

namespace ReservoirDeck

variable {R : Type}

theorem Row.map_self {ι : Type} {V : ι → Type} {f : (i : ι) → V i → V i}
    (step : ∀ i v, f i v = v) {is : List ι} (vs : Row V is) : vs.map f = vs := by
  induction vs with
  | nil => rfl
  | cons v vs ih => rw [map, step, ih]

section Fields

variable [Mul R] {f g h : Scale → Option R}

/-- Scaling a real twice is scaling it once. -/
def Composes (f g h : Scale → Option R) : Prop :=
  ∀ scale x, scaleBy (g scale) (scaleBy (f scale) x) = scaleBy (h scale) x

def Keeps (f : Scale → Option R) : Prop :=
  ∀ scale x, scaleBy (f scale) x = x

theorem RealSlot.scale_scale (hfgh : Composes f g h) (slot : RealSlot) (v : slot.Value R) :
    slot.scale g (slot.scale f v) = slot.scale h v := by
  cases slot with
  | tagged _ _ scale => cases v <;> exact congrArg _ (hfgh scale _)
  | needed _ scale => exact hfgh scale v
  | optional _ _ scale => exact hfgh scale v
  | index | unused => rfl

theorem RealSlot.scale_self (hf : Keeps f) (slot : RealSlot) (v : slot.Value R) :
    slot.scale f v = v := by
  cases slot with
  | tagged _ _ scale => cases v <;> exact congrArg _ (hf scale _)
  | needed _ scale => exact hf scale v
  | optional _ _ scale => exact hf scale v
  | index | unused => rfl

theorem Field.scale_scale (hfgh : Composes f g h) (field : Field) (v : field.Value R) :
    field.scale g (field.scale f v) = field.scale h v := by
  cases field with
  | reals slots _ => exact Row.map_map (RealSlot.scale_scale hfgh) v
  | name | requiredName | answer | ints | companions | skipped => rfl

theorem Field.scale_self (hf : Keeps f) (field : Field) (v : field.Value R) :
    field.scale f v = v := by
  cases field with
  | reals slots _ => exact Row.map_self (RealSlot.scale_self hf) v
  | name | requiredName | answer | ints | companions | skipped => rfl

end Fields

namespace Multipliers

def Nonzero [Zero R] (m : Multipliers R) : Prop :=
  ∀ q, m.of q ≠ 0

/-- The multipliers of two conversions after each other. -/
def mul [Mul R] (m n : Multipliers R) : Multipliers R :=
  ⟨fun q => m.of q * n.of q⟩

variable [CommGroupWithZero R]

theorem mul_inverse {m : Multipliers R} (hm : m.Nonzero) : m.mul m.inverse = identity := by
  simp only [mul, inverse, identity, mk.injEq]
  funext q
  rw [mul_one_div, div_self (hm q)]

end Multipliers

section Exact

variable [CommGroupWithZero R] (m n : Multipliers R)

theorem Factor.value_mul (f : Factor) : f.value (m.mul n) = f.value m * f.value n := by
  cases f with
  | base q => rfl
  | ratio above below => exact mul_div_mul_comm ..
  | product p q => exact mul_mul_mul_comm ..

theorem Factor.value_identity (f : Factor) : f.value (Multipliers.identity : Multipliers R) = 1 := by
  cases f <;> simp [value, Multipliers.identity]

section Records

variable {fields : List Field} (r : Record R fields)

theorem Record.convert_convert {c d e : Option R}
    (h : ∀ x, scaleBy d (scaleBy c x) = scaleBy e x) :
    (r.convert m c).convert n d = r.convert (m.mul n) e := by
  have hcomposes : Composes (Scale.factor? m r.selector c) (Scale.factor? n r.selector d)
      (Scale.factor? (m.mul n) r.selector e) := by
    intro scale x
    cases scale with
    | unscaled => rfl
    | controlled => exact h x
    | fixed factor => simp only [Scale.factor?, scaleBy, Option.elim_some, Factor.value_mul, mul_assoc]
    | injected => simp only [Scale.factor?, scaleBy, Option.elim_some, Factor.value_mul, mul_assoc]
  have hselector := r.selector_convert m c
  unfold Record.convert at hselector ⊢
  rw [hselector]
  exact Row.map_map (Field.scale_scale hcomposes) r

theorem Record.convert_identity {c : Option R} (h : ∀ x, scaleBy c x = x) :
    r.convert .identity c = r := by
  refine Row.map_self (Field.scale_self ?_) r
  intro scale x
  cases scale with
  | unscaled => rfl
  | controlled => exact h x
  | fixed factor => simp [Scale.factor?, scaleBy, Factor.value_identity]
  | injected => simp [Scale.factor?, scaleBy, Factor.value_identity]

theorem Record.image_image : (r.image m).image n = r.image (m.mul n) := by
  refine r.convert_convert m n fun x => ?_
  simp only [control?, selector_convert, image]
  split
  · cases Factor.ofControl? r.selector with
    | none => rfl
    | some factor => simp [scaleBy, Factor.value_mul, mul_assoc]
  · rfl

theorem Record.image_identity : r.image .identity = r := by
  refine r.convert_identity fun x => ?_
  unfold control?
  split
  · cases Factor.ofControl? r.selector with
    | none => rfl
    | some factor => simp [scaleBy, Factor.value_identity]
  · rfl

end Records

theorem RegionTable.scaleColumn_scaleColumn (t : RegionTable R) (i : Nat) (x y : R) :
    (t.scaleColumn i x).scaleColumn i y = t.scaleColumn i (x * y) := by
  simp only [scaleColumn, List.map_map, Function.comp_def, List.modify_modify_eq, mul_assoc]

theorem RegionTable.scaleColumn_comm (t : RegionTable R) (i j : Nat) (x y : R) :
    (t.scaleColumn i x).scaleColumn j y = (t.scaleColumn j y).scaleColumn i x := by
  by_cases hij : i = j
  · subst hij
    rw [scaleColumn_scaleColumn, scaleColumn_scaleColumn, mul_comm]
  · simp only [scaleColumn, List.map_map, Function.comp_def, List.modify_modify_ne _ _ _ hij]

theorem RegionTable.scaleColumn_one (t : RegionTable R) (i : Nat) : t.scaleColumn i 1 = t := by
  have hcol : List.map (· * (1 : R)) = id := by
    funext column
    simp
  simp only [scaleColumn, hcol, List.modify_id, List.map_id']

theorem RegionTable.scaled_scaleColumn (units : List (Nat × Factor)) (t : RegionTable R) (i : Nat)
    (x : R) : (t.scaleColumn i x).scaled m units = (t.scaled m units).scaleColumn i x := by
  induction units generalizing t with
  | nil => rfl
  | cons u units ih => exact (congrArg _ (scaleColumn_comm t i u.1 x _)).trans (ih _)

theorem RegionTable.scaled_scaled (units : List (Nat × Factor)) (t : RegionTable R) :
    (t.scaled m units).scaled n units = t.scaled (m.mul n) units := by
  induction units generalizing t with
  | nil => rfl
  | cons u units ih =>
    obtain ⟨i, factor⟩ := u
    calc
      _ = (((t.scaleColumn i (factor.value m)).scaled m units).scaleColumn i
          (factor.value n)).scaled n units := rfl
      _ = (((t.scaleColumn i (factor.value m)).scaleColumn i (factor.value n)).scaled m
          units).scaled n units := by
        rw [← scaled_scaleColumn]
      _ = (t.scaleColumn i (factor.value (m.mul n))).scaled (m.mul n) units := by
        rw [scaleColumn_scaleColumn, ← Factor.value_mul, ih]

theorem RegionTable.scaled_identity (units : List (Nat × Factor)) (t : RegionTable R) :
    t.scaled .identity units = t := by
  induction units generalizing t with
  | nil => rfl
  | cons u units ih =>
    obtain ⟨i, factor⟩ := u
    calc
      _ = (t.scaleColumn i (factor.value .identity)).scaled .identity units := rfl
      _ = t := by rw [Factor.value_identity, scaleColumn_one, ih]

theorem PvtTable.scaleTriples_scaleTriples (a b c a' b' c' : R) (xs : List R) :
    scaleTriples a' b' c' (scaleTriples a b c xs) = scaleTriples (a * a') (b * b') (c * c') xs := by
  fun_induction scaleTriples a b c xs <;> simp_all [scaleTriples, mul_assoc]

theorem PvtTable.scaleTriples_one (xs : List R) : scaleTriples 1 1 1 xs = xs := by
  fun_induction scaleTriples (1 : R) 1 1 xs <;> simp_all

theorem PvtTable.scaledRow_scaledRow (lead a b c lead' a' b' c' : R) (row : List R) :
    scaledRow lead' a' b' c' (scaledRow lead a b c row) =
      scaledRow (lead * lead') (a * a') (b * b') (c * c') row := by
  cases row with
  | nil => rfl
  | cons x triples => simp only [scaledRow, scaleTriples_scaleTriples, mul_assoc]

theorem PvtTable.scaled_scaled (t : PvtTable R) (lead a b c lead' a' b' c' : R) :
    (t.scaled lead a b c).scaled lead' a' b' c' =
      t.scaled (lead * lead') (a * a') (b * b') (c * c') := by
  simp only [scaled, List.map_map, Function.comp_def, scaledRow_scaledRow]

theorem PvtTable.scaled_one (t : PvtTable R) : t.scaled 1 1 1 1 = t := by
  have hrow : scaledRow (1 : R) 1 1 1 = id := by
    funext row
    cases row <;> simp [scaledRow, scaleTriples_one]
  simp only [scaled, hrow, List.map_id, List.map_id']

theorem Layout.image_image (layout : Layout) (a : layout.Body R) :
    layout.image n (layout.image m a) = layout.image (m.mul n) a := by
  cases layout with
  | record fields => exact Record.convert_convert m n a fun _ => rfl
  | named _ fields =>
    simp only [image, List.map_map]
    exact List.map_congr_left fun r _ => congrArg (Prod.mk r.1) (r.2.image_image m n)
  | rows fields =>
    simp only [image, List.map_map]
    exact List.map_congr_left fun r _ => Record.convert_convert m n r fun _ => rfl
  | steps => simp [image, Multipliers.mul]
  | table _ units => exact RegionTable.scaled_scaled m n units a
  | pvt => simp only [image, PvtTable.scaled_scaled, Factor.value_mul]
  | depth => simp only [image, RegionTable.scaleColumn_scaleColumn, Multipliers.mul]
  | title | startDate | dates => rfl

theorem Layout.image_identity (layout : Layout) (a : layout.Body R) :
    layout.image .identity a = a := by
  cases layout with
  | record fields => exact Record.convert_identity a fun _ => rfl
  | named _ fields =>
    exact (List.map_congr_left fun r _ => congrArg (Prod.mk r.1) r.2.image_identity).trans
      (List.map_id' a)
  | rows fields =>
    exact (List.map_congr_left fun r _ => Record.convert_identity r fun _ => rfl).trans
      (List.map_id' a)
  | steps => simp [image, Multipliers.identity]
  | table _ units => exact RegionTable.scaled_identity units a
  | pvt => simp only [image, Factor.value_identity, PvtTable.scaled_one]
  | depth => simp only [image, Multipliers.identity, RegionTable.scaleColumn_one]
  | title | startDate | dates => rfl

theorem Keyword.image_image (k : Keyword R) : (k.image m).image n = k.image (m.mul n) := by
  cases k with
  | typed kind body => exact congrArg _ (kind.layout.image_image m n body)
  | ignored name body => rfl

theorem Keyword.image_identity (k : Keyword R) : k.image .identity = k := by
  cases k with
  | typed kind body => exact congrArg _ (kind.layout.image_identity body)
  | ignored name body => rfl

end Exact

/-- Multipliers act on the keywords that can be converted. The second conversion succeeds because
the first did, the identity changes nothing, and the inverse multipliers lead back. -/
theorem Keyword.conversion_action (m n : Multipliers ℚ) (hm : m.Nonzero) (k l : Keyword ℚ)
    (h : k.convert m = .ok l) :
    (∃ j, l.convert n = .ok j ∧ k.convert (m.mul n) = .ok j) ∧
      k.convert .identity = .ok k ∧ l.convert m.inverse = .ok k := by
  obtain ⟨-, rfl⟩ := (convert_eq_ok m).mp h
  have hagain := fun p => (convert_again m h p).1
  have hthen := fun p => (convert_again m h p).2
  refine ⟨⟨k.image (m.mul n), ?_, hagain (m.mul n)⟩, ?_, ?_⟩
  · rw [hthen n, k.image_image]
  · rw [hagain .identity, k.image_identity]
  · rw [hthen m.inverse, k.image_image, Multipliers.mul_inverse hm, k.image_identity]

/-- The rate of a well target is scaled by a volume over a time, and back. -/
theorem Keyword.conversion_action_weltarg :
    let m : Multipliers ℚ := ⟨fun q => if q = .time then 2 else 5⟩
    let target (x : ℚ) : Keyword ℚ :=
      .typed .weltarg [("P1", .cons "ORAT" (.cons (.cons (.given x) .nil) .nil))]
    m.Nonzero ∧ (target 4).convert m = .ok (target 10) ∧
      (target 10).convert m.inverse = .ok (target 4) := by
  intro m target
  have hm : m.Nonzero := by
    intro q
    simp only [m]
    split <;> norm_num
  have h : (target 4).convert m = .ok (target 10) := by
    change Except.ok (target (4 * (5 / 2))) = _
    norm_num
  exact ⟨hm, h, (conversion_action m m hm _ _ h).2.2⟩

end ReservoirDeck
