import ReservoirDeck.Proofs.Conversion.Images
import ReservoirDeck.Proofs.Text.Encoding

/-!
Which conversions fail. Of all keywords only well targets have reals whose quantity is that of a
control, and a control has none if it starts with no letter that names one.
-/

namespace ReservoirDeck

/-- An ASCII letter in upper case; any other byte as it is. -/
def Byte.toUpper (b : UInt8) : UInt8 :=
  if 97 ≤ b && b ≤ 122 then b - 32 else b

/-- No quantity is known for a control that is empty, nor for one whose first byte, in either case, is
none of these letters. -/
def NamesNoQuantity (control : String) : Prop :=
  ∀ b ∈ (Text.bytes control).head?, Byte.toUpper b ∉ Text.bytes "OWLGRBT"

theorem Factor.ofControl?_eq_none (control : String) : ofControl? control = none ↔
    control.toList.head?.all (fun c => !"OWLGRBT".toList.contains c.toUpper) = true := by
  unfold ofControl?
  cases control.toList.head? with
  | none => simp
  | some c =>
    dsimp only [Option.map_some, Option.all_some]
    split <;> simp_all

theorem toUpper_of_le {c : Char} (h : 128 ≤ c.toNat) : c.toUpper = c := by
  have hval : ¬ (c.val ≥ 'a'.val ∧ c.val ≤ 'z'.val) := by
    rintro ⟨-, hle⟩
    have hnat := UInt32.le_iff_toNat_le.mp hle
    have hz : 'z'.val.toNat = 122 := rfl
    have hc : c.val.toNat = c.toNat := rfl
    omega
  exact dif_neg hval

theorem sameAscii_noQuantity : SameAscii (fun b => !(Text.bytes "OWLGRBT").contains (Byte.toUpper b))
    (fun c => !"OWLGRBT".toList.contains c.toUpper) where
  ascii := by decide +kernel
  bytes := by decide +kernel
  chars c h := by
    rw [toUpper_of_le h]
    simp only [Bool.not_eq_true', List.contains_eq_mem, decide_eq_false_iff_not]
    intro hmem
    have hlow : "OWLGRBT".toList.all (fun c => c.toNat < 128) = true := by decide +kernel
    have hlt := List.all_eq_true.mp hlow c hmem
    simp only [decide_eq_true_eq] at hlt
    omega

theorem Factor.ofControl?_eq_none_iff (control : String) :
    ofControl? control = none ↔ NamesNoQuantity control := by
  rw [ofControl?_eq_none, ← sameAscii_noQuantity.head_bytes, NamesNoQuantity]
  cases (Text.bytes control).head? <;> simp

/-- The well, the control to change, and its value. -/
abbrev Target (R : Type) : Type :=
  NamedRecord R [.requiredName "control" "control quantity",
    .reals [.tagged "value" (-1) .controlled] (.required "value")]

theorem Target.selector_eq_head {R : Type} (t : Target R) : t.2.selector = t.2.head := by
  obtain ⟨well, r⟩ := t
  cases r
  rfl

theorem Target.isKnown_iff {R : Type} (t : Target R) :
    t.2.IsKnown ↔ ¬ NamesNoQuantity t.2.head := by
  rw [Record.IsKnown, t.selector_eq_head, ne_eq, Factor.ofControl?_eq_none_iff]
  exact forall_prop_of_true (by decide)

/-- Some real of a record is of the quantity that the record names. -/
def Layout.isControlled (layout : Layout) : Bool :=
  layout.fields.any Field.isControlled

theorem Kind.isControlled_layout (kind : Kind) :
    kind.layout.isControlled = true ↔ kind = .weltarg := by
  cases kind <;> decide

theorem Layout.isKnown_of_uncontrolled {R : Type} (layout : Layout) (a : layout.Body R)
    (h : layout.isControlled = false) : layout.IsKnown a := by
  cases layout with
  | named _ fields =>
    intro r _ hcontrolled
    rw [show fields.any Field.isControlled = false from h] at hcontrolled
    cases hcontrolled
  | record | rows | title | startDate | dates | steps | table | pvt | depth => trivial

namespace Keyword

variable {R : Type}

/-- The keyword lists well targets, and the control of one of them has no known quantity. -/
def HasUnknownControl (k : Keyword R) : Prop :=
  ∃ targets : List (Target R), k = .typed .weltarg targets ∧ ∃ t ∈ targets, NamesNoQuantity t.2.head

theorem not_isKnown_iff (k : Keyword R) : ¬ k.IsKnown ↔ k.HasUnknownControl := by
  constructor
  · intro h
    cases k with
    | ignored => exact absurd trivial h
    | typed kind body =>
      cases hkind : kind.layout.isControlled with
      | false => exact absurd (kind.layout.isKnown_of_uncontrolled body hkind) h
      | true =>
        obtain rfl := kind.isControlled_layout.mp hkind
        obtain ⟨before, t, after, rfl, -, ht⟩ := exists_first_unknown h
        exact ⟨_, rfl, t, List.mem_append_right before List.mem_cons_self,
          not_not.mp (mt (Target.isKnown_iff t).mpr ht)⟩
  · rintro ⟨targets, rfl, t, ht, hcontrol⟩ hknown
    exact t.isKnown_iff.mp (hknown t ht) hcontrol

/-- The error is that of the first target whose control has no known quantity. The keyword is as it
was, also the targets before. -/
theorem HasUnknownControl.convertInPlace [Mul R] [Div R] {k : Keyword R}
    (h : k.HasUnknownControl) :
    ∃ (before : List (Target R)) (t : Target R) (after : List (Target R)),
      k = .typed .weltarg (before ++ t :: after) ∧ (∀ q ∈ before, ¬ NamesNoQuantity q.2.head) ∧
        NamesNoQuantity t.2.head ∧ ∀ m : Multipliers R, k.convertInPlace m = (k, some (.error
          ((DeckError.ofCause (.unsupported (.control t.2.head t.1))).inKeyword "WELTARG"))) := by
  obtain ⟨targets, rfl, t, ht, hcontrol⟩ := h
  have hunknown : ¬ ∀ r ∈ targets, r.2.IsKnown := fun hall => t.isKnown_iff.mp (hall t ht) hcontrol
  obtain ⟨before, t, after, rfl, hbefore, ht⟩ := exists_first_unknown hunknown
  refine ⟨before, t, after, rfl, fun q hq => (Target.isKnown_iff q).mp (hbefore q hq),
    not_not.mp (mt (Target.isKnown_iff t).mpr ht), fun m => ?_⟩
  have hlayout := convertNamed_of_unknown m hbefore ht after
  rw [Target.selector_eq_head t] at hlayout
  change (Kind.weltarg.layout.convert m (before ++ t :: after) : _ × Option _) = _ at hlayout
  simp only [Keyword.convertInPlace, hlayout]
  rfl

end Keyword

end ReservoirDeck
