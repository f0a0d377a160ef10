import Mathlib.Algebra.Field.Rat
import ReservoirDeck.Proofs.Conversion.Controls
import ReservoirDeck.Proofs.Conversion.Whole

/-!
What a conversion leaves alone. A keyword and its conversion have one outline, so that they differ
in nothing but reals, and a keyword that cannot be converted stays whole.
-/

namespace ReservoirDeck

section Map

variable {R S : Type} (f : R → S)

def RealSlot.map : (slot : RealSlot) → slot.Value R → slot.Value S
  | .tagged .., v => Defaulted.map f v
  | .index _, v => v
  | .needed .., v => f v
  | .optional .., v => f v
  | .unused, v => v

def Field.map : (field : Field) → field.Value R → field.Value S
  | .name .., v => v
  | .requiredName .., v => v
  | .answer _, v => v
  | .reals _ _, v => Row.map (RealSlot.map f) v
  | .ints _ _, v => v
  | .companions .., v => (f v.1, v.2.map f)
  | .skipped _, v => v

def Record.map {fields : List Field} (r : Record R fields) : Record S fields :=
  Row.map (Field.map f) r

def RegionTable.map (t : RegionTable R) : RegionTable S :=
  ⟨t.columns, t.regions.map (·.map (·.map f))⟩

def PvtTable.map (t : PvtTable R) : PvtTable S :=
  ⟨t.regions.map (·.map (·.map f))⟩

def EndpointTable.map (t : EndpointTable R) : EndpointTable S :=
  ⟨t.table.map f, t.mask⟩

def Layout.map : (layout : Layout) → layout.Body R → layout.Body S
  | .record _, body => Record.map f body
  | .named _ _, body => body.map fun r => (r.1, r.2.map f)
  | .rows _, body => body.map (Record.map f)
  | .title, body => body
  | .startDate, body => body
  | .dates, body => body
  | .steps, body => body.map f
  | .table _ _, body => RegionTable.map f body
  | .pvt .., body => PvtTable.map f body
  | .depth _, body => EndpointTable.map f body

def Keyword.map : Keyword R → Keyword S
  | .typed kind body => .typed kind (kind.layout.map f body)
  | .ignored name body => .ignored name body

end Map

/-- All of a keyword but its reals: its kind, its names, integers, dates and marks of what was left
out, and how many reals stand where. -/
def Keyword.outline {R : Type} (k : Keyword R) : Keyword Unit :=
  k.map fun _ => ()

section Outline

variable {R : Type} [Mul R]

variable (factor? : Scale → Option R)

theorem RealSlot.map_scale (slot : RealSlot) (v : slot.Value R) :
    slot.map (fun _ => ()) (slot.scale factor? v) = slot.map (fun _ => ()) v := by
  cases slot with
  | tagged => cases v <;> rfl
  | index | needed | optional | unused => rfl

theorem Field.map_scale (field : Field) (v : field.Value R) :
    field.map (fun _ => ()) (field.scale factor? v) = field.map (fun _ => ()) v := by
  cases field with
  | reals slots _ => exact Row.map_map (RealSlot.map_scale factor?) v
  | name | requiredName | answer | ints | companions | skipped => rfl

theorem RegionTable.map_scaleColumn (t : RegionTable R) (column : Nat) (factor : R) :
    (t.scaleColumn column factor).map (fun _ => ()) = t.map fun _ => () := by
  have hregion : ∀ region : List (List R),
      (region.modify column (·.map (· * factor))).map (List.map fun _ => ()) =
        region.map (List.map fun _ => ()) := by
    intro region
    apply List.ext_getElem?
    intro j
    rw [List.getElem?_map, List.getElem?_map, List.getElem?_modify]
    cases region[j]? with
    | none => simp
    | some entries =>
      by_cases hj : column = j
      · simp [hj, Function.comp_def]
      · simp [hj]
  unfold RegionTable.map scaleColumn
  rw [List.map_map]
  exact congrArg _ (List.map_congr_left fun region _ => hregion region)

theorem PvtTable.map_scaled (t : PvtTable R) (lead a b c : R) :
    (t.scaled lead a b c).map (fun _ => ()) = t.map fun _ => () := by
  have htriples : ∀ xs : List R, (scaleTriples a b c xs).map (fun _ => ()) = xs.map fun _ => () := by
    intro xs
    fun_induction scaleTriples a b c xs <;> simp_all
  have hrow : ∀ row : List R, (scaledRow lead a b c row).map (fun _ => ()) = row.map fun _ => () := by
    intro row
    cases row with
    | nil => rfl
    | cons x triples => rw [scaledRow, List.map_cons, List.map_cons, htriples]
  unfold PvtTable.map scaled
  simp only [List.map_map, Function.comp_def, hrow]

variable [Div R] (m : Multipliers R)

theorem Record.map_convert {fields : List Field} (control : Option R) (r : Record R fields) :
    (r.convert m control).map (fun _ => ()) = r.map fun _ => () :=
  Row.map_map (Field.map_scale _) r

theorem RegionTable.map_scaled (units : List (Nat × Factor)) (t : RegionTable R) :
    (t.scaled m units).map (fun _ => ()) = t.map fun _ => () := by
  induction units generalizing t with
  | nil => rfl
  | cons u units ih => exact (ih _).trans (map_scaleColumn t u.1 (u.2.value m))

theorem Layout.map_image (layout : Layout) (a : layout.Body R) :
    layout.map (fun _ => ()) (layout.image m a) = layout.map (fun _ => ()) a := by
  cases layout with
  | record fields => exact Record.map_convert m none a
  | named _ fields =>
    simp only [Layout.map, image, List.map_map]
    exact List.map_congr_left fun r _ => congrArg (Prod.mk r.1) (r.2.map_convert m _)
  | rows fields =>
    simp only [Layout.map, image, List.map_map]
    exact List.map_congr_left fun r _ => Record.map_convert m none r
  | steps => exact List.map_map
  | table _ units => exact RegionTable.map_scaled m units a
  | pvt => exact PvtTable.map_scaled a _ _ _ _
  | depth =>
    exact congrArg (fun table => (⟨table, a.mask⟩ : EndpointTable Unit))
      (RegionTable.map_scaleColumn a.table 0 _)
  | title | startDate | dates => rfl

theorem Keyword.outline_image (k : Keyword R) : (k.image m).outline = k.outline := by
  cases k with
  | typed kind body => exact congrArg (typed kind) (kind.layout.map_image m body)
  | ignored => rfl

/-- A conversion fails for the control of a well target and for nothing else, with whatever
multipliers, and leaves the keyword as it was. Otherwise it changes nothing but reals, or it panics
because a table lacks a part that is converted, as none does that was read. -/
theorem Keyword.convert_frame (k : Keyword R) :
    ((∃ e, (k.convertInPlace m).2 = some (.error e)) ↔ k.HasUnknownControl) ∧
      (∀ e, (k.convertInPlace m).2 = some (.error e) → e.code.text = "E3001" ∧
        e.keyword = some "WELTARG" ∧ (k.convertInPlace m).1 = k) ∧
      ((k.convertInPlace m).2 = none → (k.convertInPlace m).1.outline = k.outline) ∧
      ((k.convertInPlace m).2 = some .panic ↔ ¬ k.IsWhole) ∧
      ∀ n, (k.convertInPlace n).2 = (k.convertInPlace m).2 := by
  have herror : ∀ e, (k.convertInPlace m).2 = some (.error e) → k.HasUnknownControl := by
    intro e he
    rw [← k.not_isKnown_iff]
    intro hknown
    by_cases hwhole : k.IsWhole
    · simp [convertInPlace_of_known m hwhole hknown] at he
    · simp [convertInPlace_of_not_whole m hwhole] at he
  refine ⟨⟨fun ⟨e, he⟩ => herror e he, fun hunknown => ?_⟩, fun e he => ?_, fun hnone => ?_,
    ⟨fun hpanic hwhole => ?_, convertInPlace_of_not_whole m⟩, fun n => k.fault_convertInPlace n m⟩
  · obtain ⟨-, t, -, -, -, -, hconvert⟩ := hunknown.convertInPlace
    exact ⟨_, by rw [hconvert m]⟩
  · obtain ⟨-, t, -, -, -, -, hconvert⟩ := (herror e he).convertInPlace
    rw [hconvert m] at he ⊢
    cases he
    exact ⟨rfl, rfl, rfl⟩
  · obtain ⟨hwhole, hknown⟩ := (fault_convertInPlace_eq_none m).mp hnone
    rw [convertInPlace_of_known m hwhole hknown]
    exact k.outline_image m
  · by_cases hknown : k.IsKnown
    · simp [convertInPlace_of_known m hwhole hknown] at hpanic
    · obtain ⟨error, hconvert⟩ := convertInPlace_of_not_known hknown
      simp [hconvert m] at hpanic

end Outline

/-- The oil rate of the first well could be converted, but the control of the second is not known,
so that neither is. A table with one of its three columns panics. -/
theorem Keyword.convert_frame_weltarg :
    let m : Multipliers ℚ := ⟨fun _ => 2⟩
    let target (well control : String) : Target ℚ :=
      (well, .cons control (.cons (.cons (.given 4) .nil) .nil))
    let targets (ts : List (Target ℚ)) : Keyword ℚ := .typed .weltarg ts
    let two := targets [target "P1" "orat", target "P2" "XRAT"]
    let one := targets [target "P1" "orat"]
    two.HasUnknownControl ∧ (∃ e, two.convertInPlace m = (two, some (.error e))) ∧
      (targets [target "P3" ""]).HasUnknownControl ∧
      (one.convertInPlace m).2 = none ∧ (one.convertInPlace m).1.outline = one.outline ∧
      ((Keyword.typed .pvdg ⟨3, [[[1]]]⟩ : Keyword ℚ).convertInPlace m).2 = some .panic := by
  intro m target targets two one
  have htwo : two.HasUnknownControl := by
    refine ⟨_, rfl, target "P2" "XRAT", by simp, ?_⟩
    unfold NamesNoQuantity
    decide +kernel
  have hempty : (targets [target "P3" ""]).HasUnknownControl := by
    refine ⟨_, rfl, target "P3" "", by simp, ?_⟩
    unfold NamesNoQuantity
    decide +kernel
  obtain ⟨e, he⟩ := (convert_frame m two).1.mpr htwo
  have hkept := ((convert_frame m two).2.1 e he).2.2
  have hone : (one.convertInPlace m).2 = none := rfl
  exact ⟨htwo, ⟨e, Prod.ext hkept he⟩, hempty, hone, (convert_frame m one).2.2.1 hone, rfl⟩

end ReservoirDeck
