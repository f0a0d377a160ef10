import ReservoirDeck.Keyword.Basic
import ReservoirDeck.Proofs.Table.Scaling

/-!
What conversions make of keywords. A keyword whose tables have their columns, and whose controls
have known quantities, is converted to its image. A control without a quantity is an error that
leaves the keyword as it was, and a table without its columns panics, with whatever multipliers.
-/

namespace ReservoirDeck

open Change

variable {R : Type}

theorem Row.collect_map {ι β : Type} {V W : ι → Type} {f : (i : ι) → V i → W i}
    {c : (i : ι) → V i → List β} {d : (i : ι) → W i → List β}
    (step : ∀ i v, d i (f i v) = c i v) {is : List ι} (vs : Row V is) :
    (vs.map f).collect d = vs.collect c := by
  induction vs with
  | nil => rfl
  | cons v vs ih => rw [map, collect, step, ih, collect]

theorem Row.map_map {ι : Type} {V W U : ι → Type} {f : (i : ι) → V i → W i}
    {g : (i : ι) → W i → U i} {h : (i : ι) → V i → U i} (step : ∀ i v, g i (f i v) = h i v)
    {is : List ι} (vs : Row V is) : (vs.map f).map g = vs.map h := by
  induction vs with
  | nil => rfl
  | cons v vs ih => rw [map, map, step, ih, map]

theorem Field.requiredNames_scale [Mul R] (factor? : Scale → Option R) (field : Field)
    (v : field.Value R) : field.requiredNames (field.scale factor? v) = field.requiredNames v := by
  cases field <;> rfl

/-- The name that says what the reals of a record are stays under conversion. -/
theorem Record.selector_convert [Mul R] [Div R] (m : Multipliers R) (control : Option R)
    {fields : List Field} (r : Record R fields) : (r.convert m control).selector = r.selector := by
  rw [Record.selector, Record.convert, Row.collect_map (Field.requiredNames_scale _), Record.selector]

section Named

variable {fields : List Field}

/-- The control that a record names has a quantity, if the record has a real of one. -/
def Record.IsKnown (r : Record R fields) : Prop :=
  fields.any Field.isControlled = true → Factor.ofControl? r.selector ≠ none

variable [Mul R] [Div R] (m : Multipliers R)

/-- The factor of the control of a record, if it has a real of one. -/
def Record.control? (r : Record R fields) : Option R :=
  if fields.any Field.isControlled then (Factor.ofControl? r.selector).map (·.value m) else none

def Record.image (r : Record R fields) : Record R fields :=
  r.convert m (r.control? m)

def NamedRecord.image (r : NamedRecord R fields) : NamedRecord R fields :=
  (r.1, r.2.image m)

theorem Record.isKnown_image (r : Record R fields) : (r.image m).IsKnown ↔ r.IsKnown := by
  rw [IsKnown, image, selector_convert, IsKnown]

theorem convertControlled_of_factors (h : fields.any Field.isControlled = true)
    {records : List (NamedRecord R fields)} {factors : List R}
    (hfactors : controlFactors m records = .ok factors) :
    convertControlled m records factors = records.map (NamedRecord.image m) := by
  induction records generalizing factors with
  | nil => cases factors <;> rfl
  | cons r records ih =>
    obtain ⟨leader, r⟩ := r
    cases hcontrol : Factor.ofControl? r.selector with
    | none => simp [controlFactors, hcontrol] at hfactors
    | some factor =>
      cases hrest : controlFactors m records with
      | error unit => simp [controlFactors, hcontrol, hrest, Except.map] at hfactors
      | ok rest =>
        obtain rfl : factor.value m :: rest = factors := by
          simpa [controlFactors, hcontrol, hrest, Except.map] using hfactors
        rw [convertControlled, ih hrest]
        simp [NamedRecord.image, Record.image, Record.control?, h, hcontrol]

theorem exists_controlFactors {records : List (NamedRecord R fields)}
    (h : ∀ r ∈ records, Factor.ofControl? r.2.selector ≠ none) :
    ∃ factors, controlFactors m records = .ok factors := by
  induction records with
  | nil => exact ⟨[], rfl⟩
  | cons r records ih =>
    obtain ⟨leader, r⟩ := r
    obtain ⟨hr, hrecords⟩ := List.forall_mem_cons.mp h
    obtain ⟨factor, hfactor⟩ := Option.ne_none_iff_exists'.mp hr
    obtain ⟨factors, hfactors⟩ := ih hrecords
    exact ⟨factor.value m :: factors, by simp [controlFactors, hfactor, hfactors, Except.map]⟩

omit [Mul R] [Div R] in
theorem exists_first_unknown {records : List (NamedRecord R fields)}
    (h : ¬ ∀ r ∈ records, r.2.IsKnown) :
    ∃ before r after, records = before ++ r :: after ∧ (∀ q ∈ before, q.2.IsKnown) ∧
      ¬ r.2.IsKnown := by
  induction records with
  | nil => simp at h
  | cons r records ih =>
    by_cases hr : r.2.IsKnown
    · obtain ⟨before, q, after, rfl, hbefore, hq⟩ := ih fun hrecords =>
        h (List.forall_mem_cons.mpr ⟨hr, hrecords⟩)
      exact ⟨r :: before, q, after, rfl, List.forall_mem_cons.mpr ⟨hr, hbefore⟩, hq⟩
    · exact ⟨[], r, records, rfl, by simp, hr⟩

/-- The error is that of the first record whose control has no quantity. -/
theorem controlFactors_of_unknown {before : List (NamedRecord R fields)} {r : NamedRecord R fields}
    (hbefore : ∀ q ∈ before, Factor.ofControl? q.2.selector ≠ none)
    (hr : Factor.ofControl? r.2.selector = none) (after : List (NamedRecord R fields)) :
    controlFactors m (before ++ r :: after) = .error (.control r.2.selector r.1) := by
  induction before with
  | nil => simp [controlFactors, hr]
  | cons q before ih =>
    obtain ⟨leader, q⟩ := q
    obtain ⟨hq, hbefore⟩ := List.forall_mem_cons.mp hbefore
    obtain ⟨factor, hfactor⟩ := Option.ne_none_iff_exists'.mp hq
    simp [controlFactors, hfactor, ih hbefore, Except.map]

theorem convertNamed_of_known {records : List (NamedRecord R fields)}
    (h : ∀ r ∈ records, r.2.IsKnown) :
    convertNamed m records = (records.map (NamedRecord.image m), none) := by
  rw [convertNamed]
  split
  · next hcontrolled =>
    obtain ⟨factors, hfactors⟩ := exists_controlFactors m fun r hr => h r hr hcontrolled
    simp only [hfactors, convertControlled_of_factors m hcontrolled hfactors]
  · next huncontrolled =>
    simp [NamedRecord.image, Record.image, Record.control?, huncontrolled]

/-- No record is changed, not even those before the one whose control has no quantity. -/
theorem convertNamed_of_unknown {before : List (NamedRecord R fields)} {r : NamedRecord R fields}
    (hbefore : ∀ q ∈ before, q.2.IsKnown) (hr : ¬ r.2.IsKnown)
    (after : List (NamedRecord R fields)) :
    convertNamed m (before ++ r :: after) =
      (before ++ r :: after, some (.error (.control r.2.selector r.1))) := by
  obtain ⟨hcontrolled, hcontrol⟩ := Classical.not_imp.mp hr
  have hfactors := controlFactors_of_unknown m (fun q hq => hbefore q hq hcontrolled)
    (not_not.mp hcontrol) after
  rw [convertNamed, if_pos hcontrolled, hfactors]

end Named

namespace Layout

/-- Tables have the columns that are converted, and rows of triples a leading value. -/
def IsWhole : (layout : Layout) → layout.Body R → Prop
  | .table _ units, body => ∀ u ∈ units, RegionTable.HasColumn body u.1
  | .pvt .., body => PvtTable.HasLeads body
  | .depth _, body => body.table.HasColumn 0
  | _, _ => True

/-- The controls that records name have quantities. -/
def IsKnown : (layout : Layout) → layout.Body R → Prop
  | .named _ _, body => ∀ r ∈ body, r.2.IsKnown
  | _, _ => True

variable [Mul R] [Div R] (m : Multipliers R)

/-- The body after a conversion. -/
def image : (layout : Layout) → layout.Body R → layout.Body R
  | .record _, body => Record.convert m none body
  | .named _ _, body => body.map (NamedRecord.image m)
  | .rows _, body => body.map (Record.convert m none)
  | .title, body => body
  | .startDate, body => body
  | .dates, body => body
  | .steps, body => body.map (· * m.of .time)
  | .table _ units, body => RegionTable.scaled m units body
  | .pvt lead first second third, body =>
    PvtTable.scaled body (lead.value m) (first.value m) (second.value m) (third.value m)
  | .depth _, body => { body with table := body.table.scaleColumn 0 (m.of .length) }

theorem isWhole_image (layout : Layout) (a : layout.Body R) :
    layout.IsWhole (layout.image m a) ↔ layout.IsWhole a := by
  cases layout with
  | table _ units => simp only [IsWhole, image, RegionTable.hasColumn_scaled]
  | pvt => exact PvtTable.hasLeads_scaled a ..
  | depth => exact RegionTable.hasColumn_scaleColumn a.table ..
  | record | named | rows | title | startDate | dates | steps => rfl

theorem isKnown_image (layout : Layout) (a : layout.Body R) :
    layout.IsKnown (layout.image m a) ↔ layout.IsKnown a := by
  cases layout with
  | named =>
    simp only [IsKnown, image, List.forall_mem_map]
    exact forall₂_congr fun r _ => r.2.isKnown_image m
  | record | rows | title | startDate | dates | steps | table | pvt | depth => rfl

theorem convert_of_known (layout : Layout) (a : layout.Body R) (hwhole : layout.IsWhole a)
    (hknown : layout.IsKnown a) : layout.convert m a = (layout.image m a, none) := by
  cases layout with
  | named => exact convertNamed_of_known m hknown
  | table _ units => exact (RegionTable.guarded_convert m units).done a hwhole
  | pvt => exact (PvtTable.guarded_scaleInPlace ..).done a hwhole
  | depth =>
    simp only [convert, (RegionTable.guarded_scaleInPlace 0 _).done a.table hwhole, image]
  | record | rows | title | startDate | dates | steps => rfl

theorem convert_of_not_whole (layout : Layout) (a : layout.Body R) (h : ¬ layout.IsWhole a) :
    (layout.convert m a).2 = some .panic := by
  cases layout with
  | table _ units => exact (RegionTable.guarded_convert m units).panics a h
  | pvt => exact (PvtTable.guarded_scaleInPlace ..).panics a h
  | depth => exact (RegionTable.guarded_scaleInPlace 0 _).panics a.table h
  | record | named | rows | title | startDate | dates | steps => exact absurd trivial h

theorem convert_of_not_known (layout : Layout) (a : layout.Body R) (h : ¬ layout.IsKnown a) :
    ∃ unit, ∀ m : Multipliers R, layout.convert m a = (a, some (.error unit)) := by
  cases layout with
  | named =>
    obtain ⟨before, r, after, rfl, hbefore, hr⟩ := exists_first_unknown h
    exact ⟨_, fun m => convertNamed_of_unknown m hbefore hr after⟩
  | record | rows | title | startDate | dates | steps | table | pvt | depth => exact absurd trivial h

end Layout

namespace Keyword

def IsWhole : Keyword R → Prop
  | .typed kind body => kind.layout.IsWhole body
  | .ignored _ _ => True

def IsKnown : Keyword R → Prop
  | .typed kind body => kind.layout.IsKnown body
  | .ignored _ _ => True

variable [Mul R] [Div R] (m : Multipliers R)

/-- The keyword after a conversion. -/
def image : Keyword R → Keyword R
  | .typed kind body => .typed kind (kind.layout.image m body)
  | .ignored name body => .ignored name body

theorem isWhole_image (k : Keyword R) : (k.image m).IsWhole ↔ k.IsWhole := by
  cases k with
  | typed kind body => exact kind.layout.isWhole_image m body
  | ignored => rfl

theorem isKnown_image (k : Keyword R) : (k.image m).IsKnown ↔ k.IsKnown := by
  cases k with
  | typed kind body => exact kind.layout.isKnown_image m body
  | ignored => rfl

theorem convertInPlace_of_known {k : Keyword R} (hwhole : k.IsWhole) (hknown : k.IsKnown) :
    k.convertInPlace m = (k.image m, none) := by
  cases k with
  | typed kind body =>
    rw [convertInPlace, kind.layout.convert_of_known m body hwhole hknown]
    rfl
  | ignored => rfl

theorem convertInPlace_of_not_whole {k : Keyword R} (h : ¬ k.IsWhole) :
    (k.convertInPlace m).2 = some .panic := by
  cases k with
  | typed kind body =>
    simp [convertInPlace, kind.layout.convert_of_not_whole m body h, Fault.map]
  | ignored => exact absurd trivial h

theorem convertInPlace_of_not_known {k : Keyword R} (h : ¬ k.IsKnown) :
    ∃ error, ∀ m : Multipliers R, k.convertInPlace m = (k, some (.error error)) := by
  cases k with
  | typed kind body =>
    obtain ⟨unit, hconvert⟩ := kind.layout.convert_of_not_known body h
    exact ⟨_, fun m => by rw [convertInPlace, hconvert m]; rfl⟩
  | ignored => exact absurd trivial h

theorem fault_convertInPlace_eq_none {k : Keyword R} :
    (k.convertInPlace m).2 = none ↔ k.IsWhole ∧ k.IsKnown := by
  constructor
  · intro h
    refine ⟨?_, ?_⟩
    · by_contra hwhole
      simp [convertInPlace_of_not_whole m hwhole] at h
    · by_contra hknown
      obtain ⟨error, herror⟩ := convertInPlace_of_not_known hknown
      simp [herror] at h
  · rintro ⟨hwhole, hknown⟩
    rw [convertInPlace_of_known m hwhole hknown]

/-- A keyword that cannot be converted with some multipliers cannot be converted with any, for the
same reason. -/
theorem fault_convertInPlace (n : Multipliers R) (k : Keyword R) :
    (k.convertInPlace m).2 = (k.convertInPlace n).2 := by
  by_cases hwhole : k.IsWhole
  · by_cases hknown : k.IsKnown
    · rw [convertInPlace_of_known m hwhole hknown, convertInPlace_of_known n hwhole hknown]
    · obtain ⟨error, herror⟩ := convertInPlace_of_not_known hknown
      rw [herror m, herror n]
  · rw [convertInPlace_of_not_whole m hwhole, convertInPlace_of_not_whole n hwhole]

theorem convert_eq_ok {k l : Keyword R} :
    k.convert m = .ok l ↔ (k.IsWhole ∧ k.IsKnown) ∧ k.image m = l := by
  rw [convert, result_eq_ok, ← fault_convertInPlace_eq_none m]
  constructor
  · intro h
    have hnone : (k.convertInPlace m).2 = none := by rw [h]
    obtain ⟨hwhole, hknown⟩ := (fault_convertInPlace_eq_none m).mp hnone
    rw [convertInPlace_of_known m hwhole hknown] at h
    exact ⟨hnone, congrArg Prod.fst h⟩
  · rintro ⟨hnone, rfl⟩
    obtain ⟨hwhole, hknown⟩ := (fault_convertInPlace_eq_none m).mp hnone
    exact convertInPlace_of_known m hwhole hknown

/-- A keyword that can be converted with some multipliers can be converted with any, also when it
was converted before. -/
theorem convert_again {k l : Keyword R} (h : k.convert m = .ok l) (n : Multipliers R) :
    k.convert n = .ok (k.image n) ∧ l.convert n = .ok (l.image n) := by
  obtain ⟨⟨hwhole, hknown⟩, rfl⟩ := (convert_eq_ok m).mp h
  refine ⟨(convert_eq_ok n).mpr ⟨⟨hwhole, hknown⟩, rfl⟩, (convert_eq_ok n).mpr ⟨⟨?_, ?_⟩, rfl⟩⟩
  · exact (k.isWhole_image m).mpr hwhole
  · exact (k.isKnown_image m).mpr hknown

end Keyword

end ReservoirDeck
