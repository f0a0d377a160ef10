import ReservoirDeck.Keyword.Layout
import ReservoirDeck.Proofs.Conversion.Changes

/-!
Scaled tables. Where every region has the column, scaling it in place multiplies its entries and is
done; otherwise it panics. The same holds of rows of triples, which need a leading value.
-/

namespace ReservoirDeck

open Change

variable {R ε : Type}

namespace RegionTable

/-- Multiplies a column of every region that has it. -/
def scaleColumn [Mul R] (t : RegionTable R) (column : Nat) (factor : R) : RegionTable R :=
  { t with regions := t.regions.map fun region => region.modify column (·.map (· * factor)) }

/-- Multiplies column `c` of every region; none if that panics. -/
def scaleColumn? [Mul R] (t : RegionTable R) (c : Nat) (factor : R) : Option (RegionTable R) :=
  (Change.result ((scaleInPlace c factor : Change Empty (RegionTable R)) t)).toOption

def HasColumn (t : RegionTable R) (column : Nat) : Prop :=
  ∀ region ∈ t.regions, column < region.length

theorem guarded_scaleInPlace [Mul R] (column : Nat) (factor : R) :
    Guarded (fun t => t.HasColumn column) (fun t => t.scaleColumn column factor)
      (scaleInPlace column factor : Change ε (RegionTable R)) := by
  have hregions : Guarded (fun regions => ∀ region ∈ regions, column < region.length)
      (List.map fun region => region.modify column (·.map (· * factor)))
      (each (atIndex column (always (·.map (· * factor)))) : Change ε (List (List (List R)))) :=
    (Guarded.atIndex column).each
  refine ⟨fun t ht => ?_, fun t ht => hregions.panics t.regions ht⟩
  rw [scaleInPlace, hregions.done t.regions ht]
  rfl

theorem scaleColumn?_of_hasColumn [Mul R] {t : RegionTable R} {c : Nat} (h : t.HasColumn c)
    (factor : R) : t.scaleColumn? c factor = some (t.scaleColumn c factor) := by
  rw [scaleColumn?, (guarded_scaleInPlace c factor).done t h]
  rfl

theorem hasColumn_scaleColumn [Mul R] (t : RegionTable R) (c column : Nat) (factor : R) :
    (t.scaleColumn column factor).HasColumn c ↔ t.HasColumn c := by
  simp [HasColumn, scaleColumn]

def scaled [Mul R] [Div R] (m : Multipliers R) (units : List (Nat × Factor)) (t : RegionTable R) :
    RegionTable R :=
  units.foldl (fun t (column, factor) => t.scaleColumn column (factor.value m)) t

theorem hasColumn_scaled [Mul R] [Div R] (m : Multipliers R) (units : List (Nat × Factor))
    (t : RegionTable R) (c : Nat) : (t.scaled m units).HasColumn c ↔ t.HasColumn c := by
  induction units generalizing t with
  | nil => rfl
  | cons u units ih => exact (ih _).trans (t.hasColumn_scaleColumn c u.1 _)

theorem guarded_convert [Mul R] [Div R] (m : Multipliers R) (units : List (Nat × Factor)) :
    Guarded (fun t => ∀ u ∈ units, t.HasColumn u.1) (scaled m units)
      (RegionTable.convert m units : Change ε (RegionTable R)) := by
  induction units with
  | nil => exact ⟨fun _ _ => rfl, fun t ht => absurd (by simp) ht⟩
  | cons u units ih =>
    have hfirst : Guarded _ _ (scaleInPlace u.1 (u.2.value m) : Change ε (RegionTable R)) :=
      guarded_scaleInPlace u.1 (u.2.value m)
    have hboth := hfirst.andThen ih fun t => by simp only [hasColumn_scaleColumn]
    simp only [List.forall_mem_cons]
    exact hboth

end RegionTable

namespace PvtTable

def scaledRow [Mul R] (lead a b c : R) : List R → List R
  | [] => []
  | x :: triples => x * lead :: scaleTriples a b c triples

/-- The table with each of its rows multiplied. -/
def scaled [Mul R] (t : PvtTable R) (lead a b c : R) : PvtTable R :=
  ⟨t.regions.map (·.map (scaledRow lead a b c))⟩

def HasLeads (t : PvtTable R) : Prop :=
  ∀ rows ∈ t.regions, ∀ row ∈ rows, row ≠ []

theorem guarded_scaleRow [Mul R] (lead a b c : R) :
    Guarded (· ≠ []) (scaledRow lead a b c) (scaleRow lead a b c : Change ε (List R)) where
  done row h := by
    cases row with
    | nil => exact absurd rfl h
    | cons x triples => rfl
  panics row h := by rw [not_not.mp h, scaleRow]

theorem guarded_scaleInPlace [Mul R] (lead a b c : R) :
    Guarded HasLeads (fun t => t.scaled lead a b c)
      (scaleInPlace lead a b c : Change ε (PvtTable R)) := by
  have hrow : Guarded _ _ (scaleRow lead a b c : Change ε (List R)) := guarded_scaleRow lead a b c
  have hregions := hrow.each.each
  refine ⟨fun t ht => ?_, fun t ht => hregions.panics t.regions ht⟩
  rw [scaleInPlace, hregions.done t.regions ht]
  rfl

theorem hasLeads_scaled [Mul R] (t : PvtTable R) (lead a b c : R) :
    (t.scaled lead a b c).HasLeads ↔ t.HasLeads := by
  have hrow : ∀ row : List R, scaledRow lead a b c row = [] ↔ row = [] := by
    intro row
    cases row <;> simp [scaledRow]
  simp [HasLeads, scaled, hrow]

end PvtTable

end ReservoirDeck
