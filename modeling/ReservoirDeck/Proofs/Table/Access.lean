import ReservoirDeck.Proofs.Reading.Sound
import ReservoirDeck.Proofs.Table.Scaling

/-!
Accesses to the regions of a table. An access by position fails where the position is out of
range. On a table that was read none of them does, and the same holds after its columns were
scaled.
-/

namespace ReservoirDeck

theorem mapM_of_forall₂ {α β : Type} {f : α → Option β} {as : List α} {bs : List β}
    (h : List.Forall₂ (fun a b => f a = some b) as bs) : as.mapM f = some bs := by
  induction h with
  | nil => rfl
  | cons hab _ ih =>
    rw [List.mapM_cons, hab, ih]
    rfl

namespace RegionTable

variable {R : Type} {columns : ℕ}

def column? (t : RegionTable R) (r c : ℕ) : Option (List R) := do
  let region ← t.regions[r]?
  region[c]?

def row? (t : RegionTable R) (r i : ℕ) : Option (List R) := do
  let region ← t.regions[r]?
  region.mapM (·[i]?)

/-- Every column and every row of every region is in range. -/
structure InRange (columns : ℕ) (t : RegionTable R) : Prop where
  column : ∀ (r : ℕ) (region : List (List R)), t.regions[r]? = some region → ∀ c < columns,
    ∃ column, t.column? r c = some column ∧ column.length = rowCount region
  row : ∀ (r : ℕ) (region : List (List R)), t.regions[r]? = some region → ∀ i < rowCount region,
    ∃ row, t.row? r i = some row ∧ row.length = columns ∧ (rows region)[i]? = some row

section Region

variable {k : ℕ} {region : List (List R)} (h : IsRegion columns k region) (hcolumns : columns ≠ 0)
include h hcolumns

theorem exists_row {i : ℕ} (hi : i < k) : ∃ row, region.mapM (·[i]?) = some row ∧
    row.length = columns ∧ (rows region)[i]? = some row := by
  obtain ⟨hheight, hwidth, hcolumn⟩ := rows_spec h hcolumns
  have hlt : i < (rows region).length := hheight ▸ hi
  have hrow : (rows region)[i].length = columns := hwidth _ (List.getElem_mem hlt)
  refine ⟨(rows region)[i], mapM_of_forall₂ (List.forall₂_iff_get.mpr ?_), hrow,
    List.getElem?_eq_getElem hlt⟩
  refine ⟨by rw [hrow, h.width], fun j hj hj' => ?_⟩
  have hentry := congrArg (fun column => column[i]?) (hcolumn j hj)
  simp only [List.getElem?_map, List.getElem?_eq_getElem hlt, Option.map_some] at hentry
  rw [List.getElem?_eq_getElem hj'] at hentry
  simp only [List.get_eq_getElem]
  cases hi' : region[j][i]? <;> simp [hi'] at hentry
  rw [hentry]

end Region

variable {t : RegionTable R} (hcolumns : columns ≠ 0)
  (hregions : ∀ region ∈ t.regions, ∃ k, k ≠ 0 ∧ IsRegion columns k region)

include hcolumns hregions in
theorem inRange : InRange columns t where
  column r region hr c hc := by
    obtain ⟨k, -, hregion⟩ := hregions region (List.mem_of_getElem? hr)
    have hlt : c < region.length := by rwa [hregion.width]
    refine ⟨region[c], by simp [column?, hr, List.getElem?_eq_getElem hlt], ?_⟩
    rw [rowCount_of_isRegion hregion hcolumns, hregion.height _ (List.getElem_mem hlt)]
  row r region hr i hi := by
    obtain ⟨k, -, hregion⟩ := hregions region (List.mem_of_getElem? hr)
    rw [rowCount_of_isRegion hregion hcolumns] at hi
    obtain ⟨row, hrow, hwidth, hrows⟩ := exists_row hregion hcolumns hi
    exact ⟨row, by simp [row?, hr, hrow], hwidth, hrows⟩

section Scaling

variable [Mul R] {j : ℕ} (factor : R)

include hregions in
theorem scaleColumn?_eq (hj : j < columns) :
    t.scaleColumn? j factor = some (t.scaleColumn j factor) := by
  refine scaleColumn?_of_hasColumn (fun region hmem => ?_) factor
  obtain ⟨k, -, hregion⟩ := hregions region hmem
  rwa [hregion.width]

include hregions in
theorem isRegion_scaleColumn (j : ℕ) :
    ∀ region ∈ (t.scaleColumn j factor).regions, ∃ k, k ≠ 0 ∧ IsRegion columns k region := by
  intro region hmem
  obtain ⟨region, hregion, rfl⟩ := List.mem_map.mp hmem
  obtain ⟨k, hk, hshape⟩ := hregions region hregion
  refine ⟨k, hk, by rw [List.length_modify, hshape.width], fun column hcolumn => ?_⟩
  obtain ⟨i, hi, rfl⟩ := List.getElem_of_mem hcolumn
  have hlt : i < region.length := by rwa [List.length_modify] at hi
  have hlength := hshape.height region[i] (List.getElem_mem hlt)
  rw [List.getElem_modify]
  split
  · rw [List.length_map, hlength]
  · exact hlength

include hregions in
theorem foldlM_scaleColumn? (scalings : List (ℕ × R)) (hj : ∀ s ∈ scalings, s.1 < columns) :
    scalings.foldlM (fun t s => t.scaleColumn? s.1 s.2) t =
        some (scalings.foldl (fun t s => t.scaleColumn s.1 s.2) t) ∧
      ∀ region ∈ (scalings.foldl (fun t s => t.scaleColumn s.1 s.2) t).regions,
        ∃ k, k ≠ 0 ∧ IsRegion columns k region := by
  induction scalings generalizing t with
  | nil => exact ⟨rfl, hregions⟩
  | cons s scalings ih =>
    obtain ⟨hs, hrest⟩ := List.forall_mem_cons.mp hj
    rw [List.foldlM_cons, scaleColumn?_eq hregions s.2 hs]
    exact ih (isRegion_scaleColumn hregions s.2 s.1) hrest

end Scaling

end RegionTable

namespace ReadM

/-- A table that was read is well formed: it has a region, and each region has all its columns, of
one length that is not zero. No access to it is out of range, whatever columns were scaled
before. -/
theorem regionTable_wellFormed {columns : ℕ} (hcolumns : 1 ≤ columns) {r r' : DeckReader}
    {t : RegionTable Float} (h : regionTable columns r = .ok t r') :
    t.columns = columns ∧ t.regions ≠ [] ∧
    (∀ region ∈ t.regions, region.length = columns ∧
      ∃ k, k ≠ 0 ∧ ∀ column ∈ region, column.length = k) ∧
    RegionTable.ofRegions? columns t.regions = some t ∧
    ∀ scalings : List (ℕ × Float), (∀ s ∈ scalings, s.1 < columns) →
      ∃ t', scalings.foldlM (fun t s => t.scaleColumn? s.1 s.2) t = some t' ∧
        t' = scalings.foldl (fun t s => t.scaleColumn s.1 s.2) t ∧ t'.InRange columns := by
  have hne : columns ≠ 0 := Nat.one_le_iff_ne_zero.mp hcolumns
  obtain ⟨hwidth, hregions, hshape⟩ := regionTable_sound hne h
  have hregular := isRegular_of_isRegion hne fun region hmem =>
    (hshape region hmem).imp fun k hk => hk.2
  refine ⟨hwidth, hregions, fun region hmem => ?_, ?_, fun scalings hj => ?_⟩
  · obtain ⟨k, hk, hregion⟩ := hshape region hmem
    exact ⟨hregion.width, k, hk, hregion.height⟩
  · rw [RegionTable.ofRegions?, if_pos hregular, ← hwidth]
  · obtain ⟨hfold, hscaled⟩ := RegionTable.foldlM_scaleColumn? hshape scalings hj
    exact ⟨_, hfold, rfl, RegionTable.inRange hne hscaled⟩

/-- Regions that a short row, a slash of its own and the next keyword end. -/
theorem regionTable_wellFormed_closed : 1 ≤ 2 ∧ ∃ t r',
    regionTable 2 (.ofString "0 1\n2 /\n0 5\n/\n0 3 -- 4\nTITLE") = .ok t r' ∧
    t.regions ≠ [] ∧ RegionTable.ofRegions? 2 t.regions = some t := by
  have hok : (Run.answer (regionTable 2
      (.ofString "0 1\n2 /\n0 5\n/\n0 3 -- 4\nTITLE"))).isOk = true := by
    decide +kernel
  obtain ⟨t, r', h⟩ := Run.exists_of_isOk hok
  obtain ⟨-, hregions, -, hwell, -⟩ := regionTable_wellFormed (by decide) h
  exact ⟨by decide, t, r', h, hregions, hwell⟩

end ReadM

end ReservoirDeck
