import ReservoirDeck.Proofs.Table.Fill

/-!
Regions row by row. The rows of a region have its columns, and filling them gives the region back.
-/

namespace ReservoirDeck

variable {R : Type} {region : List (List R)} {k : Nat}

/-- A region with `columns` columns of `k` entries. -/
structure IsRegion (columns k : Nat) (region : List (List R)) : Prop where
  width : region.length = columns
  height : ∀ column ∈ region, column.length = k

namespace RegionTable

theorem zipRows_spec (h : ∀ column ∈ region, column.length = k) :
    (region.foldr (List.zipWith List.cons) (List.replicate k [])).length = k ∧
      (∀ row ∈ region.foldr (List.zipWith List.cons) (List.replicate k []),
        row.length = region.length) ∧
      ∀ (j : Nat) (hj : j < region.length),
        (region.foldr (List.zipWith List.cons) (List.replicate k [])).map (·[j]?) =
          region[j].map some := by
  induction region with
  | nil => simp
  | cons column region ih =>
    obtain ⟨hlen, hwidth, hcolumn⟩ := ih fun c hc => h c (List.mem_cons_of_mem column hc)
    have hk : column.length = k := h column List.mem_cons_self
    rw [List.foldr_cons]
    generalize region.foldr (List.zipWith List.cons) (List.replicate k []) = rs
      at hlen hwidth hcolumn
    refine ⟨by simp [hlen, hk], fun row hrow => ?_, fun j hj => ?_⟩
    · obtain ⟨i, hi, rfl⟩ := List.getElem_of_mem hrow
      simp [hwidth]
    · cases j with
      | zero => exact List.ext_getElem (by simp [hlen, hk]) (by simp)
      | succ j =>
        have hj' : j < region.length := by simpa using hj
        rw [List.getElem_cons_succ, ← hcolumn j hj']
        exact List.ext_getElem (by simp [hlen, hk]) (by simp)

section Region

variable {columns : Nat} (h : IsRegion columns k region) (hcolumns : columns ≠ 0)
include h hcolumns

theorem rowCount_of_isRegion : rowCount region = k := by
  obtain ⟨column, rest, rfl⟩ := List.exists_cons_of_ne_nil (l := region) (by
    rintro rfl
    exact hcolumns h.width.symm)
  simpa [rowCount] using h.height column List.mem_cons_self

theorem rows_spec : (rows region).length = k ∧ (∀ row ∈ rows region, row.length = columns) ∧
    ∀ (j : Nat) (hj : j < region.length), (rows region).map (·[j]?) = region[j].map some := by
  rw [rows, rowCount_of_isRegion h hcolumns, ← h.width]
  exact zipRows_spec h.height

theorem mem_of_mem_rows {row : List R} (hrow : row ∈ rows region) {x : R} (hx : x ∈ row) :
    x ∈ region.flatten := by
  obtain ⟨-, hwidth, hcolumn⟩ := rows_spec h hcolumns
  obtain ⟨j, hj, rfl⟩ := List.getElem_of_mem hx
  have hj' : j < region.length := by rwa [h.width, ← hwidth row hrow]
  have hmem : some row[j] ∈ (rows region).map (·[j]?) :=
    List.mem_map.mpr ⟨row, hrow, List.getElem?_eq_getElem hj⟩
  rw [hcolumn j hj', List.mem_map] at hmem
  obtain ⟨y, hy, heq⟩ := hmem
  rw [← Option.some.inj heq]
  exact List.mem_flatten.mpr ⟨_, List.getElem_mem hj', hy⟩

theorem fill_rows [Add R] [Sub R] [Mul R] [Div R] [BEq R] (hk : k ≠ 0) :
    Table.fill ((rows region).map (·.map some)) = .ok region := by
  obtain ⟨hlen, hwidth, hcolumn⟩ := rows_spec h hcolumns
  obtain ⟨xs, rest, rfl⟩ := List.exists_cons_of_ne_nil (l := region) (by
    rintro rfl
    exact hcolumns h.width.symm)
  refine Table.fill_given ?_ ?_ ?_ ?_
  · intro hnil
    rw [List.map_eq_nil_iff] at hnil
    simp [hnil] at hlen
    exact hk hlen.symm
  · intro row hrow
    obtain ⟨row', hrow', rfl⟩ := List.mem_map.mp hrow
    rw [List.length_map, hwidth row' hrow', ← h.width, List.length_cons]
  · refine Eq.trans ?_ (hcolumn 0 (by simp))
    rw [List.map_map]
    exact List.map_congr_left fun row _ => by cases row <;> rfl
  · intro j hj
    refine Eq.trans ?_ (hcolumn (j + 1) (by simpa using hj))
    rw [List.map_map]
    refine List.map_congr_left fun row _ => ?_
    simp only [Function.comp_apply, List.getElem?_map]
    cases row[j + 1]? <;> rfl

end Region

end RegionTable

end ReservoirDeck
