import Mathlib.Algebra.Order.Field.Rat
import Mathlib.Data.List.Pairwise
import Mathlib.Data.List.ReduceOption
import Mathlib.Order.Interval.Set.OrdConnected
import Mathlib.Tactic.FieldSimp
import Mathlib.Tactic.Linarith
import Mathlib.Tactic.Ring
import ReservoirDeck.Proofs.Table.Neighbours

/-!
Filling in exact arithmetic. At increasing abscissae a filled entry lies on the line through its
neighbours, so that it can stand as given for the entries below it. Whatever a column of given
entries keeps from row to row is then kept by an induction over the rows.
-/

namespace ReservoirDeck

namespace Table

section Line

variable {xa x xb a b v : ℚ} (hxa : xa < x) (hxb : x < xb)
include hxa hxb

/-- The line through a point of a line and an end of it is that line. -/
theorem line_through (y : ℚ) (hv : v = a + (x - xa) / (xb - xa) * (b - a)) :
    v + (y - x) / (xb - x) * (b - v) = a + (y - xa) / (xb - xa) * (b - a) := by
  have hab : xb - xa ≠ 0 := sub_ne_zero.mpr (hxa.trans hxb).ne'
  have hb : xb - x ≠ 0 := sub_ne_zero.mpr hxb.ne'
  subst hv
  field_simp
  ring

theorem line_mem_uIcc : a + (x - xa) / (xb - xa) * (b - a) ∈ Set.uIcc a b := by
  have hspan : 0 < xb - xa := sub_pos.mpr (hxa.trans hxb)
  have hnonneg : 0 ≤ (x - xa) / (xb - xa) := div_nonneg (sub_pos.mpr hxa).le hspan.le
  have hle : (x - xa) / (xb - xa) ≤ 1 := by
    rw [div_le_one hspan]
    linarith
  generalize (x - xa) / (xb - xa) = t at hnonneg hle
  rw [Set.mem_uIcc]
  rcases le_total a b with hab | hba
  · have h₁ := mul_nonneg hnonneg (sub_nonneg.mpr hab)
    have h₂ := mul_nonneg (sub_nonneg.mpr hle) (sub_nonneg.mpr hab)
    exact .inl ⟨by linarith, by linarith⟩
  · have h₁ := mul_nonneg hnonneg (sub_nonneg.mpr hba)
    have h₂ := mul_nonneg (sub_nonneg.mpr hle) (sub_nonneg.mpr hba)
    exact .inr ⟨by linarith, by linarith⟩

theorem line_affine (p q : ℚ) :
    p * xa + q + (x - xa) / (xb - xa) * (p * xb + q - (p * xa + q)) = p * x + q := by
  have hab : xb - xa ≠ 0 := sub_ne_zero.mpr (hxa.trans hxb).ne'
  field_simp
  ring

end Line

section Between

variable {above below : Option (ℚ × ℚ)} {x v : ℚ} (habove : ∀ a ∈ above, a.1 < x)
  (hbelow : ∀ b ∈ below, x < b.1) (hv : between x above below = some v)
include habove hbelow hv

/-- An entry that was left out is on the line through its neighbours, or equals the only one. -/
theorem between_cases :
    (∃ a b, above = some a ∧ below = some b ∧
      v = a.2 + (x - a.1) / (b.1 - a.1) * (b.2 - a.2)) ∨
    (∃ a, above = some a ∧ below = none ∧ v = a.2) ∨
    (∃ b, above = none ∧ below = some b ∧ v = b.2) := by
  cases above with
  | none =>
    cases below with
    | none => cases hv
    | some b =>
      cases hv
      exact .inr (.inr ⟨b, rfl, rfl, rfl⟩)
  | some a =>
    cases below with
    | none =>
      cases hv
      exact .inr (.inl ⟨a, rfl, rfl, rfl⟩)
    | some b =>
      have hne : b.1 ≠ a.1 := ((habove a rfl).trans (hbelow b rfl)).ne'
      simp only [between, bne_iff_ne, ne_eq, hne, not_false_eq_true, if_true,
        Option.some.injEq] at hv
      exact .inl ⟨a, b, rfl, rfl, hv.symm⟩

/-- A filled entry makes of those below it what its upper neighbour makes of them. -/
theorem between_filled (y : ℚ) : between y (some (x, v)) below = between y above below := by
  rcases between_cases habove hbelow hv with ⟨a, b, rfl, rfl, hline⟩ | ⟨a, rfl, rfl, rfl⟩ |
    ⟨b, rfl, rfl, rfl⟩
  · have hxa := habove a rfl
    have hxb := hbelow b rfl
    simp only [between, bne_iff_ne, ne_eq, hxb.ne', (hxa.trans hxb).ne', not_false_eq_true, if_true,
      line_through hxa hxb y hline]
  · rfl
  · simp [between]

end Between

/-- Filling row after row, each filled entry being given to those below it. -/
inductive Fills : Option (ℚ × ℚ) → List (ℚ × Option ℚ) → List ℚ → Prop
  | nil {above : Option (ℚ × ℚ)} : Fills above [] []
  | given {above : Option (ℚ × ℚ)} {x v : ℚ} {cells : List (ℚ × Option ℚ)} {column : List ℚ} :
      Fills (some (x, v)) cells column → Fills above ((x, some v) :: cells) (v :: column)
  | gap {above : Option (ℚ × ℚ)} {x v : ℚ} {cells : List (ℚ × Option ℚ)} {column : List ℚ} :
      (∀ a ∈ above, a.1 < x) → (∀ b ∈ nextGiven cells, x < b.1) →
      between x above (nextGiven cells) = some v →
      Fills (some (x, v)) cells column → Fills above ((x, none) :: cells) (v :: column)

theorem mem_of_nextGiven {R : Type} {cells : List (R × Option R)} {b : R × R}
    (h : nextGiven cells = some b) : (b.1, some b.2) ∈ cells := by
  obtain ⟨⟨x, entry⟩, hcell, hb⟩ := List.exists_of_findSome?_eq_some h
  obtain ⟨v, rfl, rfl⟩ := Option.map_eq_some_iff.mp hb
  exact hcell

theorem fillColumn_filled {above : Option (ℚ × ℚ)} {x v : ℚ} {cells : List (ℚ × Option ℚ)}
    (habove : ∀ a ∈ above, a.1 < x) (hbelow : ∀ cell ∈ cells, x < cell.1)
    (hv : between x above (nextGiven cells) = some v) :
    fillColumn above cells = fillColumn (some (x, v)) cells := by
  induction cells with
  | nil => rfl
  | cons cell cells ih =>
    obtain ⟨y, entry⟩ := cell
    cases entry with
    | some w => rfl
    | none =>
      have hnext : ∀ b ∈ nextGiven cells, x < b.1 := fun b hb =>
        hbelow _ (List.mem_cons_of_mem _ (mem_of_nextGiven hb))
      rw [fillColumn, fillColumn, between_filled habove hnext hv,
        ih (fun cell hcell => hbelow cell (List.mem_cons_of_mem _ hcell)) hv]

theorem fills_fillColumn {above : Option (ℚ × ℚ)} {cells : List (ℚ × Option ℚ)} {column : List ℚ}
    (habove : ∀ a ∈ above, ∀ cell ∈ cells, a.1 < cell.1)
    (hcells : (cells.map Prod.fst).Pairwise (· < ·)) (h : fillColumn above cells = some column) :
    Fills above cells column := by
  induction cells generalizing above column with
  | nil =>
    cases h
    exact .nil
  | cons cell cells ih =>
    obtain ⟨x, entry⟩ := cell
    obtain ⟨hx, hrest⟩ := List.pairwise_cons.mp hcells
    have hbelow : ∀ cell ∈ cells, x < cell.1 := fun cell hcell =>
      hx cell.1 (List.mem_map_of_mem hcell)
    have hstands : ∀ v : ℚ, ∀ a ∈ some (x, v), ∀ cell ∈ cells, a.1 < cell.1 := fun v a ha => by
      cases ha
      exact hbelow
    cases entry with
    | some v =>
      obtain ⟨vs, hvs, rfl⟩ := Option.map_eq_some_iff.mp h
      exact .given (ih (hstands v) hrest hvs)
    | none =>
      obtain ⟨v, hv, hcolumn⟩ := Option.bind_eq_some_iff.mp h
      obtain ⟨vs, hvs, heq⟩ := Option.bind_eq_some_iff.mp hcolumn
      cases heq
      have ha : ∀ a ∈ above, a.1 < x := fun a ha => habove a ha _ List.mem_cons_self
      rw [fillColumn_filled ha hbelow hv] at hvs
      exact .gap ha (fun b hb => hbelow _ (mem_of_nextGiven hb)) hv (ih (hstands v) hrest hvs)

section Shape

variable {above : Option (ℚ × ℚ)} {cells : List (ℚ × Option ℚ)} {column : List ℚ}

theorem Fills.mem_of_ordConnected (h : Fills above cells column) {s : Set ℚ} [s.OrdConnected]
    (habove : ∀ a ∈ above, a.2 ∈ s) (hgiven : ∀ v ∈ cells.filterMap Prod.snd, v ∈ s) :
    ∀ v ∈ column, v ∈ s := by
  induction h with
  | nil => simp
  | @given above x v cells column _ ih =>
    rw [List.filterMap_cons_some (f := Prod.snd) rfl, List.forall_mem_cons] at hgiven
    exact List.forall_mem_cons.mpr ⟨hgiven.1, ih (by simpa using hgiven.1) hgiven.2⟩
  | @gap above x v cells column ha hb hv _ ih =>
    rw [List.filterMap_cons_none rfl] at hgiven
    have hbelow : ∀ b ∈ nextGiven cells, b.2 ∈ s := fun b hb =>
      hgiven b.2 (List.mem_filterMap.mpr ⟨_, mem_of_nextGiven hb, rfl⟩)
    have hmem : v ∈ s := by
      rcases between_cases ha hb hv with ⟨a, b, rfl, hbe, rfl⟩ | ⟨a, rfl, -, rfl⟩ | ⟨b, -, hbe, rfl⟩
      · exact Set.OrdConnected.uIcc_subset ‹_› (habove a rfl) (hbelow b hbe)
          (line_mem_uIcc (ha a rfl) (hb b hbe))
      · exact habove a rfl
      · exact hbelow b hbe
    exact List.forall_mem_cons.mpr ⟨hmem, ih (by simpa using hmem) hgiven⟩

theorem head?_given {R : Type} (cells : List (R × Option R)) :
    (cells.filterMap Prod.snd).head? = (nextGiven cells).map Prod.snd := by
  induction cells with
  | nil => rfl
  | cons cell cells ih =>
    obtain ⟨x, entry⟩ := cell
    cases entry with
    | some v => rfl
    | none => exact ih

theorem Fills.pairwise (h : Fills above cells column) {r : ℚ → ℚ → Prop} [IsPreorder ℚ r]
    (hr : ∀ a b v, r a b → v ∈ Set.uIcc a b → r a v ∧ r v b)
    (hgiven : ((above.map Prod.snd).toList ++ cells.filterMap Prod.snd).Pairwise r) :
    ((above.map Prod.snd).toList ++ column).Pairwise r := by
  induction h with
  | @nil above => cases above <;> simp
  | @given above x v cells column _ ih =>
    rw [List.filterMap_cons_some (f := Prod.snd) rfl] at hgiven
    cases above with
    | none => exact ih hgiven
    | some a =>
      obtain ⟨hav, hrest⟩ := List.pairwise_cons_cons_iff_of_trans.mp hgiven
      exact List.pairwise_cons_cons_iff_of_trans.mpr ⟨hav, ih hrest⟩
  | @gap above x v cells column ha hb hv _ ih =>
    rw [List.filterMap_cons_none rfl] at hgiven
    have hhead := head?_given cells
    rcases between_cases ha hb hv with ⟨a, b, rfl, hbe, hline⟩ | ⟨a, rfl, hbe, rfl⟩ |
      ⟨b, rfl, hbe, rfl⟩ <;> rw [hbe] at hhead
    · obtain ⟨rest, hrest⟩ := List.head?_eq_some_iff.mp hhead
      rw [hrest] at hgiven ih
      obtain ⟨hab, hbs⟩ := List.pairwise_cons_cons_iff_of_trans.mp hgiven
      obtain ⟨hav, hvb⟩ := hr a.2 b.2 v hab (hline ▸ line_mem_uIcc (ha a rfl) (hb b hbe))
      exact List.pairwise_cons_cons_iff_of_trans.mpr
        ⟨hav, ih (List.pairwise_cons_cons_iff_of_trans.mpr ⟨hvb, hbs⟩)⟩
    · exact List.pairwise_cons_cons_iff_of_trans.mpr ⟨refl a.2, ih hgiven⟩
    · obtain ⟨rest, hrest⟩ := List.head?_eq_some_iff.mp hhead
      rw [hrest] at hgiven ih
      exact ih (List.pairwise_cons_cons_iff_of_trans.mpr ⟨refl b.2, hgiven⟩)

theorem isSome_nextGiven_of_last {R : Type} {x : R} {cells : List (R × Option R)}
    (h : ∀ cell ∈ ((x, none) :: cells).getLast?, cell.2.isSome = true) :
    (nextGiven cells).isSome = true := by
  rw [List.getLast?_cons] at h
  have hlast := h _ rfl
  cases hcells : cells.getLast? with
  | none => simp [hcells] at hlast
  | some cell =>
    rw [hcells] at hlast
    exact isSome_nextGiven.mpr ⟨cell, List.mem_of_getLast? hcells, hlast⟩

theorem getLast?_of_cons {R : Type} {cell : R × Option R} {cells : List (R × Option R)}
    (h : ∀ c ∈ (cell :: cells).getLast?, c.2.isSome = true) :
    ∀ c ∈ cells.getLast?, c.2.isSome = true := by
  intro c hc
  rw [List.getLast?_cons] at h
  exact h c (by simp [Option.mem_def.mp hc])

/-- A column that is affine in the abscissae is restored, once an entry above it and its last one
are given. -/
theorem Fills.affine (h : Fills above cells column) {p q : ℚ}
    (hlast : ∀ cell ∈ cells.getLast?, cell.2.isSome = true)
    (habove : ∀ a ∈ above, a.2 = p * a.1 + q)
    (hfirst : above = none → ∀ cell ∈ cells.head?, cell.2.isSome = true)
    (hgiven : ∀ cell ∈ cells, ∀ v ∈ cell.2, v = p * cell.1 + q) :
    column = cells.map fun cell => p * cell.1 + q := by
  induction h with
  | nil => rfl
  | @given above x v cells column _ ih =>
    obtain ⟨hv, hrest⟩ := List.forall_mem_cons.mp hgiven
    have hentry : v = p * x + q := hv v rfl
    rw [ih (getLast?_of_cons hlast) (by simpa using hentry) (by simp) hrest, hentry, List.map_cons]
  | @gap above x v cells column ha hb hv _ ih =>
    have hrest := (List.forall_mem_cons.mp hgiven).2
    have hentry : v = p * x + q := by
      rcases between_cases ha hb hv with ⟨a, b, rfl, hbe, rfl⟩ | ⟨a, -, hbe, -⟩ | ⟨b, rfl, -, -⟩
      · rw [habove a rfl, hrest _ (mem_of_nextGiven hbe) b.2 rfl,
          line_affine (ha a rfl) (hb b hbe)]
      · have hsome := isSome_nextGiven_of_last hlast
        rw [hbe] at hsome
        cases hsome
      · have hsome := hfirst rfl _ rfl
        cases hsome
    rw [ih (getLast?_of_cons hlast) (by simpa using hentry) (by simp) hrest, hentry, List.map_cons]

end Shape

section Column

variable {xs : List ℚ} {entries : List (Option ℚ)} {column : List ℚ}

theorem filterMap_zip_snd {R : Type} {xs : List R} {entries : List (Option R)}
    (hlen : xs.length = entries.length) :
    (xs.zip entries).filterMap Prod.snd = entries.reduceOption := by
  have hsnd : (xs.zip entries).map Prod.snd = entries := List.map_snd_zip hlen.ge
  conv_rhs => rw [← hsnd]
  rw [List.reduceOption, List.filterMap_map, Function.id_comp]

variable (hinc : xs.Pairwise (· < ·)) (hlen : xs.length = entries.length)
  (h : fillColumn none (xs.zip entries) = some column)
include hinc hlen h

theorem fills_zip : Fills none (xs.zip entries) column :=
  fills_fillColumn (by simp) (by rwa [List.map_fst_zip hlen.le]) h

theorem pairwise_of_given {r : ℚ → ℚ → Prop} [IsPreorder ℚ r]
    (hr : ∀ a b v, r a b → v ∈ Set.uIcc a b → r a v ∧ r v b)
    (hgiven : entries.reduceOption.Pairwise r) : column.Pairwise r :=
  (fills_zip hinc hlen h).pairwise hr (by simpa [filterMap_zip_snd hlen] using hgiven)

theorem between_min_max (hgiven : entries.reduceOption ≠ []) :
    ∃ lo hi, entries.reduceOption.min? = some lo ∧ entries.reduceOption.max? = some hi ∧
      ∀ v ∈ column, lo ≤ v ∧ v ≤ hi := by
  obtain ⟨lo, hlo⟩ := Option.ne_none_iff_exists'.mp (mt List.min?_eq_none_iff.mp hgiven)
  obtain ⟨hi, hhi⟩ := Option.ne_none_iff_exists'.mp (mt List.max?_eq_none_iff.mp hgiven)
  refine ⟨lo, hi, hlo, hhi, (fills_zip hinc hlen h).mem_of_ordConnected (s := Set.Icc lo hi)
    (by simp) fun v hv => ?_⟩
  rw [filterMap_zip_snd hlen] at hv
  exact ⟨(List.min?_eq_some_iff.mp hlo).2 v hv, (List.max?_eq_some_iff.mp hhi).2 v hv⟩

theorem affine_restored {p q : ℚ}
    (hentries : List.Forall₂ (fun x entry => entry = none ∨ entry = some (p * x + q)) xs entries)
    (hfirst : entries.head? ≠ some none) (hlast : entries.getLast? ≠ some none) :
    column = xs.map fun x => p * x + q := by
  have hsnd : (xs.zip entries).map Prod.snd = entries := List.map_snd_zip hlen.ge
  rw [← hsnd, List.head?_map] at hfirst
  rw [← hsnd, List.getLast?_map] at hlast
  have hmap : column = (xs.zip entries).map fun cell => p * cell.1 + q := by
    refine (fills_zip hinc hlen h).affine (fun cell hcell => ?_) (by simp) (fun _ cell hcell => ?_)
      fun cell hcell v hv => ?_
    · rw [Option.mem_def.mp hcell] at hlast
      exact Option.isSome_iff_ne_none.mpr fun hnone => hlast (congrArg some hnone)
    · rw [Option.mem_def.mp hcell] at hfirst
      exact Option.isSome_iff_ne_none.mpr fun hnone => hfirst (congrArg some hnone)
    · rcases List.forall₂_zip hentries hcell with hnone | hsome
      · rw [hnone] at hv
        cases hv
      · rw [hsome] at hv
        exact (Option.some.inj hv).symm
  rw [hmap]
  conv_rhs => rw [← List.map_fst_zip hlen.le, List.map_map]
  rfl

end Column

/-- Columns over increasing abscissae, in exact arithmetic. A column with a given entry is filled,
keeps the order of its given entries, stays between the least and the greatest of them, and is
restored where it is affine in the abscissae. -/
theorem fill_increasing {rows : List (List (Option ℚ))} {xs : List ℚ} {w c : ℕ}
    (hwidth : ∀ row ∈ rows, row.length = w) (hxs : rows.map (·.head?.join) = xs.map some)
    (hinc : xs.Pairwise (· < ·)) (hc : c < w) (hgiven : (entriesAt rows c).reduceOption ≠ []) :
    ((∀ d < w, (entriesAt rows d).reduceOption ≠ []) → ∃ columns, fill rows = .ok columns) ∧
    ∃ column, fillColumn none (xs.zip (entriesAt rows c)) = some column ∧
      (∀ columns, fill rows = .ok columns → columns[c]? = some column) ∧
      ((entriesAt rows c).reduceOption.Pairwise (· ≤ ·) → column.Pairwise (· ≤ ·)) ∧
      ((entriesAt rows c).reduceOption.Pairwise (· ≥ ·) → column.Pairwise (· ≥ ·)) ∧
      (∃ lo hi, (entriesAt rows c).reduceOption.min? = some lo ∧
        (entriesAt rows c).reduceOption.max? = some hi ∧ ∀ v ∈ column, lo ≤ v ∧ v ≤ hi) ∧
      ∀ p q : ℚ,
        List.Forall₂ (fun x entry => entry = none ∨ entry = some (p * x + q)) xs
          (entriesAt rows c) →
        (entriesAt rows c).head? ≠ some none → (entriesAt rows c).getLast? ≠ some none →
        column = xs.map fun x => p * x + q := by
  have hlen : xs.length = (entriesAt rows c).length := by
    simpa [entriesAt] using (congrArg List.length hxs).symm
  have hne : rows ≠ [] := by
    rintro rfl
    exact hgiven rfl
  have hsome : ∀ d : ℕ, (entriesAt rows d).reduceOption ≠ [] ↔
      ∃ entry ∈ entriesAt rows d, entry.isSome = true := fun d => by
    simp [List.reduceOption, List.filterMap_eq_nil_iff, Option.isSome_iff_ne_none]
  refine ⟨fun hall => ?_, ?_⟩
  · refine (exists_fill hne).mpr ⟨exists_map_some.mp ⟨xs, hxs⟩, fun d hd => ?_⟩
    have hdw := List.mem_range'_1.mp hd
    rw [head_length hne hwidth] at hdw
    exact mem_entriesAt.mp ((hsome d).mp (hall d (by omega)))
  · have hnil : entriesAt rows c ≠ [] := by simpa [entriesAt] using hne
    obtain ⟨column, h⟩ := (exists_fillColumn_zip hlen hnil).mpr ((hsome c).mp hgiven)
    refine ⟨column, h, fun columns hfill => ?_, pairwise_of_given hinc hlen h ?_,
      pairwise_of_given hinc hlen h ?_, between_min_max hinc hlen h hgiven,
      fun p q => affine_restored hinc hlen h⟩
    · have hcols : c < columns.length := by
        rwa [length_of_fill hne hwidth (Nat.one_le_of_lt hc) hfill]
      have hcolumn := List.getElem?_eq_getElem hcols
      rw [hcolumn, ← h, fillColumn_of_fill hfill hxs hcolumn]
    · intro a b v hab hv
      rwa [Set.uIcc_of_le hab] at hv
    · intro a b v hba hv
      rw [Set.uIcc_of_ge hba] at hv
      exact hv.symm

/-- A gap in the middle of a column that is affine in the abscissae. -/
theorem fill_increasing_gap : ∃ column,
    fillColumn none ([0, 1, 3].zip
      (entriesAt [[some 0, some 1], [some 1, none], [some 3, some (7 : ℚ)]] 1)) = some column ∧
    column.Pairwise (· ≤ ·) ∧ column = [1, 3, 7] := by
  have hwidth : ∀ row ∈ [[some 0, some 1], [some 1, none], [some 3, some (7 : ℚ)]],
      row.length = 2 := by simp
  have hinc : [0, 1, (3 : ℚ)].Pairwise (· < ·) := by norm_num
  obtain ⟨-, column, h, -, hmono, -, -, haffine⟩ := fill_increasing (c := 1) hwidth (by rfl) hinc
    (by decide) (by simp [entriesAt, List.reduceOption])
  refine ⟨column, h, hmono (by simp [entriesAt, List.reduceOption]), ?_⟩
  rw [haffine 2 1 (by norm_num [entriesAt]) (by simp [entriesAt]) (by simp [entriesAt])]
  norm_num

end Table

end ReservoirDeck
