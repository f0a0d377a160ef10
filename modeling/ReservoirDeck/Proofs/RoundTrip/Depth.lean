import ReservoirDeck.Proofs.RoundTrip.Tables
import ReservoirDeck.Table.Depth

/-!
Tables of end points read back. A row is spread over the columns of the deck, and the kept columns
are found again where they were put.
-/

namespace ReservoirDeck

namespace DepthLayout

/-- The kept columns are in order, all of them in the row, and depth is the first. -/
structure IsOrdered (layout : DepthLayout) : Prop where
  depth : layout.kept.head? = some 0
  sorted : layout.kept.Pairwise (· < ·)
  inside : ∀ column ∈ layout.kept, column < layout.width

/-- What is read of the words of a row, from `column` on. -/
def entries (layout : DepthLayout) (column : Nat) : (count : Nat) → List Float → List (Option Float)
  | 0, _ => []
  | count + 1, row =>
    if layout.kept.contains column then
      row.head? :: layout.entries (column + 1) count row.tail
    else none :: layout.entries (column + 1) count row

variable (layout : DepthLayout)

theorem entryWords (column count : Nat) {row : List Float} (hrow : AllFinite row) :
    List.Forall₂ (EntryWord Float) (layout.spread column count row)
      (layout.entries column count row) := by
  induction count generalizing column row with
  | zero => exact .nil
  | succ count ih =>
    by_cases hkept : layout.kept.contains column = true
    · cases row with
      | nil =>
        simp only [spread, entries, hkept, if_true]
        exact .cons .missing (ih (column + 1) hrow)
      | cons x row =>
        simp only [spread, entries, hkept, if_true]
        exact .cons (entryWord_deckText (hrow x List.mem_cons_self))
          (ih (column + 1) fun y hy => hrow y (List.mem_cons_of_mem x hy))
    · simp only [spread, entries, hkept, Bool.false_eq_true, if_false]
      exact .cons .missing (ih (column + 1) hrow)

@[simp] theorem length_entries (column count : Nat) (row : List Float) :
    (layout.entries column count row).length = count := by
  induction count generalizing column row with
  | zero => rfl
  | succ count ih =>
    rw [entries]
    split <;> simp [ih]

theorem unsupported?_entries (column count : Nat) (row : List Float) :
    layout.unsupported? column (layout.entries column count row) = none := by
  induction count generalizing column row with
  | zero => rfl
  | succ count ih =>
    rw [entries]
    split
    · next hkept => simp [unsupported?, List.contains_iff_mem.mp hkept, ih]
    · simp [unsupported?, ih]

/-- The kept columns from `column` on. -/
structure KeptFrom (column : Nat) (ks : List Nat) : Prop where
  mem_iff : ∀ c, c ∈ ks ↔ c ∈ layout.kept ∧ column ≤ c
  sorted : ks.Pairwise (· < ·)

namespace KeptFrom

variable {layout} {column : Nat} {ks : List Nat}

theorem cons (h : layout.KeptFrom column ks) (hkept : column ∈ layout.kept) :
    ∃ ks', ks = column :: ks' ∧ layout.KeptFrom (column + 1) ks' := by
  have hmem := (h.mem_iff column).mpr ⟨hkept, Nat.le_refl column⟩
  obtain ⟨k, ks, rfl⟩ := List.exists_cons_of_ne_nil (List.ne_nil_of_mem hmem)
  obtain ⟨hfirst, hsorted⟩ := List.pairwise_cons.mp h.sorted
  obtain rfl : k = column := by
    have hlow := ((h.mem_iff k).mp List.mem_cons_self).2
    rcases List.mem_cons.mp hmem with heq | hlater
    · exact heq.symm
    · have := hfirst column hlater
      omega
  refine ⟨ks, rfl, fun c => ?_, hsorted⟩
  constructor
  · intro hc
    exact ⟨((h.mem_iff c).mp (List.mem_cons_of_mem k hc)).1, hfirst c hc⟩
  · rintro ⟨hc, hlow⟩
    have hmem := (h.mem_iff c).mpr ⟨hc, by omega⟩
    exact (List.mem_cons.mp hmem).resolve_left (by omega)

theorem skip (h : layout.KeptFrom column ks) (hkept : column ∉ layout.kept) :
    layout.KeptFrom (column + 1) ks := by
  refine ⟨fun c => ?_, h.sorted⟩
  rw [h.mem_iff c]
  refine and_congr_right fun hc => ?_
  have : c ≠ column := fun heq => hkept (heq ▸ hc)
  omega

theorem sub_eq (h : layout.KeptFrom (column + 1) ks) {i : Nat} (hi : i < ks.length) :
    ks[i] - column = ks[i] - (column + 1) + 1 := by
  have := ((h.mem_iff ks[i]).mp (List.getElem_mem hi)).2
  omega

end KeptFrom

theorem getElem?_entries (column : Nat) {ks : List Nat} {count : Nat} {row : List Float}
    (hks : layout.KeptFrom column ks) (hinside : ∀ c ∈ ks, c < column + count)
    (hlen : row.length = ks.length) {i : Nat} (hi : i < ks.length) :
    (layout.entries column count row)[ks[i] - column]?.join = row[i]? := by
  induction count generalizing ks column row i with
  | zero =>
    have hmem := List.getElem_mem hi
    have hlow := ((hks.mem_iff ks[i]).mp hmem).2
    have hhigh := hinside ks[i] hmem
    omega
  | succ count ih =>
    rw [entries]
    by_cases hkept : column ∈ layout.kept
    · rw [if_pos (List.contains_iff_mem.mpr hkept)]
      obtain ⟨ks, rfl, hnext⟩ := hks.cons hkept
      obtain ⟨x, row, rfl⟩ := List.exists_cons_of_length_eq_add_one hlen
      cases i with
      | zero => simp
      | succ i =>
        have hi' : i < ks.length := by simpa using hi
        have h := ih (column + 1) hnext
          (fun c hc => by have := hinside c (List.mem_cons_of_mem column hc); omega)
          (Nat.succ.inj hlen) hi'
        rw [List.getElem_cons_succ, hnext.sub_eq hi', List.getElem?_cons_succ, List.tail_cons, h,
          List.getElem?_cons_succ]
    · rw [if_neg (mt List.contains_iff_mem.mp hkept)]
      have hnext := hks.skip hkept
      have h := ih (column + 1) hnext (fun c hc => by have := hinside c hc; omega) hlen hi
      rw [hnext.sub_eq hi, List.getElem?_cons_succ, h]

section Ordered

variable {layout} (h : layout.IsOrdered)
include h

theorem IsOrdered.kept_pos : 0 < layout.kept.length := by
  rw [List.length_pos_iff]
  intro hnil
  simpa [hnil] using h.depth

theorem IsOrdered.width_ne_zero : layout.width ≠ 0 :=
  Nat.ne_of_gt (h.inside 0 (List.mem_of_head? h.depth))

variable {row : List Float} (hlen : row.length = layout.kept.length)
include hlen

theorem getElem?_entries_kept {i : Nat} (hi : i < layout.kept.length) :
    (layout.entries 0 layout.width row)[layout.kept[i]]?.join = row[i]? :=
  layout.getElem?_entries 0 ⟨by simp, h.sorted⟩ (by simpa using h.inside) hlen hi

theorem head?_entries : (layout.entries 0 layout.width row).head?.join = row[0]? := by
  obtain ⟨k, ks, hks⟩ := List.exists_cons_of_length_pos h.kept_pos
  have hpos := h.kept_pos
  have hzero : layout.kept[0] = 0 := by
    simpa [hks] using h.depth
  have hget := getElem?_entries_kept h hlen hpos
  rw [hzero] at hget
  rwa [List.head?_eq_getElem?]

end Ordered

end DepthLayout

namespace ReadM

variable {layout : DepthLayout} (h : layout.IsOrdered)
include h

theorem depthRow_reads {row : List Float} (hrow : AllFinite row)
    (hlen : row.length = layout.kept.length) :
    FieldReads (depthRow layout) (layout.spread 0 layout.width row)
      (layout.entries 0 layout.width row) := by
  have hread := RecordM.optionalNumbers_reads (layout.entryWords 0 layout.width hrow)
  rw [DepthLayout.length_entries] at hread
  have hhead : (layout.entries 0 layout.width row).head?.join.isNone = false := by
    have hpos : 0 < row.length := by
      rw [hlen]
      exact h.kept_pos
    rw [DepthLayout.head?_entries h hlen, List.getElem?_eq_getElem hpos]
    rfl
  apply hread.bind_nil
  simp only [Nat.lt_irrefl, if_false, hhead, Bool.false_eq_true, DepthLayout.unsupported?_entries]
  exact .pure _

theorem spread_eq_cons {row : List Float} (hrow : AllFinite row) :
    ∃ w ws, layout.spread 0 layout.width row = w :: ws ∧ DataText w := by
  have hwords := layout.entryWords 0 layout.width hrow
  have hwidth : layout.width ≠ 0 := by
    have hmem := List.mem_of_mem_head? (a := 0) (by rw [h.depth]; rfl)
    have := h.inside 0 hmem
    omega
  have hcount := hwords.length_eq
  rw [DepthLayout.length_entries] at hcount
  generalize layout.spread 0 layout.width row = ws at hwords hcount
  generalize layout.entries 0 layout.width row = es at hwords
  cases hwords with
  | nil => exact absurd hcount.symm hwidth
  | cons hw => exact ⟨_, _, rfl, hw.dataText⟩

theorem depthStep_row {row : List Float} (hrow : AllFinite row)
    (hlen : row.length = layout.kept.length) (t : OpenTable) {r : DeckReader} {z rest : List UInt8}
    (hz : Spells (layout.spread 0 layout.width row) z)
    (hr : r.cursor.rest = z ++ Byte.newline :: rest) :
    depthStep layout t r =
      (do
        let t : OpenTable := { t with rows := t.rows ++ [layout.entries 0 layout.width row] }
        if ← terminator then return .inl (← closeDepthRegion layout t) else return .inl t :
          ReadM (OpenTable ⊕ OpenTable)) (r.forward z.length) := by
  obtain ⟨w, ws, hws, hw⟩ := spread_eq_cons h hrow
  have hsep : Separated (Byte.newline :: rest) := separated_cons.mpr rfl
  rw [hws] at hz
  obtain ⟨gap, z, rfl, hz, hdata⟩ := lookahead_data hw hz hr hsep
  rw [List.append_assoc] at hr
  rw [← hws] at hz
  have hfields := depthRow_reads h hrow hlen (r.forward gap.length) z _ hz
    (DeckReader.rest_forward_length hr) fun _ => hsep
  have hread : RecordM.run (depthRow layout) (r.forward gap.length) =
      .ok (layout.entries 0 layout.width row) (r.forward (gap ++ z).length) := by
    rw [RecordM.run, hfields, DeckReader.forward_forward, List.length_append]
  rw [depthStep, Run.bind_of_ok _ hdata]
  simp only []
  rw [Run.bind_of_ok _ hread]

omit h in
theorem terminator_data {w : String} (hw : DataText w) {r : DeckReader} {rest : List UInt8}
    (hr : r.cursor.rest = Byte.newline :: (Text.bytes w ++ rest)) (hrest : Separated rest) :
    ReadM.terminator r = .ok false (r.forward 1) := by
  obtain ⟨first, tl, hb, hblank, hdash, -⟩ := (Word.bare hw.bare).lexeme hrest
  rw [hb, List.cons_append] at hr
  have hskip := skipTrivia_of_gap blank_newline hr hblank
    hdash
  have hhere : (r.forward 1).cursor.rest = first :: (tl ++ rest) :=
    DeckReader.rest_forward_length (w := [Byte.newline]) hr
  have hslash : first ≠ Byte.slash := by
    rintro rfl
    have hdata := hw.data Byte.slash (by simp [hb])
    exact absurd hdata (by decide)
  have hhead : ¬ (r.forward [Byte.newline].length).cursor.rest.head? = some Byte.slash := by
    rw [List.length_singleton, hhere]
    simpa using hslash
  simp only [ReadM.terminator, Run.modifyGet_eq, DeckReader.terminator, hskip]
  rw [if_neg hhead]
  rfl

omit h in
theorem mapM_eq {α β : Type} {f : α → ReadM β} {as : List α} {bs : List β} {r : DeckReader}
    (hf : List.Forall₂ (fun a b => f a r = .ok b r) as bs) : as.mapM f r = .ok bs r := by
  induction hf with
  | nil => rfl
  | cons hab _ ih =>
    rw [List.mapM_cons, Run.bind_of_ok _ hab, Run.bind_of_ok _ ih]
    rfl

/-- The rows that are read of a region. -/
def depthRows (layout : DepthLayout) (region : List (List Float)) : List (List (Option Float)) :=
  (RegionTable.rows region).map (layout.entries 0 layout.width)

section Region

variable {k : Nat} {region : List (List Float)} (hregion : IsRegion layout.kept.length k region)
  (hk : 2 ≤ k)
include hregion

theorem column_depthRows {i : Nat} (hi : i < layout.kept.length) (hi' : i < region.length) :
    (depthRows layout region).map (fun row => row[layout.kept[i]]?.join) =
      region[i].map some := by
  obtain ⟨-, hwidth, hcolumn⟩ := RegionTable.rows_spec hregion h.kept_pos.ne'
  rw [← hcolumn i (by rwa [hregion.width]), depthRows, List.map_map]
  exact List.map_congr_left fun row hrow =>
    DepthLayout.getElem?_entries_kept h (hwidth row hrow) hi

theorem depths_depthRows :
    ∃ xs : List Float, (depthRows layout region).map (·.head?.join) = xs.map some := by
  obtain ⟨-, hwidth, hcolumn⟩ := RegionTable.rows_spec hregion h.kept_pos.ne'
  have hpos : 0 < region.length := by
    rw [hregion.width]
    exact h.kept_pos
  refine ⟨region[0], ?_⟩
  rw [← hcolumn 0 hpos, depthRows, List.map_map]
  exact List.map_congr_left fun row hrow => DepthLayout.head?_entries h (hwidth row hrow)

include hk

theorem depthColumn_eq {i : Nat} (hi : i < layout.kept.length) (hi' : i < region.length)
    (r : DeckReader) :
    depthColumn (depthRows layout region) layout.kept[i] r =
      .ok region[i] r := by
  have hcolumn := column_depthRows h hregion hi hi'
  obtain ⟨xs, hxs⟩ := depths_depthRows h hregion
  have hlen : region[i].length = k :=
    hregion.height _ (List.getElem_mem _)
  have hgiven : ((depthRows layout region).map fun row => row[layout.kept[i]]?.join).all
      Option.isNone = false := by
    rw [hcolumn]
    generalize region[i] = column at hlen
    cases column with
    | nil =>
      rw [List.length_nil] at hlen
      omega
    | cons => simp
  have hne : depthRows layout region ≠ [] := by
    intro hnil
    have := congrArg List.length hcolumn
    simp [hnil, hlen] at this
    omega
  have hfill : Table.fill ((depthRows layout region).map fun row =>
      [row.head?.join, row[layout.kept[i]]?.join]) =
        .ok [xs, region[i]] := by
    refine Table.fill_given (by simpa using hne) (by simp) ?_ ?_
    · simpa [List.map_map, Function.comp_def] using hxs
    · intro j hj
      obtain rfl : j = 0 := by simpa using hj
      simpa [List.map_map, Function.comp_def] using hcolumn
  simp only [depthColumn, hgiven, Bool.and_false, Bool.false_eq_true, if_false, fillRows, hfill]
  rfl

theorem closeDepthRegion_eq (closed : List (List (List Float))) (r : DeckReader) :
    closeDepthRegion layout ⟨closed, depthRows layout region⟩ r = .ok ⟨closed ++ [region], []⟩ r := by
  obtain ⟨hlen, -⟩ := RegionTable.rows_spec hregion h.kept_pos.ne'
  have hrows : ¬ (depthRows layout region).length < 2 := by
    rw [depthRows, List.length_map, hlen]
    omega
  have hcolumns : layout.kept.mapM (depthColumn (depthRows layout region)) r = .ok region r := by
    refine mapM_eq (List.forall₂_iff_get.mpr ⟨hregion.width.symm, fun i hi hi' => ?_⟩)
    exact depthColumn_eq h hregion hk hi hi' r
  rw [closeDepthRegion, if_neg hrows, Run.bind_of_ok _ hcolumns]
  rfl

end Region

/-- The last row closes its region with the slash on the line after it. -/
theorem depthStep_last {row : List Float} (hrow : AllFinite row)
    (hlen : row.length = layout.kept.length) {t t' : OpenTable}
    (hclose : ∀ r, closeDepthRegion layout
      { t with rows := t.rows ++ [layout.entries 0 layout.width row] } r = .ok t' r)
    {r : DeckReader} {rest : List UInt8}
    (hr : r.cursor.rest = regionLines [layout.spread 0 layout.width row] ++ rest) :
    depthStep layout t r =
      .ok (.inl t') (r.forward (regionLines [layout.spread 0 layout.width row]).length) := by
  have hlines := regionLines_cons (layout.spread 0 layout.width row) []
  rw [hlines, List.append_assoc] at hr
  have hterm : terminator (r.forward (spelled true (layout.spread 0 layout.width row)).length) =
      .ok true (r.forward ((spelled true (layout.spread 0 layout.width row)).length + 3)) := by
    rw [terminator, Run.modifyGet_eq, DeckReader.terminator_slash
      (spells_slash.gap blank_newline (by simp)) (DeckReader.rest_forward_length hr)]
    simp
  rw [depthStep_row h hrow hlen t (spells_spelled true _) hr]
  simp only [Run.bind_of_ok _ hterm, if_true]
  rw [Run.bind_of_ok _ (hclose _), hlines, List.length_append]
  rfl

theorem depthStep_more {row row' : List Float} (hrow : AllFinite row)
    (hlen : row.length = layout.kept.length) (hrow' : AllFinite row') (t : OpenTable)
    {rows : List (List String)} {r : DeckReader} {rest : List UInt8}
    (hr : r.cursor.rest = spelled true (layout.spread 0 layout.width row) ++
      Byte.newline :: (regionLines (layout.spread 0 layout.width row' :: rows) ++ rest)) :
    depthStep layout t r =
      .ok (.inl { t with rows := t.rows ++ [layout.entries 0 layout.width row] })
        (r.forward ((spelled true (layout.spread 0 layout.width row)).length + 1)) := by
  obtain ⟨w, ws, hws, hw⟩ := spread_eq_cons h hrow'
  have hdata : (r.forward (spelled true (layout.spread 0 layout.width row)).length).cursor.rest =
      Byte.newline :: (Text.bytes w ++
        (spelled false ws ++ Byte.newline :: (regionLines rows ++ rest))) := by
    rw [DeckReader.rest_forward_length hr]
    simp [regionLines, hws, spelled]
  have hterm := terminator_data hw hdata
    ((separated_spelled ws).append (separated_cons.mpr rfl))
  rw [DeckReader.forward_forward] at hterm
  rw [depthStep_row h hrow hlen t (spells_spelled true _) hr]
  simp only [Run.bind_of_ok _ hterm, Bool.false_eq_true, if_false]
  rfl

/-- The rows of a region, of which some are read already, and its slash. -/
theorem iterate_depthRegion {rows : List (List Float)} (hne : rows ≠ [])
    (hrows : ∀ row ∈ rows, AllFinite row ∧ row.length = layout.kept.length) {t t' : OpenTable}
    (hclose : ∀ r, closeDepthRegion layout
      { t with rows := t.rows ++ rows.map (layout.entries 0 layout.width) } r = .ok t' r)
    {r : DeckReader} {rest : List UInt8}
    (hr : r.cursor.rest = regionLines (rows.map (layout.spread 0 layout.width)) ++ rest) :
    iterate (depthStep layout) t r = iterate (depthStep layout) t'
      (r.forward (regionLines (rows.map (layout.spread 0 layout.width))).length) := by
  have hmore : r.cursor.rest ≠ [] := by simp [hr, regionLines]
  induction rows generalizing t r with
  | nil => exact absurd rfl hne
  | cons row rows ih =>
    obtain ⟨hrow, hlen⟩ := hrows row List.mem_cons_self
    cases rows with
    | nil =>
      exact iterate_of_forward (depthStep_last h hrow hlen hclose hr) (by simp [regionLines]) hmore
    | cons row' rows =>
      rw [List.map_cons, regionLines_cons, List.append_assoc, List.cons_append] at hr
      have hstep := depthStep_more h hrow hlen (hrows row' (by simp)).1 t hr
      have hnext : (r.forward ((spelled true (layout.spread 0 layout.width row)).length +
          1)).cursor.rest = regionLines ((row' :: rows).map (layout.spread 0 layout.width)) ++
            rest := by
        rw [← DeckReader.forward_forward]
        exact DeckReader.rest_forward_length (w := [Byte.newline])
          (DeckReader.rest_forward_length hr)
      have hrest := ih (by simp) (fun row'' hmem => hrows row'' (List.mem_cons_of_mem row hmem))
        (t := { t with rows := t.rows ++ [layout.entries 0 layout.width row] })
        (by simpa using hclose) hnext (by rw [hnext]; simp [regionLines])
      rw [iterate_of_forward hstep (by omega) hmore, hrest, DeckReader.forward_forward]
      congr 2
      simp only [List.map_cons, regionLines_cons, List.length_append, List.length_cons]
      omega

omit h in
theorem isRegular_of_isRegion {columns : Nat} (hcolumns : columns ≠ 0)
    {regions : List (List (List Float))} (h : ∀ region ∈ regions, ∃ k, IsRegion columns k region) :
    RegionTable.isRegular columns regions = true := by
  rw [RegionTable.isRegular, List.all_eq_true]
  intro region hmem
  obtain ⟨k, hregion⟩ := h region hmem
  have hcount := RegionTable.rowCount_of_isRegion hregion hcolumns
  rw [RegionTable.rowCount] at hcount
  simpa [hcount, hregion.width] using hregion.height

omit h in
theorem depthStep_name (layout : DepthLayout) {t : OpenTable} {r : DeckReader}
    (hr : NextName r.cursor.rest) : depthStep layout t r = .ok (.inr t) r := by
  rcases lookahead_name hr with hnext | hnext <;>
  · rw [depthStep, Run.bind_of_ok _ hnext]
    rfl

end ReadM

/-- A table with at least two rows in each region, and the mask of its first rows. -/
def EndpointTable.Sound (layout : DepthLayout) (t : EndpointTable Float) : Prop :=
  t.table.columns = layout.kept.length ∧ t.table.regions ≠ [] ∧
    (∀ region ∈ t.table.regions, ∃ k, 2 ≤ k ∧ IsRegion layout.kept.length k region) ∧
    t.mask = ReadM.endpointMask t.table

namespace ReadM

theorem endpointTable_reads {layout : DepthLayout} (h : layout.IsOrdered) {t : EndpointTable Float}
    (ht : EndpointTable.Sound layout t) (hreal : AllFinite t.table.stored) :
    Reads (endpointTable layout)
      (t.table.toRows.flatMap fun rows => regionLines (rows.map (layout.spread 0 layout.width)))
      t := by
  obtain ⟨⟨columns, regions⟩, mask⟩ := t
  obtain ⟨rfl, hne, hregions, hmask⟩ := ht
  obtain rfl : mask = endpointMask ⟨layout.kept.length, regions⟩ := hmask
  have hcolumns : layout.kept.length ≠ 0 := h.kept_pos.ne'
  intro r rest hr hrest
  rw [RegionTable.toRows, List.flatMap_map] at hr ⊢
  have hitems := iterate_items (depthStep layout) (fun done => ⟨done, []⟩) regions
    (z := fun region => regionLines ((RegionTable.rows region).map (layout.spread 0 layout.width)))
    (fun region hmem done r rest hr => by
      obtain ⟨k, hk, hregion⟩ := hregions region hmem
      obtain ⟨hlen, hwidth, -⟩ := RegionTable.rows_spec hregion hcolumns
      refine iterate_depthRegion h (t := ⟨done, []⟩) ?_ (fun row hrow => ⟨fun x hx => ?_, ?_⟩) ?_ hr
      · rintro hnil
        rw [hnil, List.length_nil] at hlen
        omega
      · exact hreal x (mem_stored hmem (RegionTable.mem_of_mem_rows hregion hcolumns hrow hx))
      · exact hwidth row hrow
      · exact closeDepthRegion_eq h hregion hk done) [] hr
  have hdone := depthStep_name layout (t := ⟨regions, []⟩) (r := r.forward
    (regions.flatMap fun region =>
      regionLines ((RegionTable.rows region).map (layout.spread 0 layout.width))).length) (by
        rwa [DeckReader.rest_forward_length hr])
  have hread := hitems.trans (iterate_of_done hdone)
  have hregular := isRegular_of_isRegion hcolumns fun region hmem =>
    (hregions region hmem).imp fun _ hk => hk.2
  rw [endpointTable, Run.bind_of_ok _ hread]
  simp [hne, RegionTable.ofRegions?, hregular]

end ReadM

end ReservoirDeck
