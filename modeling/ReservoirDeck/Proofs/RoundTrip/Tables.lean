import ReservoirDeck.Proofs.RoundTrip.Lists
import ReservoirDeck.Proofs.Table.Rows

/-!
Tables read back. Each region is written row by row with a slash behind it, and the table ends where
the name of another keyword or the end of the text comes next.
-/

namespace ReservoirDeck

/-- A table with at least one region, and at least one row in each. -/
def RegionTable.Sound (columns : Nat) (t : RegionTable Float) : Prop :=
  t.columns = columns ∧ t.regions ≠ [] ∧
    ∀ region ∈ t.regions, ∃ k, k ≠ 0 ∧ IsRegion columns k region

theorem mem_stored {regions : List (List (List Float))} {region : List (List Float)}
    (hmem : region ∈ regions) {x : Float} (hx : x ∈ region.flatten) : x ∈ regions.flatten.flatten := by
  obtain ⟨column, hcolumn, hx⟩ := List.mem_flatten.mp hx
  exact List.mem_flatten.mpr ⟨column, List.mem_flatten.mpr ⟨region, hmem, hcolumn⟩, hx⟩

def AllFinite (xs : List Float) : Prop :=
  ∀ x ∈ xs, x.isFinite = true

theorem entryWords_deckText {xs : List Float} (h : AllFinite xs) :
    List.Forall₂ (EntryWord Float) (xs.map deckText) (xs.map some) := by
  rw [List.forall₂_map_left_iff, List.forall₂_map_right_iff, List.forall₂_same]
  exact fun x hx => entryWord_deckText (h x hx)

theorem length_spelled_pos {xs : List Float} (h : AllFinite xs) (hxs : xs ≠ []) :
    0 < (spelled true (xs.map deckText)).length := by
  obtain ⟨x, xs, rfl⟩ := List.exists_cons_of_ne_nil hxs
  have hne := (entryWord_deckText (h x List.mem_cons_self)).dataText.bare.1
  rw [List.map_cons, spelled, List.length_append, List.length_append]
  have := List.length_pos_iff.mpr (mt Text.bytes_eq_nil.mp hne)
  omega

namespace ReadM

theorem tableStep_row {columns : Nat} {row : List Float} (hrow : AllFinite row)
    (hlen : row.length = columns) (hcolumns : columns ≠ 0) (t : OpenTable) {r : DeckReader}
    {z rest : List UInt8} (hz : Spells (row.map deckText) z)
    (hr : r.cursor.rest = z ++ Byte.newline :: rest) :
    tableStep columns t r =
      .ok (.inl { t with rows := t.rows ++ [row.map some] }) (r.forward z.length) := by
  have hwords := entryWords_deckText hrow
  obtain ⟨x, xs, rfl⟩ := List.exists_cons_of_ne_nil (l := row) (by
    rintro rfl
    exact hcolumns hlen.symm)
  obtain ⟨gap, z, rfl, hz, hdata⟩ := lookahead_data
    (entryWord_deckText (hrow x List.mem_cons_self)).dataText hz hr (separated_cons.mpr rfl)
  rw [List.append_assoc] at hr
  have hfill := fillSlots_entries hwords 0 hz (DeckReader.rest_forward_length hr)
    fun _ => separated_cons.mpr rfl
  have hcount : ((x :: xs).map some).length + 0 = columns := by simpa using hlen
  rw [hcount] at hfill
  have hread : tableRow columns (r.forward gap.length) =
      .ok ((x :: xs).map some, columns) (r.forward (gap ++ z).length) := by
    simp only [tableRow, hfill, List.replicate_zero, fillSlots_nil, DeckReader.forward_forward]
    simp [SlotRun.after, ← hlen]
  rw [tableStep, Run.bind_of_ok _ hdata]
  simp only []
  rw [Run.bind_of_ok _ hread]
  simp [hcolumns]

theorem spells_slash : Spells ["/"] [Byte.slash] :=
  .cons blank_nil (by simp [Separated]) .nil

theorem slash_passed {r : DeckReader} {gap rest : List UInt8} (hgap : Blank gap)
    (hr : r.cursor.rest = gap ++ ([Byte.slash, Byte.newline] ++ rest)) :
    lookahead r = .ok .terminator (r.forward gap.length) ∧
      (discard ReadM.terminator) (r.forward gap.length) =
        .ok () (r.forward (gap.length + 2)) := by
  refine ⟨lookahead_slash hgap hr, Run.discard_eq_ok.mpr ⟨true, ?_⟩⟩
  have hterm := DeckReader.terminator_slash spells_slash (DeckReader.rest_forward_length hr)
  rw [ReadM.terminator, Run.modifyGet_eq, hterm, DeckReader.forward_forward]
  rfl

theorem tableStep_slash {columns : Nat} {t : OpenTable} (hrows : t.rows ≠ [])
    {region : List (List Float)} (hfill : Table.fill t.rows = .ok region) {r : DeckReader}
    {gap rest : List UInt8} (hgap : Blank gap)
    (hr : r.cursor.rest = gap ++ ([Byte.slash, Byte.newline] ++ rest)) :
    tableStep columns t r =
      .ok (.inl ⟨t.closed ++ [region], []⟩) (r.forward (gap.length + 2)) := by
  obtain ⟨hslash, hpass⟩ := slash_passed hgap hr
  rw [tableStep, Run.bind_of_ok _ hslash]
  simp only []
  rw [Run.bind_of_ok _ hpass]
  simp [hrows, OpenTable.close, fillRows, hfill]

theorem tableStep_name (columns : Nat) {t : OpenTable} (hrows : t.rows = []) {r : DeckReader}
    (hr : NextName r.cursor.rest) : tableStep columns t r = .ok (.inr t.closed) r := by
  rcases lookahead_name hr with hnext | hnext <;>
  · rw [tableStep, Run.bind_of_ok _ hnext]
    simp [hrows]

theorem iterate_tableRegion {columns : Nat} (hcolumns : columns ≠ 0) {rows : List (List Float)}
    (hrows : ∀ row ∈ rows, AllFinite row ∧ row.length = columns) {t : OpenTable}
    (hne : t.rows ++ rows.map (·.map some) ≠ []) {region : List (List Float)}
    (hfill : Table.fill (t.rows ++ rows.map (·.map some)) = .ok region) {r : DeckReader}
    {gap rest : List UInt8} (hgap : Blank gap)
    (hr : r.cursor.rest = gap ++ (regionLines (rows.map (·.map deckText)) ++ rest)) :
    iterate (tableStep columns) t r = iterate (tableStep columns) ⟨t.closed ++ [region], []⟩
      (r.forward (gap.length + (regionLines (rows.map (·.map deckText))).length)) := by
  have hmore : r.cursor.rest ≠ [] := by simp [hr, regionLines]
  induction rows generalizing t r gap with
  | nil =>
    rw [List.map_nil, List.append_nil] at hne hfill
    exact iterate_of_forward (tableStep_slash hne hfill hgap hr) (by simp [regionLines]) hmore
  | cons row rows ih =>
    obtain ⟨hrow, hlen⟩ := hrows row List.mem_cons_self
    have hne' : row ≠ [] := by
      rintro rfl
      exact hcolumns hlen.symm
    rw [List.map_cons, regionLines_cons, List.append_assoc, List.cons_append,
      ← List.append_assoc] at hr
    have hstep := tableStep_row hrow hlen hcolumns t
      ((spells_spelled true _).gap hgap (by simpa using hne')) hr
    have hpos := length_spelled_pos hrow hne'
    have hrest := DeckReader.rest_forward_length hr
    rw [List.length_append] at hstep hrest
    have hnext := ih (fun row' h => hrows row' (List.mem_cons_of_mem row h))
      (t := { t with rows := t.rows ++ [row.map some] }) (by simp) (by simpa using hfill)
      blank_newline hrest (by rw [hrest]; simp)
    rw [iterate_of_forward hstep (by omega) hmore, hnext, DeckReader.forward_forward,
      List.map_cons, regionLines_cons]
    congr 2
    simp only [List.length_append, List.length_cons, List.length_nil]
    omega

theorem regionTable_reads {columns : Nat} (hcolumns : columns ≠ 0) {t : RegionTable Float}
    (ht : RegionTable.Sound columns t) (hreal : AllFinite t.stored) :
    Reads (regionTable columns)
      (t.toRows.flatMap fun rows => regionLines (rows.map (·.map deckText))) t := by
  obtain ⟨width, regions⟩ := t
  obtain ⟨rfl, hne, hregions⟩ := ht
  intro r rest hr hrest
  rw [RegionTable.toRows, List.flatMap_map] at hr ⊢
  have hitems := iterate_items (tableStep width) (fun done => ⟨done, []⟩) regions
    (z := fun region => regionLines ((RegionTable.rows region).map (·.map deckText)))
    (fun region hmem done r rest hr => by
      obtain ⟨k, hk, hregion⟩ := hregions region hmem
      obtain ⟨hlen, hwidth, -⟩ := RegionTable.rows_spec hregion hcolumns
      have hfill := RegionTable.fill_rows hregion hcolumns hk
      have hrows : RegionTable.rows region ≠ [] := by
        rintro hnil
        exact hk (by simpa [hnil] using hlen.symm)
      have hfinite : ∀ row ∈ RegionTable.rows region, AllFinite row := fun row hrow x hx =>
        hreal x (mem_stored hmem (RegionTable.mem_of_mem_rows hregion hcolumns hrow hx))
      have h := iterate_tableRegion hcolumns (t := ⟨done, []⟩)
        (fun row hrow => ⟨hfinite row hrow, hwidth row hrow⟩) (by simpa using hrows)
        (by simpa using hfill) blank_nil hr
      simpa using h) [] hr
  have hdone := tableStep_name width (t := ⟨regions, []⟩) rfl (r := r.forward
    (regions.flatMap fun region =>
      regionLines ((RegionTable.rows region).map (·.map deckText))).length) (by
        rwa [DeckReader.rest_forward_length hr])
  have hread := hitems.trans (iterate_of_done hdone)
  rw [regionTable, Run.bind_of_ok _ hread]
  simp [hne]

theorem readValues_words {xs : List Float} (hxs : AllFinite xs) {r : DeckReader}
    {z rest : List UInt8} (hz : Spells (xs.map deckText ++ ["/"]) z)
    (hr : r.cursor.rest = z ++ Byte.newline :: rest) :
    readValues Float r = .ok xs (r.forward (z.length + 1)) := by
  induction xs generalizing r z with
  | nil =>
    obtain ⟨t, r', htoken, ht, hline⟩ := slash_line hz hr
    rw [readValues_terminator htoken ht, hline]
  | cons x xs ih =>
    have hx := entryWord_deckText (hxs x List.mem_cons_self)
    obtain ⟨z₁, z₂, rfl, hword, hwords, hsep⟩ := hz.uncons
    rw [List.append_assoc] at hr
    have hrest := ih (fun y hy => hxs y (List.mem_cons_of_mem x hy)) hwords
      (DeckReader.rest_forward_length hr)
    obtain ⟨start, htoken⟩ := hword.token? hx.word hr
      (hsep.append (separated_cons.mpr rfl))
    have hitem : Token.item? Float ⟨deckText x, .bare, start⟩ = some (.value x) := by
      simpa [Token.item?, Token.isQuoted] using hx.item
    rw [readValues_value htoken (isTerminator_of_bareText hx.dataText.bare start) hitem hrest,
      DeckReader.forward_forward, List.length_append, Nat.add_assoc]

theorem pvtStep_row {row : List Float} (hrow : AllFinite row) (hlen : 4 ≤ row.length)
    (htriples : (row.length - 1) % 3 = 0) (t : OpenPvtTable) {r : DeckReader} {rest : List UInt8}
    (hr : r.cursor.rest = pvtLines row ++ [Byte.newline] ++ rest) :
    pvtStep t r = .ok (.inl { t with rows := t.rows ++ [row] })
      (r.forward (pvtLines row ++ [Byte.newline]).length) := by
  rw [List.append_assoc] at hr
  obtain ⟨x, xs, rfl⟩ := List.exists_cons_of_ne_nil (l := row) (by
    rintro rfl
    simp at hlen)
  obtain ⟨gap, z, hz, hwords, hdata⟩ := lookahead_data
    (entryWord_deckText (hrow x List.mem_cons_self)).dataText (spells_pvtLines (x :: xs)) hr
    (separated_cons.mpr rfl)
  rw [hz, List.append_assoc] at hr
  have hread := readValues_words hrow hwords (DeckReader.rest_forward_length hr)
  have hshape : ¬ ((x :: xs).length < 4 ∨ ((x :: xs).length - 1) % 3 ≠ 0) := by omega
  rw [pvtStep, Run.bind_of_ok _ hdata]
  simp only []
  rw [Run.bind_of_ok _ hread, if_neg hshape, DeckReader.forward_forward, hz]
  simp

theorem pvtStep_slash {t : OpenPvtTable} (hrows : t.rows ≠ []) {r : DeckReader}
    {rest : List UInt8} (hr : r.cursor.rest = [Byte.slash, Byte.newline] ++ rest) :
    pvtStep t r = .ok (.inl ⟨t.closed ++ [t.rows], []⟩) (r.forward 2) := by
  obtain ⟨hslash, hpass⟩ := slash_passed blank_nil hr
  rw [pvtStep, Run.bind_of_ok _ hslash]
  simp only []
  rw [Run.bind_of_ok _ hpass]
  simp [hrows]

theorem pvtStep_name {t : OpenPvtTable} (hrows : t.rows = []) {r : DeckReader}
    (hr : NextName r.cursor.rest) : pvtStep t r = .ok (.inr t.closed) r := by
  rcases lookahead_name hr with hnext | hnext <;>
  · rw [pvtStep, Run.bind_of_ok _ hnext]
    simp [hrows]

end ReadM

/-- A table with at least one region, and whole triples in every row. -/
def PvtTable.Sound (t : PvtTable Float) : Prop :=
  t.regions ≠ [] ∧ ∀ rows ∈ t.regions, rows ≠ [] ∧
    ∀ row ∈ rows, 4 ≤ row.length ∧ (row.length - 1) % 3 = 0

namespace ReadM

theorem pvtTable_reads {t : PvtTable Float} (ht : t.Sound)
    (hreal : AllFinite t.regions.flatten.flatten) :
    Reads pvtTable (t.regions.flatMap fun rows =>
      rows.flatMap (fun row => pvtLines row ++ [Byte.newline]) ++ [Byte.slash, Byte.newline]) t := by
  obtain ⟨regions⟩ := t
  obtain ⟨hne, hregions⟩ := ht
  intro r rest hr hrest
  have hitems := iterate_items pvtStep (fun done => ⟨done, []⟩) regions
    (fun rows hmem done r rest hr => by
      obtain ⟨hrows, hshape⟩ := hregions rows hmem
      have hlines := iterate_items pvtStep (fun rows => ⟨done, rows⟩) rows
        (z := fun row => pvtLines row ++ [Byte.newline])
        (fun row hrow rows r rest hr =>
          iterate_of_forward (pvtStep_row
            (fun x hx => hreal x (mem_stored hmem (List.mem_flatten.mpr ⟨row, hrow, hx⟩)))
            (hshape row hrow).1 (hshape row hrow).2 ⟨done, rows⟩ hr) (by simp) (by simp [hr]))
        [] (by rwa [List.append_assoc] at hr)
      rw [List.append_assoc] at hr
      have hslash := pvtStep_slash (t := ⟨done, rows⟩) hrows (DeckReader.rest_forward_length hr)
      rw [hlines, List.nil_append, iterate_of_forward hslash (by decide)
        (by rw [DeckReader.rest_forward_length hr]; simp), DeckReader.forward_forward,
        List.length_append]
      rfl) [] hr
  have hdone := pvtStep_name (t := ⟨regions, []⟩) rfl (r := r.forward (regions.flatMap fun rows =>
      rows.flatMap (fun row => pvtLines row ++ [Byte.newline]) ++
        [Byte.slash, Byte.newline]).length) (by rwa [DeckReader.rest_forward_length hr])
  have hread := hitems.trans (iterate_of_done hdone)
  rw [pvtTable, Run.bind_of_ok _ hread]
  simp [hne]

end ReadM

end ReservoirDeck
