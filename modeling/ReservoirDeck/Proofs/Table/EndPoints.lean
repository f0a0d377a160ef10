import ReservoirDeck.Keyword.Gregorian
import ReservoirDeck.Proofs.RoundTrip.Keywords
import ReservoirDeck.Proofs.Table.DepthRows
import ReservoirDeck.Proofs.Table.Neighbours
import ReservoirDeck.Proofs.Table.Records

/-!
Tables of end points, column by column. A region keeps the supported columns of its rows: what is
given stays where it is, a column that is left out altogether is not scaled, and any other is filled
against depth.
-/

namespace ReservoirDeck

open Table (entriesAt)

namespace Table

theorem fill_pairs {α R : Type} [Add R] [Sub R] [Mul R] [Div R] [BEq R] {f g : α → Option R}
    {rows : List α} (hne : rows ≠ []) {columns : List (List R)}
    (h : fill (rows.map fun row => [f row, g row]) = .ok columns) :
    ∃ xs column, columns = [xs, column] ∧ rows.map f = xs.map some ∧
      fillColumn none (xs.zip (rows.map g)) = some column := by
  obtain ⟨xs, rest, rfl, hxs, hrest⟩ := fill_eq_ok.mp h
  obtain ⟨row, rows, rfl⟩ := List.exists_cons_of_ne_nil hne
  have hrange : List.range' 1 1 = [1] := rfl
  simp only [List.map_cons, List.head?_cons, Option.map_some, Option.getD_some, List.length_cons,
    List.length_nil, Nat.zero_add, Nat.add_sub_cancel, hrange, List.forall₂_cons_left_iff,
    List.forall₂_nil_left_iff] at hrest
  obtain ⟨column, -, hcolumn, rfl, rfl⟩ := hrest
  refine ⟨xs, column, rfl, by simpa [Function.comp_def] using hxs, ?_⟩
  simpa [Function.comp_def] using hcolumn

end Table

/-- What a region makes of a column of its rows. -/
inductive IsEndPoint (rows : List (List (Option Float))) (c : Nat) : List Float → Prop
  | unset (hc : 0 < c) (hnone : ∀ entry ∈ entriesAt rows c, entry = none) :
    IsEndPoint rows c (List.replicate rows.length unsetEndpoint)
  | filled {depths column : List Float}
    (hgiven : c = 0 ∨ ∃ entry ∈ entriesAt rows c, entry ≠ none)
    (hfill : Table.fill (rows.map fun row => [row.head?.join, row[c]?.join]) =
      .ok [depths, column]) : IsEndPoint rows c column

namespace ReadM

variable {layout : DepthLayout} {r r' : DeckReader} {t t' : OpenTable}
  {rows : List (List (Option Float))} {c : Nat} {column : List Float}

theorem mapM_unmoved {α β : Type} {P : α → β → Prop} {f : α → ReadM β}
    (hf : ∀ a r b r', f a r = .ok b r' → P a b ∧ r' = r) {as : List α} {bs : List β}
    (h : as.mapM f r = .ok bs r') : List.Forall₂ P as bs ∧ r' = r := by
  induction as generalizing bs r with
  | nil =>
    cases h
    exact ⟨.nil, rfl⟩
  | cons a as ih =>
    rw [List.mapM_cons] at h
    obtain ⟨b, r₁, hb, hrest⟩ := Run.bind_eq_ok.mp h
    obtain ⟨bs, r₂, hbs, hpure⟩ := Run.bind_eq_ok.mp hrest
    cases hpure
    obtain ⟨hhead, rfl⟩ := hf a r b r₁ hb
    obtain ⟨htail, rfl⟩ := ih hbs
    exact ⟨.cons hhead htail, rfl⟩

theorem depthColumn_eq_ok (hne : rows ≠ []) (h : depthColumn rows c r = .ok column r') :
    IsEndPoint rows c column ∧ r' = r := by
  rw [depthColumn] at h
  split at h
  · next hunset =>
    cases h
    simp only [Bool.and_eq_true, decide_eq_true_eq, List.all_eq_true, Option.isNone_iff_eq_none]
      at hunset
    exact ⟨.unset hunset.1 hunset.2, rfl⟩
  · next hgiven =>
    obtain ⟨columns, r₁, hread, hpure⟩ := Run.bind_eq_ok.mp h
    cases hpure
    obtain ⟨hfill, rfl⟩ := fillRows_eq_ok.mp hread
    obtain ⟨xs, column, rfl, -, -⟩ := Table.fill_pairs hne hfill
    refine ⟨.filled ?_ hfill, rfl⟩
    simp only [Bool.and_eq_true, decide_eq_true_eq, List.all_eq_true, Option.isNone_iff_eq_none,
      not_and, not_forall] at hgiven
    rcases Nat.eq_zero_or_pos c with hc | hc
    · exact Or.inl hc
    · obtain ⟨entry, hentry, hsome⟩ := hgiven hc
      exact Or.inr ⟨entry, hentry, hsome⟩

theorem closeDepthRegion_eq_ok (h : closeDepthRegion layout t r = .ok t' r') :
    r' = r ∧ 2 ≤ t.rows.length ∧ ∃ region, t' = ⟨t.closed ++ [region], []⟩ ∧
      List.Forall₂ (IsEndPoint t.rows) layout.kept region := by
  rw [closeDepthRegion] at h
  split at h
  · cases h
  · next hrows =>
    obtain ⟨region, r₁, hregion, hpure⟩ := Run.bind_eq_ok.mp h
    cases hpure
    have hne : t.rows ≠ [] := by
      rintro hnil
      simp [hnil] at hrows
    have hcolumn : ∀ c r column r', depthColumn t.rows c r = .ok column r' →
        IsEndPoint t.rows c column ∧ r' = r := fun _ _ _ _ hc => depthColumn_eq_ok hne hc
    obtain ⟨hcolumns, rfl⟩ := mapM_unmoved hcolumn hregion
    exact ⟨rfl, Nat.le_of_not_lt hrows, region, rfl, hcolumns⟩

end ReadM

namespace IsEndPoint

variable {rows : List (List (Option Float))} {c : Nat} {column : List Float}

theorem getElem?_of_given (h : IsEndPoint rows c column) (hne : rows ≠ []) {i : Nat} {x : Float}
    (hi : (entriesAt rows c)[i]? = some (some x)) : column[i]? = some x := by
  cases h with
  | unset _ hnone => cases hnone _ (List.mem_of_getElem? hi)
  | filled _ hfill =>
    obtain ⟨xs, column', hcolumns, hxs, hcolumn⟩ := Table.fill_pairs hne hfill
    obtain rfl : column = column' := (List.cons.inj (List.cons.inj hcolumns).2).1
    have hlen : xs.length = rows.length := by simpa using (congrArg List.length hxs).symm
    have hlt : i < xs.length := by
      have := (List.getElem?_eq_some_iff.mp hi).1
      rw [entriesAt, List.length_map] at this
      omega
    refine (Table.isFilled_fillColumn hcolumn).kept i xs[i] x ?_
    rw [List.getElem?_zip_eq_some]
    exact ⟨List.getElem?_eq_getElem hlt, hi⟩

theorem length_eq (h : IsEndPoint rows c column) : column.length = rows.length := by
  cases h with
  | unset => exact List.length_replicate
  | filled _ hfill => simpa using (Table.fill_shape hfill).2 column (by simp)

theorem eq_replicate (h : IsEndPoint rows c column) (hc : 0 < c)
    (hnone : ∀ entry ∈ entriesAt rows c, entry = none) :
    column = List.replicate rows.length unsetEndpoint := by
  cases h with
  | unset => rfl
  | filled hgiven =>
    rcases hgiven with hzero | ⟨entry, hmem, hsome⟩
    · omega
    · exact absurd (hnone entry hmem) hsome

theorem exists_fill (h : IsEndPoint rows c column)
    (hgiven : c = 0 ∨ ∃ entry ∈ entriesAt rows c, entry ≠ none) :
    ∃ depths, Table.fill (rows.map fun row => [row.head?.join, row[c]?.join]) =
      .ok [depths, column] := by
  cases h with
  | filled _ hfill => exact ⟨_, hfill⟩
  | unset hc hnone =>
    rcases hgiven with hzero | ⟨entry, hmem, hsome⟩
    · omega
    · exact absurd (hnone entry hmem) hsome

theorem depths_eq (h : IsEndPoint rows 0 column) (hne : rows ≠ []) :
    rows.map (·.head?.join) = column.map some := by
  obtain ⟨depths, hfill⟩ := h.exists_fill (Or.inl rfl)
  obtain ⟨xs, column', hcolumns, hxs, hcolumn⟩ := Table.fill_pairs hne hfill
  obtain rfl : column = column' := (List.cons.inj (List.cons.inj hcolumns).2).1
  simp only [← List.head?_eq_getElem?, hxs] at hcolumn
  rw [Table.fillColumn_given none rfl] at hcolumn
  rw [hxs, Option.some.inj hcolumn]

end IsEndPoint

namespace DepthLayout

/-- A region as it is kept of its rows, of which there are at least two. Rows have the width of the
layout, each with its depth and with no entry that is not supported. -/
structure IsRegionOf (layout : DepthLayout) (rows : List (List (Option Float)))
    (region : List (List Float)) : Prop where
  two_le : 2 ≤ rows.length
  supports : ∀ row ∈ rows, row.length = layout.width ∧ layout.Supports row
  shape : IsRegion layout.kept.length rows.length region
  given : ∀ (j c i : Nat) (x : Float), layout.kept[j]? = some c →
    (entriesAt rows c)[i]? = some (some x) →
    ∃ column, region[j]? = some column ∧ column[i]? = some x
  unset : ∀ j c : Nat, layout.kept[j]? = some c → 0 < c →
    (∀ entry ∈ entriesAt rows c, entry = none) →
    region[j]? = some (List.replicate rows.length unsetEndpoint)
  filled : ∀ j c : Nat, layout.kept[j]? = some c →
    (c = 0 ∨ ∃ entry ∈ entriesAt rows c, entry ≠ none) →
    ∃ depths column, region[0]? = some depths ∧ region[j]? = some column ∧
      Table.fill (rows.map fun row => [row.head?.join, row[c]?.join]) = .ok [depths, column]

variable {layout : DepthLayout} {rows : List (List (Option Float))} {region : List (List Float)}

theorem isRegionOf (hordered : layout.IsOrdered) (htwo : 2 ≤ rows.length)
    (hrows : ∀ row ∈ rows, row.length = layout.width ∧ layout.Supports row)
    (hcolumns : List.Forall₂ (IsEndPoint rows) layout.kept region) :
    layout.IsRegionOf rows region := by
  have hne : rows ≠ [] := by
    rintro rfl
    simp at htwo
  have hcolumn : ∀ {j c : Nat}, layout.kept[j]? = some c →
      ∃ column, region[j]? = some column ∧ IsEndPoint rows c column := by
    intro j c hc
    obtain ⟨hj, rfl⟩ := List.getElem?_eq_some_iff.mp hc
    have hj' : j < region.length := hcolumns.length_eq ▸ hj
    exact ⟨region[j], List.getElem?_eq_getElem hj', hcolumns.get hj hj'⟩
  refine ⟨htwo, hrows, ⟨hcolumns.length_eq.symm, ?_⟩, ?_, ?_, ?_⟩
  · intro column hmem
    obtain ⟨c, -, hc⟩ := exists_mem_of_forall₂ hcolumns.flip hmem
    exact hc.length_eq
  · intro j c i x hc hi
    obtain ⟨column, hj, hend⟩ := hcolumn hc
    exact ⟨column, hj, hend.getElem?_of_given hne hi⟩
  · intro j c hc hpos hnone
    obtain ⟨column, hj, hend⟩ := hcolumn hc
    rw [hj, hend.eq_replicate hpos hnone]
  · intro j c hc hgiven
    obtain ⟨column, hj, hend⟩ := hcolumn hc
    obtain ⟨depths, hfill⟩ := hend.exists_fill hgiven
    have hzero : layout.kept[0]? = some 0 := by rw [← List.head?_eq_getElem?, hordered.depth]
    obtain ⟨depths', hdepths', hend'⟩ := hcolumn hzero
    obtain ⟨xs, column', hfilled, hxs, -⟩ := Table.fill_pairs hne hfill
    obtain rfl : depths = xs := (List.cons.inj hfilled).1
    have heq : depths.map some = depths'.map some := hxs.symm.trans (hend'.depths_eq hne)
    obtain rfl := (List.map_inj_right fun _ _ => Option.some.inj).mp heq
    exact ⟨depths, column, hdepths', hj, hfill⟩

/-- A table as it is kept of groups of rows, one region for each. The mask says which end points the
first row of some region sets. -/
structure IsTableOf (layout : DepthLayout) (groups : List (List (List (Option Float))))
    (t : EndpointTable Float) : Prop where
  columns : t.table.columns = layout.kept.length
  regions : List.Forall₂ layout.IsRegionOf groups t.table.regions
  ne_nil : t.table.regions ≠ []
  length_mask : t.mask.length = layout.kept.length - 1
  mask : ∀ c < layout.kept.length - 1, t.mask[c]? = some true ↔
    ∃ region ∈ t.table.regions, ∃ x, region[c + 1]?.bind List.head? = some x ∧
      (x != unsetEndpoint) = true

end DepthLayout

namespace ReadM

variable {t : RegionTable Float} {n : Nat}

theorem getElem?_endpointMask (hcolumns : t.columns = n) {c : Nat} (hc : c < n - 1) :
    (endpointMask t)[c]? = some ((t.firstOf (c + 1)).any (· != some unsetEndpoint)) := by
  have hrange : (List.range' 1 (t.columns - 1))[c]? = some (c + 1) := by
    rw [hcolumns, List.getElem?_range' hc]
    simp [Nat.add_comm]
  rw [endpointMask, List.getElem?_map, hrange, Option.map_some]

/-- Where every region has its columns, and no column is empty, a first entry is there to compare. -/
theorem endpointMask_eq_true (hcolumns : t.columns = n)
    (hregions : ∀ region ∈ t.regions, ∃ k, k ≠ 0 ∧ IsRegion n k region) {c : Nat} (hc : c < n - 1) :
    (endpointMask t)[c]? = some true ↔ ∃ region ∈ t.regions, ∃ x,
      region[c + 1]?.bind List.head? = some x ∧ (x != unsetEndpoint) = true := by
  rw [getElem?_endpointMask hcolumns hc, Option.some.injEq, RegionTable.firstOf, List.any_map,
    List.any_eq_true]
  constructor
  · rintro ⟨region, hmem, hdiffers⟩
    obtain ⟨k, hk, hshape⟩ := hregions region hmem
    have hlt : c + 1 < region.length := by
      rw [hshape.width]
      omega
    have hlength := hshape.height region[c + 1] (List.getElem_mem hlt)
    obtain ⟨x, xs, hxs⟩ := List.exists_cons_of_length_pos (l := region[c + 1]) (by omega)
    have hfirst : region[c + 1]?.bind List.head? = some x := by
      rw [List.getElem?_eq_getElem hlt, hxs]
      rfl
    rw [Function.comp_apply, hfirst] at hdiffers
    exact ⟨region, hmem, x, hfirst, hdiffers⟩
  · rintro ⟨region, hmem, x, hfirst, hdiffers⟩
    refine ⟨region, hmem, ?_⟩
    rw [Function.comp_apply, hfirst]
    exact hdiffers

end ReadM

namespace ReadM

variable {layout : DepthLayout} {r r' : DeckReader} {t : EndpointTable Float}

/-- What was read up to a place: groups of rows for the closed regions, and the open rows. Blanks and
comments may have been passed since. -/
structure OpenTable.HasRows (layout : DepthLayout) (r : DeckReader) (t : OpenTable)
    (groups : List (List (List (Option Float)))) (place : DeckReader) : Prop where
  reads : r.ReadsRegions layout.width groups t.rows place
  closed : List.Forall₂ layout.IsRegionOf groups t.closed
  rows : ∀ row ∈ t.rows, row.length = layout.width ∧ layout.Supports row

theorem depthStep_hasRows (hordered : layout.IsOrdered) {t t' : OpenTable}
    {groups : List (List (List (Option Float)))} {place e e' : DeckReader}
    (hplace : place.skipTrivia = e.skipTrivia) (ht : t.HasRows layout r groups place)
    (h : depthStep layout t e = .ok (.inl t') e') :
    ∃ groups' place', place'.skipTrivia = e'.skipTrivia ∧ t'.HasRows layout r groups' place' := by
  obtain ⟨row, m, hrow, hsupports, hround⟩ := depthStep_next h
  have hdepth : 0 ∈ layout.kept := List.mem_of_mem_head? (by rw [hordered.depth]; rfl)
  have hwidth : 0 < layout.width := hordered.inside 0 hdepth
  have hread : place.ReadsRow layout.width row m :=
    hrow.of_skipTrivia hwidth (by rw [e.skipTrivia_skipTrivia, hplace])
  have hrows : ∀ row' ∈ t.rows ++ [row], row'.length = layout.width ∧ layout.Supports row' :=
    forall_mem_concat ht.rows ⟨hread.length_eq, hsupports⟩
  rcases hround with ⟨d, hslash, hclose⟩ | ⟨hopen, rfl, rfl⟩
  · obtain ⟨rfl, htwo, region, rfl, hregion⟩ := closeDepthRegion_eq_ok hclose
    refine ⟨groups ++ [t.rows ++ [row]], d.skipLine, rfl, .close ht.reads hread hslash, ?_, by simp⟩
    exact List.rel_append ht.closed
      (.cons (DepthLayout.isRegionOf hordered htwo hrows hregion) .nil)
  · exact ⟨groups, m, m.skipTrivia_skipTrivia.symm, .row ht.reads hread hopen, ht.closed, hrows⟩

theorem endpointTable_of_closed {regions : List (List (List Float))}
    (h : (if regions.isEmpty then malformed .noTableRows
      else
        match RegionTable.ofRegions? layout.kept.length regions with
        | some table => return ⟨table, endpointMask table⟩
        | none => malformed .raggedRegions : ReadM (EndpointTable Float)) r = .ok t r') :
    regions ≠ [] ∧ t = ⟨⟨layout.kept.length, regions⟩, endpointMask ⟨layout.kept.length, regions⟩⟩ ∧
      r' = r := by
  split at h
  · cases h
  · next hne =>
    rw [RegionTable.ofRegions?] at h
    by_cases hregular : RegionTable.isRegular layout.kept.length regions = true
    · simp only [hregular, if_true] at h
      cases h
      exact ⟨by simpa using hne, rfl, rfl⟩
    · simp [hregular] at h

theorem isTableOf {regions : List (List (List Float))} (hne : regions ≠ [])
    {groups : List (List (List (Option Float)))}
    (hregions : List.Forall₂ layout.IsRegionOf groups regions) :
    layout.IsTableOf groups
      ⟨⟨layout.kept.length, regions⟩, endpointMask ⟨layout.kept.length, regions⟩⟩ where
  columns := rfl
  regions := hregions
  ne_nil := hne
  length_mask := by rw [endpointMask, List.length_map, List.length_range']
  mask c hc := by
    refine endpointMask_eq_true rfl (fun region hmem => ?_) hc
    obtain ⟨rows, -, hrows⟩ := exists_mem_of_forall₂ hregions.flip hmem
    have htwo := hrows.two_le
    exact ⟨rows.length, by omega, hrows.shape⟩

/-- How the rows of a body end. -/
def EndsAt (place e : DeckReader) : Prop :=
  (place.cursor.lookahead = .keyword ∨ place.cursor.lookahead = .endOfInput) ∧ e = place.skipTrivia ∨
    ∃ d, place.SlashAhead d ∧ e = d.skipLine

/-- A body that is read is made of groups of rows, and the table is that of the groups. -/
theorem endpointTable_eq_ok (hordered : layout.IsOrdered) (h : endpointTable layout r = .ok t r') :
    ∃ groups, r.ReadsTable layout.width groups r' ∧ layout.IsTableOf groups t := by
  obtain ⟨t₁, r₁, hread, hrest⟩ := Run.bind_eq_ok.mp h
  -- Rounds end behind blanks and comments, so the invariant keeps the place where the last row ended.
  obtain ⟨groups, place, ht, hend⟩ := iterate_invariant
    (I := fun t e => ∃ groups place, place.skipTrivia = e.skipTrivia ∧
      OpenTable.HasRows layout r t groups place)
    (Q := fun t e => ∃ groups place, OpenTable.HasRows layout r t groups place ∧ EndsAt place e)
    (by
      rintro t e t' e' ⟨groups, place, hplace, ht⟩ hstep
      exact depthStep_hasRows hordered hplace ht hstep)
    (by
      rintro t e t' e' ⟨groups, place, hplace, ht⟩ hstep
      obtain ⟨rfl, hend⟩ := depthStep_done hstep
      refine ⟨groups, place, ht, ?_⟩
      rcases hend with ⟨hnext, rfl⟩ | ⟨d, ⟨slash, htoken, hslash⟩, rfl⟩
      · left
        rw [DeckReader.lookahead_of_skipTrivia hplace]
        exact ⟨hnext, hplace.symm⟩
      · right
        rw [← DeckReader.token?_of_skipTrivia hplace] at htoken
        exact ⟨d, ⟨slash, htoken, hslash⟩, rfl⟩)
    ⟨[], r, rfl, .nil, .nil, by simp⟩ hread
  split at hrest
  · next hrows =>
    obtain ⟨hne, rfl, rfl⟩ := endpointTable_of_closed hrest
    have hnil : t₁.rows = [] := List.isEmpty_iff.mp hrows
    refine ⟨groups, ?_, isTableOf hne ht.closed⟩
    have hreads := ht.reads
    rcases hend with ⟨hnext, rfl⟩ | ⟨d, hslash, rfl⟩
    · simpa [hrows] using DeckReader.ReadsTable.keyword hreads hnext
    · rw [hnil] at hreads
      exact .slash hreads hslash
  · next hrows =>
    obtain ⟨t₂, r₂, hclose, hrest⟩ := Run.bind_eq_ok.mp hrest
    obtain ⟨rfl, htwo, region, rfl, hregion⟩ := closeDepthRegion_eq_ok hclose
    obtain ⟨hne, rfl, rfl⟩ := endpointTable_of_closed hrest
    rcases hend with ⟨hnext, rfl⟩ | ⟨d, hslash, rfl⟩
    · refine ⟨groups ++ [t₁.rows], ?_, isTableOf hne ?_⟩
      · simpa [hrows] using DeckReader.ReadsTable.keyword ht.reads hnext
      · exact List.rel_append ht.closed
          (.cons (DepthLayout.isRegionOf hordered htwo ht.rows hregion) .nil)
    · -- A slash that ends the body is behind a closed region, so that no rows are open.
      exact absurd (ht.reads.rows_eq_nil hslash) (by simpa using hrows)

end ReadM

namespace Keyword

variable {r r' : DeckReader} {k : Keyword Float}

/-- The body of a keyword is read with its name, from the place reached up to the place left. -/
theorem exists_body [Calendar] {name : String} {kind : Kind} (hname : Kind.ofName? name = some kind)
    (h : Keyword.read name r = .ok k r') : ∃ body e,
      kind.layout.read { r with keyword := some name } = .ok body e ∧ r'.cursor = e.cursor ∧
        k = .typed kind body := by
  obtain rfl := Kind.name_of_ofName? hname
  rw [Keyword.read, hname] at h
  obtain ⟨e, hread, rfl⟩ := ReadM.inKeyword_eq_ok.mp h
  obtain ⟨body, hbody, hk⟩ := Run.map_eq_ok.mp hread
  exact ⟨body, e, hbody, rfl, hk.symm⟩

/-- Both keywords of end points keep what their layout supports. The text that was read is made of
groups of rows, and the table is that of the groups. -/
theorem read_endPoints [Calendar] (r r' : DeckReader) (k : Keyword Float) :
    (Keyword.read "ENPTVD" r = .ok k r' → ∃ groups e t,
      { r with keyword := some "ENPTVD" }.ReadsTable 9 groups e ∧ r'.cursor = e.cursor ∧
        k = .typed .enptvd t ∧ DepthLayout.IsTableOf ⟨9, [0, 1, 2, 3, 7]⟩ groups t) ∧
    (Keyword.read "ENKRVD" r = .ok k r' → ∃ groups e t,
      { r with keyword := some "ENKRVD" }.ReadsTable 8 groups e ∧ r'.cursor = e.cursor ∧
        k = .typed .enkrvd t ∧ DepthLayout.IsTableOf ⟨8, [0, 1, 3, 4, 7]⟩ groups t) := by
  constructor
  · intro h
    have hname : Kind.ofName? "ENPTVD" = some .enptvd := by decide
    obtain ⟨t, e, hread, hplace, hk⟩ := exists_body hname h
    have hordered := Layout.isOrdered_of_isWritable Kind.enptvd.isWritable_layout
    obtain ⟨groups, hgroups, ht⟩ := ReadM.endpointTable_eq_ok hordered hread
    exact ⟨groups, e, t, hgroups, hplace, hk, ht⟩
  · intro h
    have hname : Kind.ofName? "ENKRVD" = some .enkrvd := by decide
    obtain ⟨t, e, hread, hplace, hk⟩ := exists_body hname h
    have hordered := Layout.isOrdered_of_isWritable Kind.enkrvd.isWritable_layout
    obtain ⟨groups, hgroups, ht⟩ := ReadM.endpointTable_eq_ok hordered hread
    exact ⟨groups, e, t, hgroups, hplace, hk, ht⟩

/-- A region whose columns are given, left out in part and left out altogether, with a slash of its own
that ends the keyword; and two regions, of which the second is left open. -/
theorem read_endPoints_regions :
    (∃ k r', Keyword.read "ENPTVD" (.ofString
        "1000 0.25 0.25 1* 3* 0.125 1*\n1500 1* 0.3 6*\n2000 0.5 0.35 4* 0.375 1* /\n/\n") = .ok k r' ∧
      ∃ t groups, k = .typed .enptvd t ∧ DepthLayout.IsTableOf ⟨9, [0, 1, 2, 3, 7]⟩ groups t) ∧
    ∃ k r', Keyword.read "ENKRVD" (.ofString
        "1000 1 1* 0.9 0.1 2* 0.8\n2000 7* /\n1000 1 2* 0.1 3*\n2000 0.9 9* -- b\nTITLE") = .ok k r' ∧
      ∃ t groups, k = .typed .enkrvd t ∧ DepthLayout.IsTableOf ⟨8, [0, 1, 3, 4, 7]⟩ groups t := by
  constructor
  · have hok : (Run.answer (Keyword.read "ENPTVD" (.ofString
        "1000 0.25 0.25 1* 3* 0.125 1*\n1500 1* 0.3 6*\n2000 0.5 0.35 4* 0.375 1* /\n/\n"))).isOk =
          true := by
      decide +kernel
    obtain ⟨k, r', h⟩ := Run.exists_of_isOk hok
    obtain ⟨groups, e, t, -, -, hk, ht⟩ := (read_endPoints _ r' k).1 h
    exact ⟨k, r', h, t, groups, hk, ht⟩
  · have hok : (Run.answer (Keyword.read "ENKRVD" (.ofString
        "1000 1 1* 0.9 0.1 2* 0.8\n2000 7* /\n1000 1 2* 0.1 3*\n2000 0.9 9* -- b\nTITLE"))).isOk =
          true := by
      decide +kernel
    obtain ⟨k, r', h⟩ := Run.exists_of_isOk hok
    obtain ⟨groups, e, t, -, -, hk, ht⟩ := (read_endPoints _ r' k).2 h
    exact ⟨k, r', h, t, groups, hk, ht⟩

end Keyword

end ReservoirDeck
