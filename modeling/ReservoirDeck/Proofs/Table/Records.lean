import ReservoirDeck.Proofs.Reading.Ahead
import ReservoirDeck.Proofs.Reading.Sound

/-!
Tables of triples, record by record. Each row is the values of one record, and a record without
items ends a region. So the table holds all that was read, in order, and only in rows of one value
and triples; whatever else comes is refused.
-/

namespace ReservoirDeck

open Item (expand)

section Forall₂

variable {α β : Type} {R : α → β → Prop} {as : List α} {bs : List β} (h : List.Forall₂ R as bs)
include h

theorem exists_mem_of_forall₂ {a : α} (ha : a ∈ as) : ∃ b ∈ bs, R a b := by
  obtain ⟨i, hi, rfl⟩ := List.getElem_of_mem ha
  have hi' : i < bs.length := h.length_eq ▸ hi
  exact ⟨bs[i], List.getElem_mem hi', h.get hi hi'⟩

theorem ne_nil_of_forall₂ (hbs : bs ≠ []) : as ≠ [] := by
  rintro rfl
  exact hbs (List.forall₂_nil_left_iff.mp h)

end Forall₂

namespace PvtTable

/-- The row of a record: its values, which are one and then triples. -/
structure IsRowOf (items : List (Item Float)) (row : List Float) : Prop where
  values : expand items = row.map some
  triples : ∃ k, 1 ≤ k ∧ row.length = 1 + 3 * k

/-- The region of some records: their rows, at least one. -/
structure IsRegionOf (records : List (List (Item Float))) (rows : List (List Float)) : Prop where
  ne_nil : records ≠ []
  rows : List.Forall₂ IsRowOf records rows

/-- The regions are those of groups of records, each with a record without items behind it. Behind
the last group it may be left out. -/
def HasRecords (t : PvtTable Float) (records : List (List (Item Float))) : Prop :=
  ∃ groups, List.Forall₂ IsRegionOf groups t.regions ∧
    (records = groups.flatMap (· ++ [[]]) ∨ records ++ [[]] = groups.flatMap (· ++ [[]]))

variable {items : List (Item Float)} {row : List Float}
  {records front rest : List (List (Item Float))} {rows : List (List Float)}
  {groups : List (List (List (Item Float)))}
  {regions : List (List (List Float))} {t : PvtTable Float}

theorem IsRowOf.ne_nil (h : IsRowOf items row) : items ≠ [] := by
  rintro rfl
  obtain ⟨k, -, hlen⟩ := h.triples
  have hnil := congrArg List.length h.values
  rw [Item.expand_nil, List.length_map, hlen] at hnil
  simp at hnil
  omega

theorem expand_rows (h : List.Forall₂ IsRowOf records rows) :
    expand records.flatten = rows.flatten.map some := by
  induction h with
  | nil => rfl
  | cons hrow _ ih =>
    rw [List.flatten_cons, List.flatten_cons, Item.expand_append, List.map_append, hrow.values, ih]

theorem expand_regions (h : List.Forall₂ IsRegionOf groups regions) :
    expand (groups.flatMap (· ++ [[]])).flatten = regions.flatten.flatten.map some := by
  induction h with
  | nil => rfl
  | @cons records rows _ _ hregion _ ih =>
    have hgroup : (records ++ [[]]).flatten = records.flatten := by simp
    rw [List.flatMap_cons, List.flatten_append, hgroup, Item.expand_append, ih,
      expand_rows hregion.rows, List.flatten_cons, List.flatten_append, List.map_append]

theorem HasRecords.values (h : t.HasRecords records) :
    t.regions.flatten.flatten.map some = expand records.flatten := by
  obtain ⟨groups, hregions, rfl | hrecords⟩ := h
  · exact (expand_regions hregions).symm
  · rw [← expand_regions hregions, ← hrecords, List.flatten_append]
    simp

theorem HasRecords.isRow (h : t.HasRecords records) (hmem : items ∈ records) (hne : items ≠ []) :
    ∃ row, IsRowOf items row := by
  obtain ⟨groups, hregions, hrecords⟩ := h
  have hgroup : items ∈ groups.flatMap (· ++ [[]]) := by
    rcases hrecords with rfl | hrecords
    · exact hmem
    · rw [← hrecords]
      exact List.mem_append_left _ hmem
  obtain ⟨group, hgroup, hitems⟩ := List.mem_flatMap.mp hgroup
  have hitems : items ∈ group := by simpa [hne] using hitems
  obtain ⟨rows, -, hregion⟩ := exists_mem_of_forall₂ hregions hgroup
  obtain ⟨row, -, hrow⟩ := exists_mem_of_forall₂ hregion.rows hitems
  exact ⟨row, hrow⟩

theorem IsRegionOf.not_mem_nil (h : IsRegionOf records rows) : [] ∉ records := by
  intro hmem
  obtain ⟨row, -, hrow⟩ := exists_mem_of_forall₂ h.rows hmem
  exact hrow.ne_nil rfl

/-- A record without items neither comes first nor behind another one. -/
theorem not_empty_region (h : List.Forall₂ IsRegionOf groups regions)
    (hfront : ∀ record ∈ front.getLast?, record = []) :
    groups.flatMap (· ++ [[]]) ≠ front ++ [] :: rest := by
  intro heq
  induction h generalizing front with
  | nil => simp at heq
  | @cons group rows groups regions hregion _ ih =>
    have hne : front ≠ group := by
      rintro rfl
      have hlast := List.getLast?_eq_some_getLast hregion.ne_nil
      exact hregion.not_mem_nil (hfront _ hlast ▸ List.getLast_mem hregion.ne_nil)
    rw [List.flatMap_cons, List.append_assoc] at heq
    rcases List.append_eq_append_iff.mp heq with ⟨as, hfronteq, has⟩ | ⟨bs, hgroup, hbs⟩
    · cases as with
      | nil => exact hne (by simpa using hfronteq)
      | cons a as =>
        obtain ⟨rfl, hrest⟩ := List.cons.inj has
        refine ih (fun record hrecord => hfront record ?_) hrest
        simp [hfronteq, List.getLast?_append, List.getLast?_cons, Option.mem_def.mp hrecord]
    · cases bs with
      | nil => exact hne (by simpa using hgroup.symm)
      | cons b bs =>
        obtain rfl := (List.cons.inj hbs).1
        exact hregion.not_mem_nil (by simp [hgroup])

theorem HasRecords.not_empty (h : t.HasRecords (front ++ [] :: rest)) :
    ¬ ∀ record ∈ front.getLast?, record = [] := by
  obtain ⟨groups, hregions, heq | heq⟩ := h
  · exact fun hfront => not_empty_region hregions hfront heq.symm
  · rw [List.append_assoc] at heq
    exact fun hfront => not_empty_region hregions hfront heq.symm

end PvtTable

theorem DeckReader.ReadsItems.of_skipTrivia {r m : DeckReader} {items : List (Item Float)}
    (h : r.skipTrivia.ReadsItems items m) (hne : items ≠ []) : r.ReadsItems items m := by
  cases h with
  | nil => exact absurd rfl hne
  | cons htoken ht hi hrest => exact .cons (r.token?_skipTrivia ▸ htoken) ht hi hrest

namespace ReadM

open PvtTable (IsRowOf IsRegionOf)

variable {t t' : OpenPvtTable} {r r' : DeckReader} {regions : List (List (List Float))}
  {records : List (List (Item Float))}

/-- A round that goes on reads one record, which is a row or ends the region. -/
theorem pvtStep_next (h : pvtStep t r = .ok (.inl t') r') :
    ∃ items m d, r.ReadsItems items m ∧ m.SlashAhead d ∧ r' = d.skipLine ∧
      ((∃ row, IsRowOf items row ∧ t' = { t with rows := t.rows ++ [row] }) ∨
        (items = [] ∧ t.rows ≠ [] ∧ t' = ⟨t.closed ++ [t.rows], []⟩)) := by
  rw [pvtStep, bind_lookahead_eq] at h
  cases hnext : r.cursor.lookahead <;> rw [hnext] at h <;> dsimp only [onLookahead] at h
  case data =>
    obtain ⟨row, r₁, hread, hrest⟩ := Run.bind_eq_ok.mp h
    obtain ⟨items, m, d, hitems, hslash, hvalues, rfl⟩ := readValues_eq_ok.mp hread
    split at hrest
    · cases hrest
    · next hshape =>
      cases hrest
      have hrow : IsRowOf items row := ⟨hvalues, (row.length - 1) / 3, by omega, by omega⟩
      exact ⟨items, m, d, hitems.of_skipTrivia hrow.ne_nil, hslash, rfl, .inl ⟨row, hrow, rfl⟩⟩
  case terminator =>
    obtain ⟨u, r₁, hpass, hrest⟩ := Run.bind_eq_ok.mp h
    obtain ⟨ended, hpass⟩ := Run.discard_eq_ok.mp hpass
    obtain ⟨d, hslash, hplace⟩ := DeckReader.exists_slashAhead hnext
    split at hrest
    · cases hrest
    · next hrows =>
      cases hrest
      have hpassed : r.skipTrivia.terminator.2 = r' := (EStateM.Result.ok.inj hpass).2
      rw [← hpassed, r.terminator_skipTrivia]
      exact ⟨[], r, d, .nil r, hslash, hplace, .inr ⟨rfl, by simpa using hrows, rfl⟩⟩
  all_goals cases h

theorem pvtStep_done (h : pvtStep t r = .ok (.inr regions) r') :
    (r.cursor.lookahead = .keyword ∨ r.cursor.lookahead = .endOfInput) ∧ r' = r.skipTrivia ∧
      regions = if t.rows.isEmpty then t.closed else t.closed ++ [t.rows] := by
  rw [pvtStep, bind_lookahead_eq] at h
  cases hnext : r.cursor.lookahead <;> rw [hnext] at h <;> dsimp only [onLookahead] at h
  case data =>
    obtain ⟨row, r₁, -, hrest⟩ := Run.bind_eq_ok.mp h
    split at hrest <;> cases hrest
  case terminator =>
    obtain ⟨u, r₁, -, hrest⟩ := Run.bind_eq_ok.mp h
    split at hrest <;> cases hrest
  case keyword | endOfInput =>
    cases h
    simp
  all_goals cases h

/-- The closed regions and the open rows are these records. -/
def OpenPvtTable.HasRecords (t : OpenPvtTable) (records : List (List (Item Float))) : Prop :=
  ∃ groups last, records = groups.flatMap (· ++ [[]]) ++ last ∧
    List.Forall₂ IsRegionOf groups t.closed ∧ List.Forall₂ IsRowOf last t.rows

theorem OpenPvtTable.HasRecords.row (h : t.HasRecords records) {items : List (Item Float)}
    {row : List Float} (hrow : IsRowOf items row) :
    OpenPvtTable.HasRecords { t with rows := t.rows ++ [row] } (records ++ [items]) := by
  obtain ⟨groups, last, rfl, hclosed, hrows⟩ := h
  exact ⟨groups, last ++ [items], List.append_assoc _ _ _, hclosed,
    List.rel_append hrows (.cons hrow .nil)⟩

theorem OpenPvtTable.HasRecords.close (h : t.HasRecords records) (hrows : t.rows ≠ []) :
    OpenPvtTable.HasRecords ⟨t.closed ++ [t.rows], []⟩ (records ++ [[]]) := by
  obtain ⟨groups, last, rfl, hclosed, hlast⟩ := h
  refine ⟨groups ++ [last], [], ?_,
    List.rel_append hclosed (.cons ⟨ne_nil_of_forall₂ hlast hrows, hlast⟩ .nil), .nil⟩
  simp [List.flatMap_append]

theorem OpenPvtTable.HasRecords.done (h : t.HasRecords records) :
    PvtTable.HasRecords ⟨if t.rows.isEmpty then t.closed else t.closed ++ [t.rows]⟩ records := by
  obtain ⟨groups, last, rfl, hclosed, hlast⟩ := h
  cases hrows : t.rows with
  | nil =>
    rw [hrows] at hlast
    cases hlast
    exact ⟨groups, hclosed, .inl (List.append_nil _)⟩
  | cons row rows =>
    rw [hrows] at hlast
    refine ⟨groups ++ [last], ?_, .inr ?_⟩
    · exact List.rel_append hclosed
        (.cons ⟨ne_nil_of_forall₂ hlast (List.cons_ne_nil row rows), hlast⟩ .nil)
    · simp [List.flatMap_append]

theorem pvtTable_hasRecords {t : PvtTable Float} (h : pvtTable r = .ok t r') :
    ∃ records e, r.ReadsRecords records e ∧
      (e.cursor.lookahead = .keyword ∨ e.cursor.lookahead = .endOfInput) ∧ r' = e.skipTrivia ∧
      t.HasRecords records := by
  obtain ⟨regions, r₁, hread, hrest⟩ := Run.bind_eq_ok.mp h
  split at hrest
  · cases hrest
  cases hrest
  refine iterate_invariant
    (I := fun t e => ∃ records, r.ReadsRecords records e ∧ t.HasRecords records)
    (Q := fun regions r' => ∃ records e, r.ReadsRecords records e ∧
      (e.cursor.lookahead = .keyword ∨ e.cursor.lookahead = .endOfInput) ∧ r' = e.skipTrivia ∧
      PvtTable.HasRecords ⟨regions⟩ records) ?_ ?_ ⟨[], .nil r, [], [], rfl, .nil, .nil⟩ hread
  · rintro t e t' e' ⟨records, hrecords, ht⟩ hstep
    obtain ⟨items, m, d, hitems, hslash, rfl, hround⟩ := pvtStep_next hstep
    refine ⟨records ++ [items], hrecords.concat hitems hslash, ?_⟩
    rcases hround with ⟨row, hrow, rfl⟩ | ⟨rfl, hrows, rfl⟩
    · exact ht.row hrow
    · exact ht.close hrows
  · rintro t e regions e' ⟨records, hrecords, ht⟩ hstep
    obtain ⟨hnext, rfl, rfl⟩ := pvtStep_done hstep
    exact ⟨records, e, hrecords, hnext, rfl, ht.done⟩

/-- Records that no table has: a row of another length, a record without items first or behind
another one, or a field left out among all items that were read. -/
def Refused (records : List (List (Item Float))) (items : List (Item Float)) : Prop :=
  (∃ record ∈ records, record ≠ [] ∧ ¬ ∃ k, 1 ≤ k ∧ (expand record).length = 1 + 3 * k) ∨
  (∃ front rest, records = front ++ [] :: rest ∧ ∀ record ∈ front.getLast?, record = []) ∨
  ∃ k, .defaults k ∈ records.flatten ++ items

theorem not_refused {t : PvtTable Float} {rest : List (List (Item Float))}
    {items : List (Item Float)} (h : t.HasRecords (records ++ rest))
    (hpos : ∀ i ∈ (records ++ rest).flatten, 1 ≤ i.entries.length)
    (hitems : items <+: rest.head?.getD []) : ¬ Refused records items := by
  rintro (⟨record, hmem, hne, hlen⟩ | ⟨front, more, rfl, hfront⟩ | ⟨k, hmem⟩)
  · obtain ⟨row, hrow⟩ := h.isRow (List.mem_append_left rest hmem) hne
    refine hlen ?_
    rw [hrow.values, List.length_map]
    exact hrow.triples
  · rw [List.append_assoc] at h
    exact h.not_empty hfront
  · have hmem' : .defaults k ∈ (records ++ rest).flatten := by
      rw [List.flatten_append]
      refine (List.mem_append.mp hmem).elim (List.mem_append_left _) fun hin => ?_
      cases rest with
      | nil => cases hitems.subset hin
      | cons record rest =>
        exact List.mem_append_right _ (List.mem_append_left _ (hitems.subset hin))
    -- The field that is left out has no value, but all fields of the table have one.
    have hnone : none ∈ expand (records ++ rest).flatten := by
      refine List.mem_flatMap.mpr ⟨_, hmem', ?_⟩
      have hk := hpos _ hmem'
      rw [Item.length_entries_defaults] at hk
      exact List.mem_replicate.mpr ⟨by omega, rfl⟩
    rw [← h.values] at hnone
    simp at hnone

/-- What a table of triples is, and what it is not. If it is read, its regions hold whole rows,
which are the records that were read, in order, up to the keyword or the end behind them. If what
is read so far has a record that no table has, reading fails. -/
theorem pvtTable_records (r : DeckReader) :
    (∀ t r', pvtTable r = .ok t r' →
      t.regions ≠ [] ∧
      (∀ rows ∈ t.regions, rows ≠ [] ∧ ∀ row ∈ rows, ∃ k, 1 ≤ k ∧ row.length = 1 + 3 * k) ∧
      ∃ records e, r.ReadsRecords records e ∧
        (e.cursor.lookahead = .keyword ∨ e.cursor.lookahead = .endOfInput) ∧ r' = e.skipTrivia ∧
        t.HasRecords records ∧ t.regions.flatten.flatten.map some = expand records.flatten) ∧
    ∀ records items m e, r.ReadsRecords records m → m.ReadsItems items e → Refused records items →
      ∃ error place, pvtTable r = .error error place := by
  refine ⟨fun t r' h => ?_, fun records items m e hrecords hitems hrefused => ?_⟩
  · obtain ⟨hregions, hrows⟩ := pvtTable_sound h
    obtain ⟨records, e, hrecords, hnext, hplace, ht⟩ := pvtTable_hasRecords h
    refine ⟨hregions, fun rows hmem => ⟨(hrows rows hmem).1, fun row hrow => ?_⟩,
      records, e, hrecords, hnext, hplace, ht, ht.values⟩
    obtain ⟨hlen, htriples⟩ := (hrows rows hmem).2 row hrow
    exact ⟨(row.length - 1) / 3, by omega, by omega⟩
  · cases h : pvtTable r with
    | error error place => exact ⟨error, place, rfl⟩
    | ok t r' =>
      obtain ⟨records', e', hrecords', hnext, -, ht⟩ := pvtTable_hasRecords h
      obtain ⟨rest, rfl, hprefix⟩ := hrecords.extends hitems hrecords' (by
        rcases hnext with hnext | hnext <;> simp [hnext])
      exact absurd hrefused (not_refused ht hrecords'.length_entries_pos hprefix)

/-- Two regions, of which the second is left open, and a row with a field left out. -/
theorem pvtTable_records_open :
    (∃ t r', pvtTable (.ofString "1 2*2 3 / a\n4 -- b\n 3*5 /\n/\n6 7 8 9 /\nTITLE") = .ok t r' ∧
      t.regions ≠ []) ∧
    ∃ error place, pvtTable (.ofString "7 2* 8 /\n/\n") = .error error place := by
  constructor
  · have hok : (Run.answer (pvtTable
        (.ofString "1 2*2 3 / a\n4 -- b\n 3*5 /\n/\n6 7 8 9 /\nTITLE"))).isOk = true := by
      decide +kernel
    obtain ⟨t, r', h⟩ := Run.exists_of_isOk hok
    exact ⟨t, r', h, ((pvtTable_records _).1 t r' h).1⟩
  · obtain ⟨e, hitems⟩ : ∃ e, (DeckReader.ofString "7 2* 8 /\n/\n").ReadsItems
        [.value (7 : Float), .defaults 2] e :=
      ⟨_, .cons rfl rfl rfl (.cons rfl rfl rfl (.nil _))⟩
    exact (pvtTable_records _).2 [] _ _ e (.nil _) hitems (.inr (.inr ⟨2, by simp⟩))

end ReadM

end ReservoirDeck
