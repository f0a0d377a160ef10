import ReservoirDeck.Proofs.Reading.Items
import ReservoirDeck.Proofs.Reading.Yields
import ReservoirDeck.Proofs.RoundTrip.Layouts

/-!
Bodies that were read can be written: every name in them is read back, what was left out holds its
default, and tables have whole rows and regions.
-/

namespace ReservoirDeck

namespace ReadM

variable {α : Type} {P : α → Prop}

theorem forall_mem_concat {as : List α} {a : α} (has : ∀ b ∈ as, P b) (ha : P a) :
    ∀ b ∈ as ++ [a], P b :=
  List.forall_mem_append.mpr ⟨has, List.forall_mem_singleton.mpr ha⟩

theorem run_finish_sound {x : RecordM α} (hx : x.Yields P) {finish : RecordM Unit}
    {r r' : DeckReader} {a : α}
    (h : RecordM.run (do
      let values ← x
      finish
      return values) r = .ok a r') : P a := by
  unfold RecordM.run at h
  split at h
  · next hrun =>
    cases h
    obtain ⟨a', s, ha, hrest⟩ := Run.bind_eq_ok.mp hrun
    obtain ⟨-, s', -, hpure⟩ := Run.bind_eq_ok.mp hrest
    cases hpure
    exact (hx ⟨r, .reading⟩ _ _ trivial ha).1
  · cases h

theorem namedRecords_sound {fields : String → RecordM α}
    (hfields : ∀ leader, NameText leader → (fields leader).Yields P) {r r' : DeckReader} {as : List α}
    (h : namedRecords fields r = .ok as r') : ∀ a ∈ as, P a := by
  refine iterate_invariant (I := fun as _ => ∀ a ∈ as, P a) (Q := fun as _ => ∀ a ∈ as, P a)
    ?_ ?_ (by simp) h
  · intro done r next r' hdone hstep
    obtain ⟨t, r₁, ht, hrest⟩ := Run.bind_eq_ok.mp hstep
    split at hrest
    · simp [skipLine] at hrest
    · obtain ⟨a, r₂, ha, hpure⟩ := Run.bind_eq_ok.mp hrest
      cases hpure
      exact forall_mem_concat hdone
        (run_finish_sound (hfields _ (RecordM.nameText_of_token ht)) ha)
  · intro done r as r' hdone hstep
    obtain ⟨t, r₁, ht, hrest⟩ := Run.bind_eq_ok.mp hstep
    split at hrest
    · simp only [skipLine, Run.bind_modify_eq, Run.pure_eq, EStateM.Result.ok.injEq,
        Sum.inr.injEq] at hrest
      rw [← hrest.1]
      exact hdone
    · simp [Run.map_eq_ok] at hrest

theorem rows_sound {x : RecordM α} (hx : x.Yields P) {r r' : DeckReader} {as : List α}
    (h : rows x r = .ok as r') : as ≠ [] ∧ ∀ a ∈ as, P a := by
  obtain ⟨as', r₁, hread, hrest⟩ := Run.bind_eq_ok.mp h
  split at hrest
  · cases hrest
  · next hne =>
    cases hrest
    refine ⟨by simpa using hne, ?_⟩
    refine iterate_invariant (I := fun as _ => ∀ a ∈ as, P a) (Q := fun as _ => ∀ a ∈ as, P a)
      ?_ ?_ (by simp) hread
    · intro done r next r' hdone hstep
      obtain ⟨look, r₂, -, hrest⟩ := Run.bind_eq_ok.mp hstep
      cases look with
      | data =>
        obtain ⟨a, r₃, ha, hpure⟩ := Run.bind_eq_ok.mp hrest
        cases hpure
        exact forall_mem_concat hdone (run_finish_sound hx ha)
      | _ => cases hrest
    · intro done r as r' hdone hstep
      obtain ⟨look, r₂, -, hrest⟩ := Run.bind_eq_ok.mp hstep
      cases look with
      | data =>
        obtain ⟨a, r₃, ha, hpure⟩ := Run.bind_eq_ok.mp hrest
        cases hpure
      | keyword =>
        cases hrest
        exact hdone
      | endOfInput =>
        cases hrest
        exact hdone
      | _ => cases hrest

theorem title_sound {r r' : DeckReader} {s : String} (h : ReadM.title r = .ok s r') :
    Text.IsLine s := by
  simp only [ReadM.title, Run.bind_get_eq] at h
  split at h
  · cases h
  · obtain ⟨s', r₁, hline, hpure⟩ := Run.bind_eq_ok.mp h
    cases hpure
    cases hline
    refine ⟨Text.trim_trim _, fun hmem => ?_⟩
    refine Text.not_mem_ofBytes (fun b hb => ?_) (Text.mem_of_mem_trim hmem)
    have hline := ( List.rdropWhile_prefix (p := (· == Byte.carriageReturn)) _).sublist.mem hb
    exact List.mem_takeWhile_imp (p := (· != Byte.newline)) hline

theorem isRegion_of_fill {columns : Nat} {rows : List (List (Option Float))}
    (hwidth : ∀ row ∈ rows, row.length = columns) (hcolumns : columns ≠ 0) (hrows : rows ≠ [])
    {region : List (List Float)} (h : Table.fill rows = .ok region) :
    IsRegion columns rows.length region := by
  obtain ⟨hcount, hheight⟩ := Table.fill_shape h
  refine ⟨?_, hheight⟩
  obtain ⟨row, rest, rfl⟩ := List.exists_cons_of_ne_nil hrows
  have := hwidth row List.mem_cons_self
  rw [hcount, List.head?_cons, Option.map_some, Option.getD_some]
  omega

theorem fillRows_eq_ok {rows : List (List (Option Float))} {r r' : DeckReader}
    {region : List (List Float)} :
    fillRows rows r = .ok region r' ↔ Table.fill rows = .ok region ∧ r' = r := by
  rw [fillRows]
  cases Table.fill rows <;> simp [eq_comm]

/-- Closed regions are regions, and open rows are as wide as the table. -/
structure OpenTable.Sound (columns : Nat) (t : OpenTable) : Prop where
  closed : ∀ region ∈ t.closed, ∃ k, k ≠ 0 ∧ IsRegion columns k region
  rows : ∀ row ∈ t.rows, row.length = columns

theorem OpenTable.close_sound {columns : Nat} (hcolumns : columns ≠ 0) {t t' : OpenTable}
    (ht : t.Sound columns) (hrows : t.rows ≠ []) {r r' : DeckReader}
    (h : t.close r = .ok t' r') : t'.Sound columns := by
  obtain ⟨region, r₁, hfill, hpure⟩ := Run.bind_eq_ok.mp h
  cases hpure
  have hregion := isRegion_of_fill ht.rows hcolumns hrows (fillRows_eq_ok.mp hfill).1
  exact ⟨forall_mem_concat ht.closed ⟨_, mt List.length_eq_zero_iff.mp hrows, hregion⟩, by simp⟩

/-- A row has the width of the table, and is not empty where numbers come next. -/
theorem tableRow_sound {columns visited : Nat} (hcolumns : columns ≠ 0)
    {row : List (Option Float)} {r r₁ r' : DeckReader} (hnext : lookahead r = .ok .data r₁)
    (h : tableRow columns r₁ = .ok (row, visited) r') : row.length = columns ∧ visited ≠ 0 := by
  obtain ⟨b, tl, hr, hb⟩ := lookahead_eq_data hnext
  simp only [tableRow] at h
  split at h
  · cases h
  · next hstop =>
    cases h
    refine ⟨by simp [length_fillSlots], visited_fillSlots (by simpa using hcolumns) ?_ hstop⟩
    exact fun t r' htoken => DeckReader.isTerminator_of_data htoken hr hb

theorem tableStep_sound {columns : Nat} (hcolumns : columns ≠ 0) {t : OpenTable}
    (ht : t.Sound columns) {r r' : DeckReader} {next : OpenTable ⊕ List (List (List Float))}
    (h : tableStep columns t r = .ok next r') :
    next.elim (OpenTable.Sound columns) fun regions => (⟨regions, []⟩ : OpenTable).Sound columns := by
  obtain ⟨look, r₁, hlook, hrest⟩ := Run.bind_eq_ok.mp h
  cases look with
  | data =>
    obtain ⟨⟨row, visited⟩, r₂, hrow, hrest⟩ := Run.bind_eq_ok.mp hrest
    obtain ⟨hwidth, hvisited⟩ := tableRow_sound hcolumns hlook hrow
    simp only [hvisited, if_false] at hrest
    have hmore : OpenTable.Sound columns { t with rows := t.rows ++ [row] } :=
      ⟨ht.closed, forall_mem_concat ht.rows hwidth⟩
    split at hrest
    · obtain ⟨t', r₃, hclose, hpure⟩ := Run.bind_eq_ok.mp hrest
      cases hpure
      exact OpenTable.close_sound hcolumns hmore (by simp) hclose
    · cases hrest
      exact hmore
  | keyword | endOfInput =>
    dsimp only at hrest
    split at hrest
    · cases hrest
      exact ⟨ht.closed, by simp⟩
    · next hne =>
      obtain ⟨t', r₃, hclose, hpure⟩ := Run.bind_eq_ok.mp hrest
      cases hpure
      exact ⟨(OpenTable.close_sound hcolumns ht (by simpa using hne) hclose).closed, by simp⟩
  | terminator =>
    obtain ⟨-, r₂, -, hrest⟩ := Run.bind_eq_ok.mp hrest
    split at hrest
    · cases hrest
    · next hne =>
      obtain ⟨t', r₃, hclose, hpure⟩ := Run.bind_eq_ok.mp hrest
      cases hpure
      exact OpenTable.close_sound hcolumns ht (by simpa using hne) hclose
  | _ => cases hrest

theorem regionTable_sound {columns : Nat} (hcolumns : columns ≠ 0) {r r' : DeckReader}
    {t : RegionTable Float} (h : regionTable columns r = .ok t r') : t.Sound columns := by
  obtain ⟨regions, r₁, hread, hrest⟩ := Run.bind_eq_ok.mp h
  split at hrest
  · cases hrest
  · next hne =>
    cases hrest
    have hsound := iterate_invariant (I := fun t _ => OpenTable.Sound columns t)
      (Q := fun regions _ => OpenTable.Sound columns ⟨regions, []⟩)
      (fun t r t' r' ht hstep => tableStep_sound hcolumns ht hstep)
      (fun t r regions r' ht hstep => tableStep_sound hcolumns ht hstep) ⟨by simp, by simp⟩ hread
    exact ⟨rfl, by simpa using hne, hsound.closed⟩

/-- Rows hold whole triples, and closed regions have rows. -/
structure OpenPvtTable.Sound (t : OpenPvtTable) : Prop where
  closed : ∀ rows ∈ t.closed, rows ≠ [] ∧ ∀ row ∈ rows, 4 ≤ row.length ∧ (row.length - 1) % 3 = 0
  rows : ∀ row ∈ t.rows, 4 ≤ row.length ∧ (row.length - 1) % 3 = 0

theorem OpenPvtTable.Sound.close {t : OpenPvtTable} (ht : t.Sound) (hrows : t.rows ≠ []) :
    OpenPvtTable.Sound ⟨t.closed ++ [t.rows], []⟩ :=
  ⟨forall_mem_concat ht.closed ⟨hrows, ht.rows⟩, by simp⟩

theorem pvtStep_sound {t : OpenPvtTable} (ht : t.Sound) {r r' : DeckReader}
    {next : OpenPvtTable ⊕ List (List (List Float))} (h : pvtStep t r = .ok next r') :
    next.elim OpenPvtTable.Sound fun regions => OpenPvtTable.Sound ⟨regions, []⟩ := by
  obtain ⟨look, r₁, hlook, hrest⟩ := Run.bind_eq_ok.mp h
  cases look with
  | data =>
    obtain ⟨row, r₂, -, hrest⟩ := Run.bind_eq_ok.mp hrest
    split at hrest
    · cases hrest
    · next hshape =>
      cases hrest
      exact ⟨ht.closed, forall_mem_concat ht.rows (by omega)⟩
  | keyword | endOfInput =>
    cases hrest
    change OpenPvtTable.Sound ⟨if t.rows.isEmpty then t.closed else t.closed ++ [t.rows], []⟩
    split
    · exact ⟨ht.closed, by simp⟩
    · next hne => exact ht.close (by simpa using hne)
  | terminator =>
    obtain ⟨-, r₂, -, hrest⟩ := Run.bind_eq_ok.mp hrest
    split at hrest
    · cases hrest
    · next hne =>
      cases hrest
      exact ht.close (by simpa using hne)
  | _ => cases hrest

theorem pvtTable_sound {r r' : DeckReader} {t : PvtTable Float} (h : pvtTable r = .ok t r') :
    t.Sound := by
  obtain ⟨regions, r₁, hread, hrest⟩ := Run.bind_eq_ok.mp h
  split at hrest
  · cases hrest
  · next hne =>
    cases hrest
    have hsound := iterate_invariant (I := fun t _ => OpenPvtTable.Sound t)
      (Q := fun regions _ => OpenPvtTable.Sound ⟨regions, []⟩)
      (fun t r t' r' ht hstep => pvtStep_sound ht hstep)
      (fun t r regions r' ht hstep => pvtStep_sound ht hstep) ⟨by simp, by simp⟩ hread
    exact ⟨by simpa using hne, hsound.closed⟩

theorem mapM_sound {α β : Type} {P : β → Prop} {f : α → ReadM β}
    (hf : ∀ a r b r', f a r = .ok b r' → P b) {as : List α} {bs : List β} {r r' : DeckReader}
    (h : as.mapM f r = .ok bs r') : bs.length = as.length ∧ ∀ b ∈ bs, P b := by
  induction as generalizing bs r with
  | nil =>
    cases h
    simp
  | cons a as ih =>
    rw [List.mapM_cons] at h
    obtain ⟨b, r₁, hb, hrest⟩ := Run.bind_eq_ok.mp h
    obtain ⟨bs, r₂, hbs, hpure⟩ := Run.bind_eq_ok.mp hrest
    cases hpure
    obtain ⟨hlen, hall⟩ := ih hbs
    refine ⟨by simp [hlen], fun b' hmem => ?_⟩
    rcases List.mem_cons.mp hmem with rfl | hmem
    · exact hf a r b' r₁ hb
    · exact hall b' hmem

theorem depthColumn_length {rows : List (List (Option Float))} {column : Nat} {r r' : DeckReader}
    {entries : List Float} (h : depthColumn rows column r = .ok entries r') :
    entries.length = rows.length := by
  unfold depthColumn at h
  split at h
  · cases h
    simp
  · obtain ⟨columns, r₁, hfill, hpure⟩ := Run.bind_eq_ok.mp h
    cases hpure
    have hfill := (fillRows_eq_ok.mp hfill).1
    obtain ⟨xs, rest, hcolumns, -⟩ := Table.fill_eq_ok.mp hfill
    have hne : columns ≠ [] := by simp [hcolumns]
    rw [List.getLast?_eq_some_getLast hne, Option.getD_some]
    simpa using (Table.fill_shape hfill).2 _ (List.getLast_mem hne)

theorem closeDepthRegion_sound {layout : DepthLayout} {t t' : OpenTable} {r r' : DeckReader}
    (h : closeDepthRegion layout t r = .ok t' r') :
    t'.rows = [] ∧ ∃ region, t'.closed = t.closed ++ [region] ∧
      ∃ k, 2 ≤ k ∧ IsRegion layout.kept.length k region := by
  rw [closeDepthRegion] at h
  split at h
  · cases h
  · next hrows =>
    obtain ⟨region, r₁, hregion, hpure⟩ := Run.bind_eq_ok.mp h
    cases hpure
    obtain ⟨hlen, hall⟩ := mapM_sound (fun _ _ _ _ hc => depthColumn_length hc) hregion
    exact ⟨rfl, region, rfl, t.rows.length, by omega, hlen, hall⟩

def IsDepthRegions (layout : DepthLayout) (regions : List (List (List Float))) : Prop :=
  ∀ region ∈ regions, ∃ k, 2 ≤ k ∧ IsRegion layout.kept.length k region

theorem closeDepthRegion_isDepthRegions {layout : DepthLayout} {t t' : OpenTable}
    (ht : IsDepthRegions layout t.closed) {r r' : DeckReader}
    (h : closeDepthRegion layout t r = .ok t' r') : IsDepthRegions layout t'.closed := by
  obtain ⟨-, region, hclosed, hregion⟩ := closeDepthRegion_sound h
  rw [hclosed]
  exact forall_mem_concat ht hregion

theorem depthStep_sound {layout : DepthLayout} {t : OpenTable}
    (ht : IsDepthRegions layout t.closed) {r r' : DeckReader} {next : OpenTable ⊕ OpenTable}
    (h : depthStep layout t r = .ok next r') :
    IsDepthRegions layout (next.elim id id).closed := by
  obtain ⟨look, r₁, hlook, hrest⟩ := Run.bind_eq_ok.mp h
  cases look with
  | data =>
    obtain ⟨row, r₂, -, hrest⟩ := Run.bind_eq_ok.mp hrest
    obtain ⟨ends, r₃, -, hrest⟩ := Run.bind_eq_ok.mp hrest
    split at hrest
    · obtain ⟨t', r₄, hclose, hpure⟩ := Run.bind_eq_ok.mp hrest
      cases hpure
      exact closeDepthRegion_isDepthRegions (t := { t with rows := t.rows ++ [row] }) ht hclose
    · cases hrest
      exact ht
  | keyword | endOfInput =>
    cases hrest
    exact ht
  | terminator =>
    obtain ⟨-, r₂, -, hpure⟩ := Run.bind_eq_ok.mp hrest
    cases hpure
    exact ht
  | _ => cases hrest

theorem endpointTable_of_regions {layout : DepthLayout} {regions : List (List (List Float))}
    (hregions : IsDepthRegions layout regions) {r r' : DeckReader} {t : EndpointTable Float}
    (h : (if regions.isEmpty then malformed .noTableRows
      else
        match RegionTable.ofRegions? layout.kept.length regions with
        | some table => return ⟨table, endpointMask table⟩
        | none => malformed .raggedRegions : ReadM (EndpointTable Float)) r = .ok t r') :
    EndpointTable.Sound layout t := by
  split at h
  · cases h
  · next hne =>
    rw [RegionTable.ofRegions?] at h
    by_cases hregular : RegionTable.isRegular layout.kept.length regions = true
    · simp only [hregular, if_true] at h
      cases h
      exact ⟨rfl, by simpa using hne, hregions, rfl⟩
    · simp [hregular] at h

theorem endpointTable_sound {layout : DepthLayout} {r r' : DeckReader} {t : EndpointTable Float}
    (h : endpointTable layout r = .ok t r') : EndpointTable.Sound layout t := by
  obtain ⟨t₁, r₁, hread, hrest⟩ := Run.bind_eq_ok.mp h
  have hsound := iterate_invariant (I := fun t _ => IsDepthRegions layout t.closed)
    (Q := fun t _ => IsDepthRegions layout t.closed)
    (fun t r t' r' ht hstep => depthStep_sound ht hstep)
    (fun t r t' r' ht hstep => depthStep_sound ht hstep) (by simp [IsDepthRegions]) hread
  split at hrest
  · exact endpointTable_of_regions hsound hrest
  · obtain ⟨t₂, r₂, hclose, hrest⟩ := Run.bind_eq_ok.mp hrest
    exact endpointTable_of_regions (closeDepthRegion_isDepthRegions hsound hclose) hrest

end ReadM

theorem Record.read_yields (leader : String) (fields : List Field) :
    RecordM.Yields (Record.read leader fields) Record.Sound :=
  Row.generateM_yields (Field.read_yields leader) fields

theorem Date.read_yields [Calendar] (day : String) : RecordM.Yields (Date.read day) Date.IsDay := by
  refine (RecordM.requiredName_yields "month").bind fun month _ =>
    (RecordM.requiredNumber_yields "year").bind fun year _ => ?_
  dsimp only
  split
  · next date hdate =>
    obtain ⟨m, -, hdate⟩ := Option.bind_eq_some_iff.mp hdate
    obtain ⟨d, -, hdate⟩ := Option.bind_eq_some_iff.mp hdate
    exact .pure (isDay_of_of? hdate)
  · exact .malformed _

theorem ReadM.startDate_sound [Calendar] {r r' : DeckReader} {d : Date}
    (h : startDate r = .ok d r') : d.IsDay := by
  obtain ⟨day, r₁, -, h⟩ := Run.bind_eq_ok.mp h
  exact run_finish_sound (Date.read_yields day.text) h

theorem Layout.read_sound [Calendar] {layout : Layout} (hw : layout.isWritable = true) {r r' : DeckReader}
    {body : layout.Body Float} (h : layout.read r = .ok body r') : layout.Sound body := by
  cases layout with
  | record fields => exact ReadM.run_finish_sound (Record.read_yields "" fields) h
  | named leader fields =>
    refine ReadM.namedRecords_sound (P := fun r => NameText r.1 ∧ Record.Sound r.2) ?_ h
    exact fun leader hleader =>
      (Record.read_yields leader fields).bind fun r hr => .pure ⟨hleader, hr⟩
  | rows fields => exact ReadM.rows_sound (Record.read_yields "" fields) h
  | title => exact ReadM.title_sound h
  | startDate => exact ReadM.startDate_sound h
  | dates => exact ReadM.namedRecords_sound (fun day _ => Date.read_yields day) h
  | steps => trivial
  | table columns units =>
    exact ReadM.regionTable_sound (by simpa [isWritable] using hw) h
  | pvt => exact ReadM.pvtTable_sound h
  | depth layout => exact ReadM.endpointTable_sound h

end ReservoirDeck
