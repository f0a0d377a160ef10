import ReservoirDeck.Proofs.Reading.Ahead
import ReservoirDeck.Proofs.RoundTrip.Slots
import ReservoirDeck.Table.Depth

/-!
Rows of a fixed width, and the regions that slashes make of them. A row takes the items ahead until
they fill its fields, and a slash right behind it closes the region; the next slash is no row of a
region any more.
-/

namespace ReservoirDeck

open Item (expand)

section Slots

variable {τ σ : Type} [DeckNumber τ] {mark : τ → σ} {slots : List σ} {items : List (Item τ)}
  {i : Item τ} {r r' : DeckReader} {t : Token}

/-- Items that together fill `width` fields: all of them start within the fields, and what the last
one reaches beyond is left out. -/
structure Item.FillUp (width : Nat) (items : List (Item τ)) : Prop where
  starts : ∀ before i, before ++ [i] <+: items → (expand before).length < width
  reach : width ≤ (expand items).length
  beyond : ∀ entry ∈ (expand items).drop width, entry = none

omit [DeckNumber τ] in
theorem Item.FillUp.cons {width : Nat} (hwidth : 0 < width) (hfits : i.entries.length ≤ width)
    (h : FillUp (width - i.entries.length) items) : FillUp width (i :: items) where
  starts before j hbefore := by
    cases before with
    | nil => exact hwidth
    | cons b before =>
      obtain ⟨rfl, hbefore'⟩ := List.cons_prefix_cons.mp hbefore
      have hstarts := h.starts before j hbefore'
      rw [expand_cons, List.length_append]
      omega
  reach := by
    have hreach := h.reach
    rw [expand_cons, List.length_append]
    omega
  beyond := by
    have hdrop : (expand (i :: items)).drop width =
        (expand items).drop (width - i.entries.length) := by
      rw [expand_cons, List.drop_append, List.drop_eq_nil_of_le hfits, List.nil_append]
    rw [hdrop]
    exact h.beyond

omit [DeckNumber τ] in
theorem Item.fillUp_defaults {width k : Nat} (hwidth : 0 < width) (hk : width ≤ k) :
    FillUp width [(.defaults k : Item τ)] where
  starts before i hbefore := by
    have hlen := hbefore.length_le
    rw [List.length_append, List.length_singleton, List.length_singleton] at hlen
    obtain rfl : before = [] := List.length_eq_zero_iff.mp (by omega)
    exact hwidth
  reach := by simpa using hk
  beyond entry hentry := by
    have hmem := List.mem_of_mem_drop hentry
    simp only [expand_cons, expand_nil, List.append_nil, entries] at hmem
    exact (List.mem_replicate.mp hmem).2

theorem exists_items_of_full {overflow : Nat}
    (h : (fillSlots mark slots r).1.stop = .full overflow) :
    ∃ items : List (Item τ), r.ReadsItems items (fillSlots mark slots r).2 ∧
      Item.FillUp slots.length items ∧
      (fillSlots mark slots r).1.slots = overlay mark (expand items) slots ∧
      (fillSlots mark slots r).1.visited = slots.length := by
  induction hr : r.remaining using Nat.strongRecOn generalizing r slots with
  | _ n ih =>
  by_cases hs : slots = []
  · subst hs
    rw [fillSlots_nil]
    exact ⟨[], .nil r, ⟨by simp, by simp, by simp⟩, rfl, rfl⟩
  have hpos := List.length_pos_iff.mpr hs
  rcases htoken : r.token? with ⟨_ | t, r₁⟩
  · rw [fillSlots_none hs htoken] at h
    cases h
  by_cases ht : t.isTerminator = true
  · rw [fillSlots_terminator hs htoken ht] at h
    cases h
  have hitem : t.isTerminator = false := by simpa using ht
  have hlt : r₁.remaining < n := hr ▸ DeckReader.token?_lt htoken
  cases hi : t.item? τ with
  | none =>
    rw [fillSlots_item hs htoken hitem, hi] at h
    cases h
  | some i =>
    rcases Nat.lt_or_ge slots.length i.entries.length with hlong | hfits
    · cases i with
      | value v => exact absurd (Item.length_value_le hs v) (Nat.not_le_of_lt hlong)
      | repeated k v =>
        -- Only default markers may reach beyond the slots.
        rw [Item.length_entries_repeated] at hlong
        rw [fillSlots_of_long_repeated hs htoken hitem hi hlong] at h
        cases h
      | defaults k =>
        rw [Item.length_entries_defaults] at hlong
        rw [fillSlots_of_long_defaults hs htoken hitem hi hlong]
        refine ⟨[.defaults k], .cons htoken hitem hi (.nil r₁),
          Item.fillUp_defaults hpos (Nat.le_of_lt hlong), ?_, rfl⟩
        rw [Item.expand_cons, Item.expand_nil, List.append_nil, Item.entries, overlay_missing]
    · rw [fillSlots_of_fits htoken hitem hi hfits] at h ⊢
      obtain ⟨items, hitems, hfill, hslots, hvisited⟩ := ih _ hlt h rfl
      rw [List.length_drop] at hfill hvisited
      refine ⟨i :: items, .cons htoken hitem hi hitems, hfill.cons hpos hfits, ?_, ?_⟩
      · rw [Item.expand_cons, overlay_append mark hfits, ← hslots]
        rfl
      · change (overlay mark i.entries (slots.take i.entries.length)).length + _ = _
        rw [length_overlay, List.length_take, hvisited]
        omega

omit [DeckNumber τ] in
theorem overlay_full {es : List (Option τ)} {n : Nat} (h : n ≤ es.length) :
    overlay some es (List.replicate n none) = es.take n := by
  have hlen : (es.take n).length = n := List.length_take_of_le h
  have hslots : (List.replicate n (none : Option τ)).length = n := List.length_replicate
  conv_lhs => rw [← List.take_append_drop n es]
  rw [overlay_append_of_le some (by omega), overlay_empty (by omega), hlen, Nat.sub_self,
    List.replicate_zero, List.append_nil]

end Slots

namespace DeckReader

variable {r m e d : DeckReader} {width : Nat} {row : List (Option Float)}
  {rows : List (List (Option Float))} {closed : List (List (List (Option Float)))}

/-- The next tokens are the items of a row of `width` fields, and `e` is the place behind them. -/
def ReadsRow (r : DeckReader) (width : Nat) (row : List (Option Float)) (e : DeckReader) : Prop :=
  ∃ items, r.ReadsItems items e ∧ Item.FillUp width items ∧ row = (expand items).take width

theorem token?_of_skipTrivia (h : m.skipTrivia = r.skipTrivia) : m.token? = r.token? := by
  rw [← m.token?_skipTrivia, h, r.token?_skipTrivia]

theorem lookahead_of_skipTrivia (h : m.skipTrivia = r.skipTrivia) :
    m.cursor.lookahead = r.cursor.lookahead := by
  have hcursor : m.cursor.skipTrivia = r.cursor.skipTrivia := congrArg cursor h
  rw [← m.cursor.lookahead_skipTrivia, hcursor, r.cursor.lookahead_skipTrivia]

theorem ReadsRow.length_eq (h : r.ReadsRow width row e) : row.length = width := by
  obtain ⟨items, -, hfill, rfl⟩ := h
  exact List.length_take_of_le hfill.reach

theorem ReadsRow.of_skipTrivia (hwidth : 0 < width) (hplace : m.skipTrivia = r.skipTrivia)
    (h : m.ReadsRow width row e) : r.ReadsRow width row e := by
  obtain ⟨items, hitems, hfill, hrow⟩ := h
  refine ⟨items, ?_, hfill, hrow⟩
  cases hitems with
  | nil =>
    have hreach := hfill.reach
    rw [Item.expand_nil, List.length_nil] at hreach
    omega
  | cons htoken ht hi hrest =>
    rw [token?_of_skipTrivia hplace] at htoken
    exact .cons htoken ht hi hrest

/-- The text from `r` to `e` is made of regions that a slash closed, each right behind its last row,
and of rows that are in no closed region. -/
inductive ReadsRegions (r : DeckReader) (width : Nat) : List (List (List (Option Float))) →
    List (List (Option Float)) → DeckReader → Prop
  | nil : ReadsRegions r width [] [] r
  | row {m e : DeckReader} {closed : List (List (List (Option Float)))}
    {rows : List (List (Option Float))} {row : List (Option Float)}
    (h : ReadsRegions r width closed rows m) (hrow : m.ReadsRow width row e)
    (hopen : ∀ d, ¬ e.SlashAhead d) : ReadsRegions r width closed (rows ++ [row]) e
  | close {m e d : DeckReader} {closed : List (List (List (Option Float)))}
    {rows : List (List (Option Float))} {row : List (Option Float)}
    (h : ReadsRegions r width closed rows m) (hrow : m.ReadsRow width row e)
    (hslash : e.SlashAhead d) : ReadsRegions r width (closed ++ [rows ++ [row]]) [] d.skipLine

theorem ReadsRegions.rows_eq_nil (h : r.ReadsRegions width closed rows e)
    (hslash : e.SlashAhead d) : rows = [] := by
  cases h with
  | row _ _ hopen => exact absurd hslash (hopen d)
  | nil | close => rfl

/-- The text from `r` to `e` is the body of a table, which these groups of rows make up. It ends where
a keyword or the end of the text comes next, or behind a slash that no row is in front of. -/
inductive ReadsTable (r : DeckReader) (width : Nat) :
    List (List (List (Option Float))) → DeckReader → Prop
  | keyword {closed : List (List (List (Option Float)))} {rows : List (List (Option Float))}
    {e : DeckReader} (h : r.ReadsRegions width closed rows e)
    (hnext : e.cursor.lookahead = .keyword ∨ e.cursor.lookahead = .endOfInput) :
    ReadsTable r width (closed ++ if rows.isEmpty then [] else [rows]) e.skipTrivia
  | slash {closed : List (List (List (Option Float)))} {e d : DeckReader}
    (h : r.ReadsRegions width closed [] e) (hslash : e.SlashAhead d) :
    ReadsTable r width closed d.skipLine

/-- A slash that comes next is passed with its line; otherwise nothing but blanks and comments is. -/
theorem terminator_cases (r : DeckReader) :
    (∃ d, r.SlashAhead d ∧ r.terminator = (true, d.skipLine)) ∨
      ((∀ d, ¬ r.SlashAhead d) ∧ r.terminator = (false, r.skipTrivia)) := by
  by_cases hhead : r.skipTrivia.cursor.rest.head? = some Byte.slash
  · left
    have hnext : r.cursor.lookahead = .terminator := lookahead_of_head hhead
    obtain ⟨d, hslash, hplace⟩ := exists_slashAhead hnext
    have hpass : r.terminator.1 = true := by
      rw [terminator, if_pos hhead]
    exact ⟨d, hslash, Prod.ext hpass hplace⟩
  · right
    refine ⟨fun d hslash => hhead ?_, by rw [terminator, if_neg hhead]⟩
    have hnext := lookahead_of_slash hslash
    have hcursor : r.skipTrivia.cursor = r.cursor.skipTrivia := rfl
    rw [Cursor.lookahead_eq_head, ← hcursor] at hnext
    cases hb : r.skipTrivia.cursor.rest.head? with
    | none => simp [hb] at hnext
    | some b =>
      rw [hb] at hnext
      rw [Lookahead.eq_slash_of_terminator hnext]

end DeckReader

/-- A row with its depth, in which only kept columns are given. -/
structure DepthLayout.Supports (layout : DepthLayout) (row : List (Option Float)) : Prop where
  depth : row.head?.join.isSome = true
  unsupported : ∀ c, c ∉ layout.kept → row[c]?.join = none

theorem DepthLayout.unsupported?_eq_none {layout : DepthLayout} {column : Nat}
    {row : List (Option Float)} (h : layout.unsupported? column row = none) (c : Nat)
    (hc : column + c ∉ layout.kept) : row[c]?.join = none := by
  induction row generalizing column c with
  | nil => rfl
  | cons entry row ih =>
    unfold unsupported? at h
    split at h
    · cases h
    · next hentry =>
      cases c with
      | zero =>
        cases entry with
        | none => rfl
        | some x => exact absurd (by simpa using hentry) hc
      | succ c =>
        rw [List.getElem?_cons_succ]
        exact ih h c (by rwa [Nat.add_assoc, Nat.add_comm 1 c])

namespace ReadM

variable {layout : DepthLayout} {r r' : DeckReader} {row : List (Option Float)} {t t' : OpenTable}

theorem readsRow_of_optionalNumbers {width visited : Nat} {s : RecordReader}
    (h : RecordM.optionalNumbers Float width ⟨r, .reading⟩ = .ok (visited, row) s)
    (hvisited : width ≤ visited) : r.ReadsRow width row s.reader := by
  rw [RecordM.optionalNumbers_eq, RecordM.fillNext] at h
  have hlen : (List.replicate width (none : Option Float)).length = width := List.length_replicate
  cases hstop : (fillSlots some (List.replicate width (none : Option Float)) r).1.stop with
  | failed error => simp [hstop] at h
  | terminated =>
    obtain ⟨items, e, d, hitems, hslash, hroom⟩ := exists_items_of_terminated hstop
    simp only [hstop, EStateM.Result.ok.injEq, Prod.mk.injEq] at h
    have hcount := h.1.1
    rw [fillSlots_of_room some hitems hslash hroom] at hcount
    dsimp only at hcount
    omega
  | full overflow =>
    obtain ⟨items, hitems, hfill, hslots, -⟩ := exists_items_of_full hstop
    simp only [hstop, EStateM.Result.ok.injEq, Prod.mk.injEq] at h
    obtain ⟨⟨-, rfl⟩, rfl⟩ := h
    rw [hlen] at hfill
    exact ⟨items, hitems, hfill, by rw [hslots, overlay_full hfill.reach]⟩

/-- A row that is read is as wide as the layout says, with no more than it supports. -/
theorem depthRow_eq_ok (h : RecordM.run (depthRow layout) r = .ok row r') :
    r.ReadsRow layout.width row r' ∧ layout.Supports row := by
  rw [RecordM.run] at h
  split at h
  · next row' s hrow =>
    cases h
    obtain ⟨⟨visited, entries⟩, s₁, hnumbers, hrest⟩ := Run.bind_eq_ok.mp hrow
    dsimp only at hrest
    split at hrest
    · cases hrest
    next hvisited =>
    split at hrest
    · cases hrest
    next hdepth =>
    cases hsupported : layout.unsupported? 0 entries with
    | some column =>
      simp only [hsupported] at hrest
      cases hrest
    | none =>
      simp only [hsupported] at hrest
      cases hrest
      refine ⟨readsRow_of_optionalNumbers hnumbers (Nat.le_of_not_lt hvisited), ?_, fun c hc => ?_⟩
      · rwa [Option.isNone_iff_eq_none, ← ne_eq, ← Option.isSome_iff_ne_none] at hdepth
      · exact DepthLayout.unsupported?_eq_none hsupported c (by rwa [Nat.zero_add])
  · cases h

/-- A round that goes on reads a row. If a slash comes right behind it, the region is closed. -/
theorem depthStep_next (h : depthStep layout t r = .ok (.inl t') r') :
    ∃ row m, r.skipTrivia.ReadsRow layout.width row m ∧ layout.Supports row ∧
      ((∃ d, m.SlashAhead d ∧
          closeDepthRegion layout ⟨t.closed, t.rows ++ [row]⟩ d.skipLine = .ok t' r') ∨
        (∀ d, ¬ m.SlashAhead d) ∧ t' = ⟨t.closed, t.rows ++ [row]⟩ ∧ r' = m.skipTrivia) := by
  rw [depthStep, bind_lookahead_eq] at h
  cases hnext : r.cursor.lookahead <;> rw [hnext] at h <;> dsimp only [onLookahead] at h
  case data =>
    obtain ⟨row, m, hrow, hrest⟩ := Run.bind_eq_ok.mp h
    obtain ⟨hreads, hsupports⟩ := depthRow_eq_ok hrow
    refine ⟨row, m, hreads, hsupports, ?_⟩
    obtain ⟨closes, r₂, hterminator, hrest⟩ := Run.bind_eq_ok.mp hrest
    have hpass : m.terminator = (closes, r₂) := by
      simpa [terminator, Prod.ext_iff] using hterminator
    rcases m.terminator_cases with ⟨d, hslash, heq⟩ | ⟨hopen, heq⟩
    · left
      cases hpass.symm.trans heq
      obtain ⟨t₂, r₃, hclose, hpure⟩ := Run.bind_eq_ok.mp hrest
      cases hpure
      exact ⟨d, hslash, hclose⟩
    · right
      cases hpass.symm.trans heq
      cases hrest
      exact ⟨hopen, rfl, rfl⟩
  case terminator =>
    obtain ⟨u, r₁, -, hrest⟩ := Run.bind_eq_ok.mp h
    cases hrest
  all_goals cases h

theorem depthStep_done (h : depthStep layout t r = .ok (.inr t') r') : t' = t ∧
    ((r.cursor.lookahead = .keyword ∨ r.cursor.lookahead = .endOfInput) ∧ r' = r.skipTrivia ∨
      ∃ d, r.SlashAhead d ∧ r' = d.skipLine) := by
  rw [depthStep, bind_lookahead_eq] at h
  cases hnext : r.cursor.lookahead <;> rw [hnext] at h <;> dsimp only [onLookahead] at h
  case data =>
    obtain ⟨row, m, -, hrest⟩ := Run.bind_eq_ok.mp h
    obtain ⟨closes, r₂, -, hrest⟩ := Run.bind_eq_ok.mp hrest
    split at hrest
    · obtain ⟨t₂, r₃, -, hpure⟩ := Run.bind_eq_ok.mp hrest
      cases hpure
    · cases hrest
  case terminator =>
    obtain ⟨u, r₁, hpass, hrest⟩ := Run.bind_eq_ok.mp h
    obtain ⟨ended, hpass⟩ := Run.discard_eq_ok.mp hpass
    cases hrest
    obtain ⟨d, hslash, hplace⟩ := DeckReader.exists_slashAhead hnext
    have hpassed : r.skipTrivia.terminator.2 = r' := (EStateM.Result.ok.inj hpass).2
    rw [r.terminator_skipTrivia, hplace] at hpassed
    exact ⟨rfl, .inr ⟨d, hslash, hpassed.symm⟩⟩
  case keyword | endOfInput =>
    cases h
    simp
  all_goals cases h

end ReadM

end ReservoirDeck
