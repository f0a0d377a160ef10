import ReservoirDeck.Keyword.Gregorian
import ReservoirDeck.Proofs.Rows.Bodies

/-!
Rows that are complete. Whether a slash follows such a row makes no difference: with it the row ends
itself, and without it the row ends because its fields do.
-/

namespace ReservoirDeck

open Item (expand)

namespace Item

variable {τ : Type} {items : List (Item τ)} {ns : List Nat} {ws : List String}
  {row : List String × Bool}

theorem length_expand_of_single (h : ∀ i ∈ items, i.entries.length = 1) :
    (expand items).length = items.length := by
  induction items with
  | nil => rfl
  | cons i items ih =>
    obtain ⟨hi, hitems⟩ := List.forall_mem_cons.mp h
    rw [expand_cons, List.length_append, hi, ih hitems, List.length_cons, Nat.add_comm]

theorem Fits.of_single (h : ∀ i ∈ items, i.entries.length = 1) (hlen : items.length ≤ ns.sum) :
    Fits ns items := by
  induction ns generalizing items with
  | nil =>
    obtain rfl : items = [] := List.length_eq_zero_iff.mp (Nat.le_zero.mp hlen)
    exact .nil
  | cons n ns ih =>
    rw [List.sum_cons] at hlen
    rcases Nat.lt_or_ge items.length n with hshort | hfull
    · exact .short (by rwa [length_expand_of_single h])
    · have hfront : (expand (items.take n)).length = n := by
        rw [length_expand_of_single fun i hi => h i (List.mem_of_mem_take hi),
          List.length_take_of_le hfull]
      have hrest : (items.drop n).length ≤ ns.sum := by
        rw [List.length_drop]
        omega
      rw [← List.take_append_drop n items]
      exact .full hfront (ih (fun i hi => h i (List.mem_of_mem_drop hi)) hrest)

/-- A word that is an item for one field: a number, or a marker that leaves the field out. -/
def IsSingle (w : String) : Prop :=
  ∃ i : Item Float, ofText? w = some i ∧ i.entries.length = 1

theorem length_of_mem_ofTexts (h : ∀ w ∈ ws, IsSingle w) :
    ∀ i ∈ ofTexts ws, i.entries.length = 1 := by
  intro i hi
  obtain ⟨w, hw, hread⟩ := List.mem_filterMap.mp hi
  obtain ⟨i', hread', hlen⟩ := h w hw
  cases hread.symm.trans hread'
  exact hlen

theorem length_ofTexts (h : ∀ w ∈ ws, IsSingle w) : (ofTexts ws).length = ws.length := by
  induction ws with
  | nil => rfl
  | cons w ws ih =>
    obtain ⟨⟨i, hi, -⟩, hws⟩ := List.forall_mem_cons.mp h
    rw [ofTexts, List.filterMap_cons_some hi, List.length_cons, List.length_cons]
    exact congrArg (· + 1) (ih hws)

/-- A row of such words may be shorter than its fields if a slash ends it. -/
theorem FitsRow.of_single (h : ∀ w ∈ row.1, IsSingle w) (hlen : row.1.length ≤ ns.sum)
    (hends : row.2 = true ∨ row.1.length = ns.sum) : FitsRow ns row where
  items w hw := by
    obtain ⟨i, hi, -⟩ := h w hw
    exact Option.isSome_iff_exists.mpr ⟨i, hi⟩
  fits := .of_single (length_of_mem_ofTexts h) (by rwa [length_ofTexts h])
  ends := by rwa [length_expand_of_single (length_of_mem_ofTexts h), length_ofTexts h]

end Item

/-- Whichever rows are followed by a slash, if each gives all its fields, the answer is the same. -/
theorem Keyword.read_rows_slashes [Calendar] {k : Kind} {fields : List Field} (hlayout : k.layout = .rows fields)
    {rows : List (List String)} (hwhole : ∀ row ∈ rows, row.length = (Record.runs fields).sum)
    (hsingle : ∀ row ∈ rows, ∀ w ∈ row, Item.IsSingle w) {slashes slashes' : List Bool}
    (hlen : slashes.length = rows.length) (hlen' : slashes'.length = rows.length)
    {r r' : DeckReader} (h : r.HasRows (rows.zip slashes)) (h' : r'.HasRows (rows.zip slashes')) :
    Run.answer (Keyword.read k.name r) = Run.answer (Keyword.read k.name r') := by
  have hrows : ∀ {slashes : List Bool}, ∀ row ∈ rows.zip slashes,
      Item.FitsRow (Record.runs fields) row := by
    intro slashes row hmem
    have hrow := (List.of_mem_zip hmem).1
    exact .of_single (hsingle _ hrow) (hwhole _ hrow).le (.inr (hwhole _ hrow))
  have hentries : ∀ {slashes : List Bool}, slashes.length = rows.length →
      rowEntries (rows.zip slashes) = rows.map fun row => expand (Item.ofTexts row) := by
    intro slashes hlen
    conv_rhs => rw [← List.map_fst_zip hlen.ge]
    rw [List.map_map]
    rfl
  obtain ⟨typed, hanswer⟩ := answer_entries hlayout
  rw [hanswer hrows h, hanswer hrows h', hentries hlen, hentries hlen']

/-- Two rows of which the first is followed by a slash, or the second, with more on that line. -/
theorem Keyword.read_rows_slashes_tlmixpar :
    Run.answer (Keyword.read Kind.tlmixpar.name (.ofString "1 1* / x\n0.5 2\n")) =
      Run.answer (Keyword.read Kind.tlmixpar.name (.ofString "1 1* -- y\n0.5 2 /\n")) := by
  have hone : Item.IsSingle "1" := ⟨.value 1, rfl, rfl⟩
  have hmarker : Item.IsSingle "1*" := ⟨.defaults 1, rfl, rfl⟩
  have hhalf : Item.IsSingle "0.5" := ⟨.value 0.5, rfl, rfl⟩
  have htwo : Item.IsSingle "2" := ⟨.value 2, rfl, rfl⟩
  have h : (DeckReader.ofString "1 1* / x\n0.5 2\n").HasRows
      ([["1", "1*"], ["0.5", "2"]].zip [true, false]) :=
    ⟨_, .cons (.cons rfl rfl rfl (.cons rfl rfl rfl (.nil _))) rfl
      (.cons (.cons rfl rfl rfl (.cons rfl rfl rfl (.nil _))) rfl (.nil _)), .inr rfl⟩
  have h' : (DeckReader.ofString "1 1* -- y\n0.5 2 /\n").HasRows
      ([["1", "1*"], ["0.5", "2"]].zip [false, true]) :=
    ⟨_, .cons (.cons rfl rfl rfl (.cons rfl rfl rfl (.nil _))) rfl
      (.cons (.cons rfl rfl rfl (.cons rfl rfl rfl (.nil _))) rfl (.nil _)), .inr rfl⟩
  exact read_rows_slashes (k := .tlmixpar) rfl (by decide) (by simp [hone, hmarker, hhalf, htwo])
    rfl rfl h h'

end ReservoirDeck
