import Mathlib.Data.List.Forall2
import ReservoirDeck.Table.Region

/-!
Columns that are filled, and rows without gaps: a column keeps its length, and rows that leave
nothing out come back as their own columns.
-/

namespace ReservoirDeck

namespace Table

theorem mapM_eq_ok {ε α β : Type} {f : α → Except ε β} {as : List α} {bs : List β} :
    as.mapM f = .ok bs ↔ List.Forall₂ (fun a b => f a = .ok b) as bs := by
  induction as generalizing bs with
  | nil => cases bs <;> simp [pure, Except.pure]
  | cons a as ih =>
    rw [List.mapM_cons]
    cases ha : f a with
    | error e => cases bs <;> simp [ha, bind, Except.bind]
    | ok b =>
      cases has : as.mapM f <;> cases bs <;>
        simp [bind, Except.bind, pure, Except.pure, ← ih, ha, has]

variable {R : Type}

section Columns

variable [Add R] [Sub R] [Mul R] [Div R] [BEq R]

theorem fillColumn_given (above : Option (R × R)) {xs vs : List R} (h : xs.length = vs.length) :
    fillColumn above (xs.zip (vs.map some)) = some vs := by
  induction vs generalizing xs above with
  | nil => simp [fillColumn]
  | cons v vs ih =>
    cases xs with
    | nil => cases h
    | cons x xs => simp [fillColumn, ih (some (x, v)) (Nat.succ.inj h)]

theorem fillColumn_length {above : Option (R × R)} {entries : List (R × Option R)} {vs : List R}
    (h : fillColumn above entries = some vs) : vs.length = entries.length := by
  induction entries generalizing above vs with
  | nil =>
    cases h
    rfl
  | cons entry entries ih =>
    obtain ⟨x, entry⟩ := entry
    cases entry with
    | some v =>
      obtain ⟨ws, hws, rfl⟩ := Option.map_eq_some_iff.mp h
      simp [ih hws]
    | none =>
      simp only [fillColumn, Option.bind_eq_bind, Option.bind_eq_some_iff, Option.pure_def,
        Option.some.injEq] at h
      obtain ⟨v, -, ws, hws, rfl⟩ := h
      simp [ih hws]

end Columns

theorem abscissae_eq_ok {row : Nat} {rows : List (List (Option R))} {xs : List R} :
    abscissae row rows = .ok xs ↔ rows.map (·.head?.join) = xs.map some := by
  induction rows generalizing row xs with
  | nil => cases xs <;> simp [abscissae]
  | cons entries rows ih =>
    cases hx : entries.head?.join with
    | none => cases xs <;> simp [abscissae, hx]
    | some x =>
      have hrest := fun xs => @ih (row + 1) xs
      cases hxs : abscissae (row + 1) rows <;> cases xs <;>
        simp [abscissae, hx, hxs, Except.map, ← hrest]

variable [Add R] [Sub R] [Mul R] [Div R] [BEq R] {rows : List (List (Option R))}
  {columns : List (List R)}

theorem fill_eq_ok : fill rows = .ok columns ↔
    ∃ xs rest, columns = xs :: rest ∧ rows.map (·.head?.join) = xs.map some ∧
      List.Forall₂
        (fun c column => fillColumn none (xs.zip (rows.map fun row => row[c]?.join)) = some column)
        (List.range' 1 ((rows.head?.map List.length).getD 0 - 1)) rest := by
  constructor
  · intro h
    simp only [fill, bind, Except.bind] at h
    split at h
    · cases h
    · next xs hxs =>
      split at h
      · cases h
      · next rest hrest =>
        cases h
        refine ⟨xs, rest, rfl, abscissae_eq_ok.mp hxs, ?_⟩
        refine (mapM_eq_ok.mp hrest).imp fun c column hcolumn => ?_
        split at hcolumn
        · next filled =>
          cases hcolumn
          exact filled
        · cases hcolumn
  · rintro ⟨xs, rest, rfl, hxs, hrest⟩
    simp only [fill, bind, Except.bind, abscissae_eq_ok.mpr hxs]
    rw [mapM_eq_ok.mpr (hrest.imp fun c column hcolumn => ?_)]
    · rfl
    · simp only [hcolumn]

theorem fill_given {xs : List R} (hrows : rows ≠ [])
    (hwidth : ∀ row ∈ rows, row.length = columns.length + 1)
    (hxs : rows.map (·.head?.join) = xs.map some)
    (hcolumn : ∀ (j : Nat) (hj : j < columns.length),
      rows.map (fun row => row[j + 1]?.join) = columns[j].map some) :
    fill rows = .ok (xs :: columns) := by
  have hhead : (rows.head?.map List.length).getD 0 - 1 = columns.length := by
    obtain ⟨row, rows, rfl⟩ := List.exists_cons_of_ne_nil hrows
    simp [hwidth row List.mem_cons_self]
  refine fill_eq_ok.mpr ⟨xs, columns, rfl, hxs, ?_⟩
  rw [hhead, List.forall₂_iff_get]
  refine ⟨by simp, fun j _ hj => ?_⟩
  have hlen : xs.length = columns[j].length := by
    have h := congrArg List.length (hcolumn j hj)
    have h₀ := congrArg List.length hxs
    simp only [List.length_map] at h h₀
    omega
  simp only [List.get_eq_getElem, List.getElem_range', Nat.one_mul]
  rw [Nat.add_comm 1 j, hcolumn j hj]
  exact fillColumn_given none hlen

/-- Filled columns are as many as the entries of a row, and each has one entry for each row. -/
theorem fill_shape (h : fill rows = .ok columns) :
    columns.length = (rows.head?.map List.length).getD 0 - 1 + 1 ∧
      ∀ column ∈ columns, column.length = rows.length := by
  obtain ⟨xs, rest, rfl, hxs, hrest⟩ := fill_eq_ok.mp h
  have hlen : xs.length = rows.length := by
    simpa using (congrArg List.length hxs).symm
  refine ⟨by simp [← hrest.length_eq], fun column hmem => ?_⟩
  rcases List.mem_cons.mp hmem with rfl | hmem
  · exact hlen
  · obtain ⟨i, hi, rfl⟩ := List.getElem_of_mem hmem
    have hcolumn := hrest.get (i := i) (by rwa [hrest.length_eq]) hi
    have h := fillColumn_length hcolumn
    simpa [hlen] using h

end Table

end ReservoirDeck
