import ReservoirDeck.Proofs.Decimal.Difference
import ReservoirDeck.Proofs.Table.Rows

/-!
What filling makes of each entry. Which entries are the nearest given ones is said by rows alone,
and an entry that was left out is made of those two, their abscissae and its own.
-/

namespace ReservoirDeck

namespace Table

variable {R : Type}

/-- Row `a`, at `x`, gives the nearest entry above row `i`. -/
structure IsAbove (cells : List (R × Option R)) (i a : ℕ) (x v : R) : Prop where
  lt : a < i
  given : cells[a]? = some (x, some v)
  nearest : ∀ m, a < m → m < i → cells[m]?.map Prod.snd = some none

/-- Row `b`, at `x`, gives the nearest entry below row `i`. -/
structure IsBelow (cells : List (R × Option R)) (i b : ℕ) (x v : R) : Prop where
  lt : i < b
  given : cells[b]? = some (x, some v)
  nearest : ∀ m, i < m → m < b → cells[m]?.map Prod.snd = some none

variable {cells : List (R × Option R)} {i : ℕ}

theorem nextGiven_eq_none : nextGiven cells = none ↔ ∀ cell ∈ cells, cell.2 = none := by
  simp [nextGiven]

theorem isSome_nextGiven :
    (nextGiven cells).isSome = true ↔ ∃ cell ∈ cells, cell.2.isSome = true := by
  simp [nextGiven, List.findSome?_isSome_iff]

/-- If the rows before leave their entries out, a given entry is the first. -/
theorem nextGiven_of_first {x v : R} {n : ℕ} (hgiven : cells[n]? = some (x, some v))
    (hfirst : ∀ m < n, cells[m]?.map Prod.snd = some none) : nextGiven cells = some (x, v) := by
  induction cells generalizing n with
  | nil => cases hgiven
  | cons cell cells ih =>
    obtain ⟨y, entry⟩ := cell
    cases n with
    | zero =>
      cases hgiven
      rfl
    | succ n =>
      have hnone : entry = none := by simpa using hfirst 0 n.succ_pos
      subst hnone
      exact ih hgiven fun m hm => hfirst (m + 1) (Nat.succ_lt_succ hm)

theorem nextGiven_above {a : ℕ} {x v : R} (h : IsAbove cells i a x v) (hi : i ≤ cells.length) :
    nextGiven (cells.take i).reverse = some (x, v) := by
  have hlen : (cells.take i).length = i := List.length_take_of_le hi
  have hlt := h.lt
  have hentry : ∀ m < i, (cells.take i).reverse[m]? = cells[i - 1 - m]? := fun m hm => by
    rw [List.getElem?_reverse (by omega), hlen, List.getElem?_take_of_lt (by omega)]
  refine nextGiven_of_first (n := i - 1 - a) ?_ fun m hm => ?_
  · rw [hentry _ (by omega), Nat.sub_sub_self (by omega), h.given]
  · rw [hentry m (by omega), h.nearest _ (by omega) (by omega)]

theorem nextGiven_below {b : ℕ} {x v : R} (h : IsBelow cells i b x v) :
    nextGiven (cells.drop (i + 1)) = some (x, v) := by
  have hlt := h.lt
  refine nextGiven_of_first (n := b - (i + 1)) ?_ fun m hm => ?_
  · rw [List.getElem?_drop, Nat.add_sub_cancel' hlt, h.given]
  · rw [List.getElem?_drop, h.nearest _ (by omega) (by omega)]

theorem nextGiven_reverse_take_eq_none (h : ∀ m < i, cells[m]?.map Prod.snd = some none) :
    nextGiven (cells.take i).reverse = none := by
  refine nextGiven_eq_none.mpr fun cell hcell => ?_
  obtain ⟨m, hm, rfl⟩ := List.getElem_of_mem (List.mem_reverse.mp hcell)
  have hm' : m < i ∧ m < cells.length := by simpa using hm
  simpa [List.getElem?_eq_getElem hm'.2] using h m hm'.1

theorem nextGiven_drop_eq_none
    (h : ∀ m, i < m → m < cells.length → cells[m]?.map Prod.snd = some none) :
    nextGiven (cells.drop (i + 1)) = none := by
  refine nextGiven_eq_none.mpr fun cell hcell => ?_
  obtain ⟨m, hm, rfl⟩ := List.getElem_of_mem hcell
  have hm' : i + 1 + m < cells.length := by
    rw [List.length_drop] at hm
    omega
  simpa [List.getElem?_eq_getElem hm'] using h (i + 1 + m) (by omega) hm'

section Columns

variable [Add R] [Sub R] [Mul R] [Div R] [BEq R] {above : Option (R × R)} {column : List R}

theorem getElem?_fillColumn_append {front rest : List (R × Option R)} {x : R} {entry : Option R}
    (h : fillColumn above (front ++ (x, entry) :: rest) = some column) :
    column[front.length]? =
      entry.or (between x ((nextGiven front.reverse).or above) (nextGiven rest)) := by
  induction front generalizing above column with
  | nil =>
    cases entry with
    | some v =>
      obtain ⟨vs, -, rfl⟩ := Option.map_eq_some_iff.mp h
      rfl
    | none =>
      obtain ⟨v, hv, hrest⟩ := Option.bind_eq_some_iff.mp h
      obtain ⟨vs, -, hcolumn⟩ := Option.bind_eq_some_iff.mp hrest
      cases hcolumn
      exact hv.symm
  | cons cell front ih =>
    obtain ⟨y, given⟩ := cell
    have hreverse : nextGiven ((y, given) :: front).reverse =
        (nextGiven front.reverse).or (given.map (y, ·)) := by
      rw [List.reverse_cons, nextGiven, List.findSome?_append]
      cases given <;> rfl
    rw [hreverse, Option.or_assoc]
    cases given with
    | some v =>
      obtain ⟨vs, hvs, rfl⟩ := Option.map_eq_some_iff.mp h
      exact ih hvs
    | none =>
      obtain ⟨v, -, hrest⟩ := Option.bind_eq_some_iff.mp h
      obtain ⟨vs, hvs, hcolumn⟩ := Option.bind_eq_some_iff.mp hrest
      cases hcolumn
      exact ih hvs

/-- An entry that is given is kept. Another one is made of the nearest given entries on both
sides. -/
theorem getElem?_fillColumn {x : R} {entry : Option R} (h : fillColumn above cells = some column)
    (hi : cells[i]? = some (x, entry)) :
    column[i]? = entry.or (between x ((nextGiven (cells.take i).reverse).or above)
      (nextGiven (cells.drop (i + 1)))) := by
  obtain ⟨hlt, hcell⟩ := List.getElem?_eq_some_iff.mp hi
  have hsplit : cells = cells.take i ++ (x, entry) :: cells.drop (i + 1) := by
    rw [← hcell, ← List.drop_eq_getElem_cons hlt, List.take_append_drop]
  have hlen : (cells.take i).length = i := List.length_take_of_le hlt.le
  rw [hsplit] at h
  rw [← getElem?_fillColumn_append h, hlen]

theorem isSome_between {x : R} {below : Option (R × R)} :
    (between x above below).isSome = true ↔ above.isSome = true ∨ below.isSome = true := by
  cases above <;> cases below <;> simp [between]

theorem isSome_fillColumn {cells : List (R × Option R)} : (fillColumn above cells).isSome = true ↔
    above.isSome = true ∨ cells = [] ∨ ∃ cell ∈ cells, cell.2.isSome = true := by
  induction cells generalizing above with
  | nil => simp [fillColumn]
  | cons cell cells ih =>
    obtain ⟨x, entry⟩ := cell
    cases entry with
    | some v => simp [fillColumn, ih]
    | none =>
      have hfill : (fillColumn above ((x, none) :: cells)).isSome = true ↔
          (between x above (nextGiven cells)).isSome = true ∧
            (fillColumn above cells).isSome = true := by
        rw [fillColumn]
        cases between x above (nextGiven cells) <;> cases fillColumn above cells <;> simp
      rw [hfill, isSome_between, isSome_nextGiven, ih]
      simp only [List.mem_cons, exists_eq_or_imp, Option.isSome_none, Bool.false_eq_true, false_or,
        List.cons_ne_nil]
      tauto

end Columns

/-- What filling makes of a column of entries with their abscissae. -/
structure IsFilled (cells : List (Float × Option Float)) (column : List Float) : Prop where
  length : column.length = cells.length
  kept : ∀ (i : ℕ) (x v : Float), cells[i]? = some (x, some v) → column[i]? = some v
  front : ∀ (i b : ℕ) (xb vb : Float), (∀ m ≤ i, cells[m]?.map Prod.snd = some none) →
    IsBelow cells i b xb vb → column[i]? = some vb
  back : ∀ (i a : ℕ) (xa va : Float), i < cells.length →
    (∀ m, i ≤ m → m < cells.length → cells[m]?.map Prod.snd = some none) →
    IsAbove cells i a xa va → column[i]? = some va
  distinct : ∀ (i a b : ℕ) (x xa xb va vb : Float), cells[i]? = some (x, none) →
    IsAbove cells i a xa va → IsBelow cells i b xb vb → (xb != xa) = true →
    (xb - xa == 0) = false ∧ column[i]? = some (va + (x - xa) / (xb - xa) * (vb - va))
  equal : ∀ (i a b : ℕ) (x xa xb va vb : Float), cells[i]? = some (x, none) →
    IsAbove cells i a xa va → IsBelow cells i b xb vb → (xb != xa) = false → column[i]? = some va

theorem isFilled_fillColumn {cells : List (Float × Option Float)} {column : List Float}
    (h : fillColumn none cells = some column) : IsFilled cells column where
  length := fillColumn_length h
  kept i x v hi := getElem?_fillColumn h hi
  front i b xb vb hnone hbelow := by
    obtain ⟨⟨x, entry⟩, hi, hentry⟩ := Option.map_eq_some_iff.mp (hnone i le_rfl)
    obtain rfl : entry = none := hentry
    rw [getElem?_fillColumn h hi, nextGiven_below hbelow,
      nextGiven_reverse_take_eq_none fun m hm => hnone m hm.le]
    rfl
  back i a xa va hlt hnone habove := by
    obtain ⟨⟨x, entry⟩, hi, hentry⟩ := Option.map_eq_some_iff.mp (hnone i le_rfl hlt)
    obtain rfl : entry = none := hentry
    rw [getElem?_fillColumn h hi, nextGiven_above habove hlt.le,
      nextGiven_drop_eq_none fun m hm => hnone m hm.le]
    rfl
  distinct i a b x xa xb va vb hi habove hbelow hne := by
    refine ⟨sub_beq_zero hne, ?_⟩
    rw [getElem?_fillColumn h hi, nextGiven_above habove (List.getElem?_eq_some_iff.mp hi).1.le,
      nextGiven_below hbelow]
    exact congrArg some (if_pos hne)
  equal i a b x xa xb va vb hi habove hbelow heq := by
    rw [getElem?_fillColumn h hi, nextGiven_above habove (List.getElem?_eq_some_iff.mp hi).1.le,
      nextGiven_below hbelow]
    exact congrArg some (if_neg (by simp [heq]))

section Divisors

variable {divide : Float → Float → Float}
  (hdivide : ∀ a b : Float, (b == 0) = false → divide a b = a / b)
include hdivide

theorem between_congr (x : Float) (above below : Option (Float × Float)) :
    @between Float _ _ _ ⟨divide⟩ _ x above below = between x above below := by
  cases above with
  | none => cases below <;> rfl
  | some a =>
    cases below with
    | none => rfl
    | some b =>
      cases hne : b.1 != a.1 with
      | false => simp [between, hne]
      | true =>
        have hquotient := hdivide (x - a.1) (b.1 - a.1) (sub_beq_zero hne)
        simp only [between, hne, if_true]
        exact congrArg (fun q => some (a.2 + q * (b.2 - a.2))) hquotient

theorem fillColumn_congr (above : Option (Float × Float)) (cells : List (Float × Option Float)) :
    @fillColumn Float _ _ _ ⟨divide⟩ _ above cells = fillColumn above cells := by
  induction cells generalizing above with
  | nil => rfl
  | cons cell cells ih =>
    obtain ⟨x, entry⟩ := cell
    cases entry with
    | some v => simp only [fillColumn, ih]
    | none => simp only [fillColumn, between_congr hdivide, ih]

/-- Nothing is divided by zero: what such a division gives is of no account. -/
theorem fill_congr (rows : List (List (Option Float))) :
    @fill Float _ _ _ ⟨divide⟩ _ rows = fill rows := by
  simp only [fill, fillColumn_congr hdivide]

end Divisors

theorem exists_forall₂ {α β : Type} {r : α → β → Prop} {as : List α} :
    (∃ bs, List.Forall₂ r as bs) ↔ ∀ a ∈ as, ∃ b, r a b := by
  induction as with
  | nil => simp
  | cons a as ih =>
    rw [List.forall_mem_cons, ← ih]
    constructor
    · rintro ⟨_, hb | ⟨hb, hbs⟩⟩
      exact ⟨⟨_, hb⟩, _, hbs⟩
    · rintro ⟨⟨b, hb⟩, bs, hbs⟩
      exact ⟨b :: bs, .cons hb hbs⟩

theorem exists_map_some {α β : Type} {f : α → Option β} {as : List α} :
    (∃ bs : List β, as.map f = bs.map some) ↔ ∀ a ∈ as, (f a).isSome = true := by
  simp only [Option.isSome_iff_exists, ← exists_forall₂, ← List.forall₂_eq_eq_eq,
    List.forall₂_map_left_iff, List.forall₂_map_right_iff]

section Tables

/-- The entries of column `c`, given or not. -/
def entriesAt {R : Type} (rows : List (List (Option R))) (c : ℕ) : List (Option R) :=
  rows.map fun row => row[c]?.join

theorem mem_entriesAt {R : Type} {rows : List (List (Option R))} {c : ℕ} :
    (∃ entry ∈ entriesAt rows c, entry.isSome = true) ↔
      ∃ row ∈ rows, row[c]?.join.isSome = true := by
  simp only [entriesAt, List.mem_map, exists_exists_and_eq_and]

variable {R : Type} [Add R] [Sub R] [Mul R] [Div R] [BEq R] {rows : List (List (Option R))} {w : ℕ}

theorem exists_fillColumn_zip {xs : List R} {entries : List (Option R)}
    (hlen : xs.length = entries.length) (hne : entries ≠ []) :
    (∃ column, fillColumn none (xs.zip entries) = some column) ↔
      ∃ entry ∈ entries, entry.isSome = true := by
  rw [← Option.isSome_iff_exists, isSome_fillColumn]
  have hsnd : (xs.zip entries).map Prod.snd = entries := List.map_snd_zip hlen.ge
  have hzip : xs.zip entries ≠ [] := fun h => hne (by rw [← hsnd, h, List.map_nil])
  conv_rhs => rw [← hsnd]
  simp only [List.mem_map, exists_exists_and_eq_and, Option.isSome_none, Bool.false_eq_true, hzip,
    false_or]

/-- Filling needs the first entry of each row, and one entry of each column. -/
theorem exists_fill (hne : rows ≠ []) : (∃ columns, fill rows = .ok columns) ↔
    (∀ row ∈ rows, row.head?.join.isSome = true) ∧
      ∀ c ∈ List.range' 1 ((rows.head?.map List.length).getD 0 - 1),
        ∃ row ∈ rows, row[c]?.join.isSome = true := by
  have hcolumn : ∀ (xs : List R) (c : ℕ), rows.map (·.head?.join) = xs.map some →
      ((∃ column, fillColumn none (xs.zip (entriesAt rows c)) = some column) ↔
        ∃ row ∈ rows, row[c]?.join.isSome = true) := fun xs c hxs => by
    rw [← mem_entriesAt]
    exact exists_fillColumn_zip (by simpa [entriesAt] using (congrArg List.length hxs).symm)
      (by simpa [entriesAt] using hne)
  rw [← exists_map_some]
  constructor
  · rintro ⟨columns, h⟩
    obtain ⟨xs, rest, -, hxs, hrest⟩ := fill_eq_ok.mp h
    exact ⟨⟨xs, hxs⟩, fun c hc => (hcolumn xs c hxs).mp (exists_forall₂.mp ⟨rest, hrest⟩ c hc)⟩
  · rintro ⟨⟨xs, hxs⟩, hgiven⟩
    obtain ⟨rest, hrest⟩ := exists_forall₂.mpr fun c hc => (hcolumn xs c hxs).mpr (hgiven c hc)
    exact ⟨xs :: rest, fill_eq_ok.mpr ⟨xs, rest, rfl, hxs, hrest⟩⟩

theorem fillColumn_of_fill {xs : List R} {columns : List (List R)} {c : ℕ} {column : List R}
    (h : fill rows = .ok columns) (hxs : rows.map (·.head?.join) = xs.map some)
    (hc : columns[c]? = some column) :
    fillColumn none (xs.zip (entriesAt rows c)) = some column := by
  obtain ⟨xs', rest, rfl, hxs', hrest⟩ := fill_eq_ok.mp h
  obtain rfl : xs' = xs :=
    List.map_injective_iff.mpr (Option.some_injective R) (hxs'.symm.trans hxs)
  cases c with
  | zero =>
    obtain rfl : xs' = column := Option.some.inj hc
    simp only [entriesAt, ← List.head?_eq_getElem?, hxs]
    exact fillColumn_given none rfl
  | succ c =>
    obtain ⟨hlt, rfl⟩ := List.getElem?_eq_some_iff.mp hc
    have hlt' : c < rest.length := Nat.lt_of_succ_lt_succ hlt
    have hcolumn := hrest.get (i := c) (by rwa [hrest.length_eq]) hlt'
    simpa [entriesAt, Nat.add_comm 1 c] using hcolumn

section Width

variable (hne : rows ≠ []) (hwidth : ∀ row ∈ rows, row.length = w)
include hne hwidth

omit [Add R] [Sub R] [Mul R] [Div R] [BEq R] in
theorem head_length : (rows.head?.map List.length).getD 0 = w := by
  obtain ⟨row, rest, rfl⟩ := List.exists_cons_of_ne_nil hne
  exact hwidth row List.mem_cons_self

theorem length_of_fill {columns : List (List R)} (hw : 1 ≤ w) (h : fill rows = .ok columns) :
    columns.length = w := by
  rw [(fill_shape h).1, head_length hne hwidth, Nat.sub_add_cancel hw]

theorem exists_fill_iff (hw : 1 ≤ w) : (∃ columns, fill rows = .ok columns) ↔
    (∀ row ∈ rows, row[0]? ≠ some none) ∧ ¬ ∃ c < w, ∀ row ∈ rows, row[c]? = some none := by
  have hentry : ∀ c < w, ∀ row ∈ rows, (row[c]?.join.isSome = true ↔ row[c]? ≠ some none) :=
    fun c hc row hrow => by
      rw [List.getElem?_eq_getElem (by rwa [hwidth row hrow])]
      simp [Option.isSome_iff_ne_none]
  rw [exists_fill hne, head_length hne hwidth]
  have hfirst : (∀ row ∈ rows, row.head?.join.isSome = true) ↔ ∀ row ∈ rows, row[0]? ≠ some none :=
    forall₂_congr fun row hrow => by rw [List.head?_eq_getElem?, hentry 0 hw row hrow]
  rw [hfirst]
  refine and_congr_right fun hgiven => ?_
  push Not
  constructor
  · intro hcolumns c hc
    rcases Nat.eq_zero_or_pos c with rfl | hpos
    · obtain ⟨row, hrow⟩ := List.exists_mem_of_ne_nil rows hne
      exact ⟨row, hrow, hgiven row hrow⟩
    · obtain ⟨row, hrow, hsome⟩ := hcolumns c (List.mem_range'_1.mpr ⟨hpos, by omega⟩)
      exact ⟨row, hrow, (hentry c hc row hrow).mp hsome⟩
  · intro hcolumns c hc
    have hc' : c < w := by
      have h := List.mem_range'_1.mp hc
      omega
    obtain ⟨row, hrow, hsome⟩ := hcolumns c hc'
    exact ⟨row, hrow, (hentry c hc' row hrow).mpr hsome⟩

end Width

end Tables

/-- The columns are as many as the entries of a row, and each is filled at the first of them. -/
theorem isFilled_fill {rows : List (List (Option Float))} {columns : List (List Float)} {w : ℕ}
    (hne : rows ≠ []) (hwidth : ∀ row ∈ rows, row.length = w) (hw : 1 ≤ w)
    (h : fill rows = .ok columns) :
    columns.length = w ∧ ∃ xs, columns.head? = some xs ∧
      ∀ (c : ℕ) (column : List Float), columns[c]? = some column →
        column.length = rows.length ∧
          IsFilled (xs.zip (entriesAt rows c)) column := by
  obtain ⟨xs, rest, hcolumns, hxs, -⟩ := fill_eq_ok.mp h
  exact ⟨length_of_fill hne hwidth hw h, xs, by rw [hcolumns, List.head?_cons], fun c column hc =>
    ⟨(fill_shape h).2 column (List.mem_of_getElem? hc),
      isFilled_fillColumn (fillColumn_of_fill h hxs hc)⟩⟩

theorem column_of_given {given columns : List (List Float)} {w c : ℕ} {column : List Float}
    (hne : given ≠ []) (hw : 1 ≤ w) (hwidth : ∀ row ∈ given, row.length = w)
    (h : fill (given.map (·.map some)) = .ok columns) (hc : columns[c]? = some column) :
    given.map (·[c]?) = column.map some := by
  obtain ⟨hlen, xs, hxs, hcolumns⟩ := isFilled_fill (by simpa using hne)
    (by simpa using hwidth) hw h
  rw [List.head?_eq_getElem?] at hxs
  have hxslen : xs.length = given.length := by simpa using (hcolumns 0 xs hxs).1
  obtain ⟨hheight, hfilled⟩ := hcolumns c column hc
  rw [List.length_map] at hheight
  have hcw : c < w := hlen ▸ (List.getElem?_eq_some_iff.mp hc).1
  refine List.ext_getElem (by simp [hheight]) fun i hi _ => ?_
  rw [List.length_map] at hi
  have hrow : c < given[i].length := by rwa [hwidth given[i] (List.getElem_mem hi)]
  have hcell : (xs.zip (entriesAt (given.map (·.map some)) c))[i]? =
      some (xs[i], some given[i][c]) := by
    rw [List.getElem?_eq_getElem (by simp [entriesAt, hxslen, hi])]
    simp [entriesAt, List.getElem?_eq_getElem hrow]
  obtain ⟨_, hentry⟩ := List.getElem?_eq_some_iff.mp (hfilled.kept i _ _ hcell)
  simp [List.getElem?_eq_getElem hrow, hentry]

/-- Filling rows of one width: when it succeeds, and what each column then is. Nothing is divided by
zero, so that another division that agrees with this one elsewhere gives the same. -/
theorem fill_spec {rows : List (List (Option Float))} {w : ℕ} (hne : rows ≠ []) (hw : 1 ≤ w)
    (hwidth : ∀ row ∈ rows, row.length = w) :
    ((∃ columns, fill rows = .ok columns) ↔
      (∀ row ∈ rows, row[0]? ≠ some none) ∧ ¬ ∃ c < w, ∀ row ∈ rows, row[c]? = some none) ∧
    (∀ columns, fill rows = .ok columns → columns.length = w ∧
      ∃ xs, columns.head? = some xs ∧ ∀ (c : ℕ) (column : List Float), columns[c]? = some column →
        column.length = rows.length ∧
          IsFilled (xs.zip (entriesAt rows c)) column) ∧
    (∀ divide : Float → Float → Float, (∀ a b : Float, (b == 0) = false → divide a b = a / b) →
      @fill Float _ _ _ ⟨divide⟩ _ rows = fill rows) ∧
    ∀ given : List (List Float), rows = given.map (·.map some) →
      ∃ columns, fill rows = .ok columns ∧ columns.length = w ∧
        ∀ (c : ℕ) (column : List Float), columns[c]? = some column →
          given.map (·[c]?) = column.map some := by
  refine ⟨exists_fill_iff hne hwidth hw, fun _ => isFilled_fill hne hwidth hw,
    fun _ hdivide => fill_congr hdivide rows, ?_⟩
  rintro given rfl
  have hne' : given ≠ [] := by simpa using hne
  have hwidth' : ∀ row ∈ given, row.length = w := by simpa using hwidth
  have hfirst : ∀ row ∈ given.map (·.map some), row[0]? ≠ some none := by simp
  have hcolumn : ¬ ∃ c < w, ∀ row ∈ given.map (·.map some), row[c]? = some none := by
    rintro ⟨c, -, hnone⟩
    obtain ⟨row, hrow⟩ := List.exists_mem_of_ne_nil given hne'
    simpa using hnone _ (List.mem_map_of_mem hrow)
  obtain ⟨columns, h⟩ := (exists_fill_iff hne hwidth hw).mpr ⟨hfirst, hcolumn⟩
  exact ⟨columns, h, (isFilled_fill hne hwidth hw h).1,
    fun c column hc => column_of_given hne' hw hwidth' h hc⟩

/-- Three rows with a gap in the middle of one column and gaps at both ends of the other. -/
theorem fill_spec_gaps : ∃ columns,
    fill [[some (0 : Float), some 4, none], [some 1, none, some 7], [some 2, some 8, none]] =
      .ok columns ∧
    columns.length = 3 := by
  obtain ⟨hok, hcolumns, -, -⟩ := fill_spec (w := 3)
    (List.cons_ne_nil [some (0 : Float), some 4, none]
      [[some 1, none, some 7], [some 2, some 8, none]])
    (by decide) (by simp)
  obtain ⟨columns, h⟩ := hok.mpr ⟨by simp, by
    rintro ⟨c, hc, hnone⟩
    obtain rfl | rfl | rfl : c = 0 ∨ c = 1 ∨ c = 2 := by omega
    all_goals simp at hnone⟩
  exact ⟨columns, h, (hcolumns columns h).1⟩

example :
    (fill [[some (0 : Float), some 4, none], [some 1, none, some 7],
      [some 2, some 8, none]]).toOption = some [[0, 1, 2], [4, 6, 8], [7, 7, 7]] := by
  decide +kernel

end Table

end ReservoirDeck
