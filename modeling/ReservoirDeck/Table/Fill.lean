import ReservoirDeck.Error

/-!
Filling the entries that the rows of a table leave out. An entry is interpolated against the first
column between the nearest given entries above and below it, or copied from the only one.
-/

namespace ReservoirDeck

namespace Table

variable {R : Type}

/-- The first given entry, with its abscissa. -/
def nextGiven (column : List (R × Option R)) : Option (R × R) :=
  column.findSome? fun (x, entry) => entry.map (x, ·)

/-- The entry at `x` between its nearest given entries. -/
def between [Add R] [Sub R] [Mul R] [Div R] [BEq R] (x : R) :
    Option (R × R) → Option (R × R) → Option R
  | some (xa, a), some (xb, b) =>
    some (if xb != xa then a + (x - xa) / (xb - xa) * (b - a) else a)
  | some (_, a), none => some a
  | none, some (_, b) => some b
  | none, none => none

/-- The entries of a column with their abscissae, all of them filled; `above` is the last entry
given before them. Fails if there is no given entry at all. -/
def fillColumn [Add R] [Sub R] [Mul R] [Div R] [BEq R] (above : Option (R × R)) :
    List (R × Option R) → Option (List R)
  | [] => some []
  | (x, some v) :: rest => (fillColumn (some (x, v)) rest).map (v :: ·)
  | (x, none) :: rest => do
    let v ← between x above (nextGiven rest)
    let vs ← fillColumn above rest
    return v :: vs

/-- The first entry of every row, which may not be left out; rows are counted from `row`. -/
def abscissae (row : Nat) : List (List (Option R)) → Except Defect (List R)
  | [] => .ok []
  | entries :: rows =>
    match entries.head?.join with
    | some x => (abscissae (row + 1) rows).map (x :: ·)
    | none => .error (.firstEntryDefaulted row)

/-- Full columns of rows that may leave entries out. -/
def fill [Add R] [Sub R] [Mul R] [Div R] [BEq R] (rows : List (List (Option R))) :
    Except Defect (List (List R)) := do
  let xs ← abscissae 1 rows
  let width := (rows.head?.map List.length).getD 0
  let columns ← (List.range' 1 (width - 1)).mapM fun c =>
    let entries := rows.map fun row => row[c]?.join
    match fillColumn none (xs.zip entries) with
    | some column => .ok column
    | none => .error (.columnDefaulted (c + 1))
  return xs :: columns

end Table

end ReservoirDeck
