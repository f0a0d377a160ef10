import ReservoirDeck.Change
import ReservoirDeck.Slots

/-!
Tables of live oil and wet gas. A row is one value followed by triples; it is a record of its own,
and an empty record closes the region.
-/

namespace ReservoirDeck

/-- `regions` lists the rows of each region. -/
structure PvtTable (R : Type) where
  regions : List (List (List R))
  deriving Repr, BEq, DecidableEq

namespace PvtTable

variable {R : Type}

def scaleTriples [Mul R] (a b c : R) : List R → List R
  | x :: y :: z :: rest => x * a :: y * b :: z * c :: scaleTriples a b c rest
  | [x, y] => [x * a, y * b]
  | [x] => [x * a]
  | [] => []

/-- Multiplies the leading value of a row, which panics if there is none, and the triples after it. -/
def scaleRow {ε : Type} [Mul R] (lead a b c : R) : Change ε (List R)
  | [] => ([], some .panic)
  | x :: triples => (x * lead :: scaleTriples a b c triples, none)

/-- Multiplies one row after another. -/
def scaleInPlace {ε : Type} [Mul R] (lead a b c : R) : Change ε (PvtTable R) := fun t =>
  let (regions, fault) := Change.each (Change.each (scaleRow lead a b c)) t.regions
  (⟨regions⟩, fault)

end PvtTable

namespace ReadM

/-- What was read of a table: the regions that are closed, and the rows of the open one. -/
structure OpenPvtTable where
  closed : List (List (List Float))
  rows : List (List Float)

def pvtStep (t : OpenPvtTable) : ReadM (OpenPvtTable ⊕ List (List (List Float))) := do
  match ← lookahead with
  | .data =>
    let row ← readValues Float
    if row.length < 4 ∨ (row.length - 1) % 3 ≠ 0 then malformed (.unevenRow row.length)
    else return .inl { t with rows := t.rows ++ [row] }
  | .terminator =>
    discard terminator
    if t.rows.isEmpty then malformed .emptyRegion
    else return .inl ⟨t.closed ++ [t.rows], []⟩
  | .keyword | .endOfInput =>
    return .inr (if t.rows.isEmpty then t.closed else t.closed ++ [t.rows])
  | _ => malformed .tableRowExpected

/-- Rows of values and triples, up to the next keyword. -/
def pvtTable : ReadM (PvtTable Float) := do
  let regions ← iterate pvtStep ⟨[], []⟩
  if regions.isEmpty then malformed .noTableRows else return ⟨regions⟩

end ReadM

end ReservoirDeck
