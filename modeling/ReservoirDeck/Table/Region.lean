import ReservoirDeck.Change
import ReservoirDeck.Slots
import ReservoirDeck.Table.Fill

/-!
Tables of a fixed width, one per region. Regions are stored column by column.
-/

namespace ReservoirDeck

/-- `regions` lists the columns of each region, and each column lists its entries. -/
structure RegionTable (R : Type) where
  columns : Nat
  regions : List (List (List R))
  deriving Repr, BEq, DecidableEq

namespace RegionTable

variable {R : Type}

/-- Every region has `columns` columns of one length. -/
def isRegular (columns : Nat) (regions : List (List (List R))) : Bool :=
  regions.all fun region =>
    region.length == columns && region.all fun column =>
      column.length == (region.head?.map List.length).getD 0

def ofRegions? (columns : Nat) (regions : List (List (List R))) : Option (RegionTable R) :=
  if isRegular columns regions then some ⟨columns, regions⟩ else none

def rowCount (region : List (List R)) : Nat :=
  (region.head?.map List.length).getD 0

def rows (region : List (List R)) : List (List R) :=
  region.foldr (List.zipWith List.cons) (List.replicate (rowCount region) [])

/-- The regions row by row. -/
def toRows (t : RegionTable R) : List (List (List R)) :=
  t.regions.map rows

/-- Multiplies a column of one region after another. A region without the column panics. -/
def scaleInPlace {ε : Type} [Mul R] (column : Nat) (factor : R) : Change ε (RegionTable R) :=
  fun t =>
    let (regions, fault) :=
      Change.each (Change.atIndex column (Change.always (·.map (· * factor)))) t.regions
    ({ t with regions }, fault)

def firstOf (t : RegionTable R) (column : Nat) : List (Option R) :=
  t.regions.map fun region => region[column]?.bind List.head?

def lastOf (t : RegionTable R) (column : Nat) : List (Option R) :=
  t.regions.map fun region => region[column]?.bind List.getLast?

end RegionTable

namespace ReadM

/-- Full columns of rows that were read. -/
def fillRows (rows : List (List (Option Float))) : ReadM (List (List Float)) :=
  match Table.fill rows with
  | .ok columns => return columns
  | .error defect => malformed defect

/-- One row, and whether it was as wide as the table. A row that a slash cuts short ends its
region. -/
def tableRow (columns : Nat) : ReadM (List (Option Float) × Nat) := fun r =>
  let (run, r') := fillSlots (some : Float → Option Float) (List.replicate columns none) r
  match run.stop with
  | .failed e => .error e r'
  | _ => .ok (run.slots, run.visited) r'

/-- What was read of a table: the regions that are closed, and the rows of the open one. -/
structure OpenTable where
  closed : List (List (List Float))
  rows : List (List (Option Float))

def OpenTable.close (t : OpenTable) : ReadM OpenTable := do
  return ⟨t.closed ++ [← fillRows t.rows], []⟩

/-- Reads up to the end of a row or region of a table. -/
def tableStep (columns : Nat) (t : OpenTable) : ReadM (OpenTable ⊕ List (List (List Float))) := do
  match ← lookahead with
  | .data =>
    let (row, visited) ← tableRow columns
    let t : OpenTable := if visited = 0 then t else { t with rows := t.rows ++ [row] }
    if visited < columns then return .inl (← t.close) else return .inl t
  | .keyword | .endOfInput =>
    if t.rows.isEmpty then return .inr t.closed else return .inr (← t.close).closed
  | .terminator =>
    discard terminator
    if t.rows.isEmpty then malformed .emptyRegion else return .inl (← t.close)
  | _ => malformed .tableRowExpected

/-- Rows of a table, in regions that slashes end. The table ends at the next keyword. -/
def regionTable (columns : Nat) : ReadM (RegionTable Float) := do
  let regions ← iterate (tableStep columns) ⟨[], []⟩
  if regions.isEmpty then malformed .noTableRows else return ⟨columns, regions⟩

end ReadM

end ReservoirDeck
