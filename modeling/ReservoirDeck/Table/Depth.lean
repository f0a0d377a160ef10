import ReservoirDeck.Record.Reader
import ReservoirDeck.Table.Region
import ReservoirDeck.Writer

/-!
End points against depth. Rows of the deck have more columns than are supported; the others have
to be left out. An end point that a whole region leaves out is not scaled there.
-/

namespace ReservoirDeck

/-- The width of a deck row, and the columns of it that are kept. The first is depth. -/
structure DepthLayout where
  width : Nat
  kept : List Nat
  deriving Repr, DecidableEq

/-- The kept columns, and for each but the first whether the first row of some region sets it. -/
structure EndpointTable (R : Type) where
  table : RegionTable R
  mask : List Bool
  deriving Repr, BEq

/-- Value of an end point that is not scaled. -/
def unsetEndpoint : Float := -1

namespace DepthLayout

/-- The first column of a row, from `column` on, that is given but not supported. -/
def unsupported? (layout : DepthLayout) (column : Nat) : List (Option Float) → Option Nat
  | [] => none
  | entry :: row =>
    if entry.isSome && !layout.kept.contains column then some column
    else layout.unsupported? (column + 1) row

/-- The tokens of a row of kept columns, from `column` on. -/
def spread (layout : DepthLayout) (column : Nat) : (count : Nat) → List Float → List String
  | 0, _ => []
  | count + 1, row =>
    if layout.kept.contains column then
      match row with
      | x :: rest => deckText x :: layout.spread (column + 1) count rest
      | [] => "1*" :: layout.spread (column + 1) count []
    else "1*" :: layout.spread (column + 1) count row

end DepthLayout

namespace ReadM

def depthRow (layout : DepthLayout) : RecordM (List (Option Float)) := do
  let (visited, row) ← RecordM.optionalNumbers Float layout.width
  if visited < layout.width then RecordM.malformed (.shortRow visited layout.width)
  else if row.head?.join.isNone then RecordM.malformed .depthDefaulted
  else
    match layout.unsupported? 0 row with
    | some column => RecordM.malformed (.unsupportedColumn (column + 1))
    | none => return row

/-- A kept column of a region; filled against depth if the region gives an entry of it. -/
def depthColumn (rows : List (List (Option Float))) (column : Nat) : ReadM (List Float) := do
  let entries := rows.map fun row => row[column]?.join
  if 0 < column && entries.all Option.isNone then
    return List.replicate rows.length unsetEndpoint
  else
    let columns ← fillRows (rows.map fun row => [row.head?.join, row[column]?.join])
    return columns.getLast?.getD []

def closeDepthRegion (layout : DepthLayout) (t : OpenTable) : ReadM OpenTable := do
  if t.rows.length < 2 then malformed .singleRowRegion
  else return ⟨t.closed ++ [← layout.kept.mapM (depthColumn t.rows)], []⟩

/-- Reads one row, and the slash that may close its region. A slash right after that ends the
table. -/
def depthStep (layout : DepthLayout) (t : OpenTable) : ReadM (OpenTable ⊕ OpenTable) := do
  match ← lookahead with
  | .data =>
    let row ← RecordM.run (depthRow layout)
    let t : OpenTable := { t with rows := t.rows ++ [row] }
    if ← terminator then return .inl (← closeDepthRegion layout t) else return .inl t
  | .terminator =>
    discard terminator
    return .inr t
  | .keyword | .endOfInput => return .inr t
  | _ => malformed .tableRowExpected

/-- The end points that the first row of some region sets. -/
def endpointMask (t : RegionTable Float) : List Bool :=
  (List.range' 1 (t.columns - 1)).map fun column =>
    (t.firstOf column).any (· != some unsetEndpoint)

def endpointTable (layout : DepthLayout) : ReadM (EndpointTable Float) := do
  let t ← iterate (depthStep layout) ⟨[], []⟩
  let t ← if t.rows.isEmpty then pure t else closeDepthRegion layout t
  if t.closed.isEmpty then malformed .noTableRows
  else
    match RegionTable.ofRegions? layout.kept.length t.closed with
    | some table => return ⟨table, endpointMask table⟩
    | none => malformed .raggedRegions

end ReadM

def Writer.endpointTable (layout : DepthLayout) (w : Writer) (t : EndpointTable Float) : Writer :=
  t.table.toRows.foldl (fun w rows => w.tableRegion (rows.map (layout.spread 0 layout.width))) w

end ReservoirDeck
