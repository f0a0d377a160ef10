import ReservoirDeck.Keyword.Date
import ReservoirDeck.Layout.Record
import ReservoirDeck.Table.Depth
import ReservoirDeck.Table.Pvt
import ReservoirDeck.Text.WhiteSpace

/-!
Layouts of keyword bodies: reading, writing, converting and comparing the body of a keyword, given
its layout.
-/

namespace ReservoirDeck

inductive Layout
  /-- One record. -/
  | record (fields : List Field)
  /-- Records that start with a name, up to an empty one. -/
  | named (leader : String) (fields : List Field)
  /-- Rows of numbers up to the next keyword; the slash of a row may be missing. -/
  | rows (fields : List Field)
  /-- One line of text. -/
  | title
  | startDate
  | dates
  /-- Lengths of time. -/
  | steps
  /-- A table with regions, and its columns that have a unit. -/
  | table (columns : Nat) (units : List (Nat × Factor))
  /-- A table of a leading value with triples. -/
  | pvt (lead first second third : Factor)
  | depth (layout : DepthLayout)

/-- A record with the name in front of it. -/
abbrev NamedRecord (R : Type) (fields : List Field) : Type :=
  String × Record R fields

namespace Layout

@[reducible] def Body (R : Type) : Layout → Type
  | .record fields => Record R fields
  | .named _ fields => List (NamedRecord R fields)
  | .rows fields => List (Record R fields)
  | .title => String
  | .startDate => Date
  | .dates => List Date
  | .steps => List R
  | .table _ _ => RegionTable R
  | .pvt .. => PvtTable R
  | .depth _ => EndpointTable R

/-- The fields of each record of a body. -/
def fields : Layout → List Field
  | .record fields => fields
  | .named _ fields => fields
  | .rows fields => fields
  | _ => []

end Layout

namespace ReadM

variable {α : Type}

def record (fields : RecordM α) : ReadM α :=
  RecordM.run do
    let values ← fields
    RecordM.finish
    return values

/-- Reads one record by its leading name, or the slash that ends the list. -/
def namedStep (fields : String → RecordM α) (records : List α) : ReadM (List α ⊕ List α) := do
  let t ← token
  if t.isTerminator then
    skipLine
    return .inr records
  else
    let values ← record (fields t.text)
    return .inl (records ++ [values])

def namedRecords (fields : String → RecordM α) : ReadM (List α) :=
  iterate (namedStep fields) []

/-- Reads one row, or finds that none is left. -/
def rowStep (fields : RecordM α) (rows : List α) : ReadM (List α ⊕ List α) := do
  match ← lookahead with
  | .data =>
    let values ← RecordM.run do
      let values ← fields
      RecordM.finishRow
      return values
    return .inl (rows ++ [values])
  | .keyword | .endOfInput => return .inr rows
  | .terminator => malformed .emptyRecord
  | _ => malformed .rowExpected

def rows (fields : RecordM α) : ReadM (List α) := do
  let rows ← iterate (rowStep fields) []
  if rows.isEmpty then malformed .noRows else return rows

def title : ReadM String := do
  if (← get).cursor.atEnd then fail .unexpectedEnd
  else return Text.trim (← line)

def startDate [Calendar] : ReadM Date := do
  let day ← token
  record (Date.read day.text)

end ReadM

def Layout.read [Calendar] : (layout : Layout) → ReadM (layout.Body Float)
  | .record fields => ReadM.record (Record.read "" fields)
  | .named _ fields => ReadM.namedRecords fun leader => do
    return (leader, ← Record.read leader fields)
  | .rows fields => ReadM.rows (Record.read "" fields)
  | .title => ReadM.title
  | .startDate => ReadM.startDate
  | .dates => ReadM.namedRecords Date.read
  | .steps => readValues Float
  | .table columns _ => ReadM.regionTable columns
  | .pvt .. => ReadM.pvtTable
  | .depth layout => ReadM.endpointTable layout

def Layout.write : (layout : Layout) → layout.Body Float → Writer → Writer
  | .record _, body, w => w.record (Record.tokens body)
  | .named _ _, body, w =>
    (body.foldl (fun w (leader, r) => w.record (nameToken leader :: Record.tokens r)) w).endList
  | .rows _, body, w => body.foldl (fun w r => w.record (Record.tokens r)) w
  | .title, body, w => w.line body
  | .startDate, body, w => w.record (Date.tokens body)
  | .dates, body, w => (body.foldl (fun w date => w.record (Date.tokens date)) w).endList
  | .steps, body, w => w.record (body.map deckText)
  | .table _ _, body, w => w.regionTable body
  | .pvt .., body, w => w.pvtTable body
  | .depth layout, body, w => w.endpointTable layout body

section Converting

variable {R : Type} [Mul R] [Div R]

/-- The factors of the controls that records name, or the first control without a quantity. -/
def controlFactors {fields : List Field} (m : Multipliers R) :
    List (NamedRecord R fields) → Except UnknownUnit (List R)
  | [] => .ok []
  | (leader, r) :: records =>
    match Factor.ofControl? r.selector with
    | some factor => (controlFactors m records).map (factor.value m :: ·)
    | none => .error (.control r.selector leader)

/-- Converts as many records as there are factors of controls. -/
def convertControlled {fields : List Field} (m : Multipliers R) :
    List (NamedRecord R fields) → List R → List (NamedRecord R fields)
  | (leader, r) :: records, factor :: factors =>
    (leader, r.convert m (some factor)) :: convertControlled m records factors
  | records, _ => records

/-- Converts records in order. Where a quantity is that of a control, the factors of all controls
are looked up before any record is changed. -/
def convertNamed {fields : List Field} (m : Multipliers R) :
    Change UnknownUnit (List (NamedRecord R fields)) := fun records =>
  if fields.any Field.isControlled then
    match controlFactors m records with
    | .ok factors => (convertControlled m records factors, none)
    | .error unit => (records, some (.error unit))
  else
    (records.map fun (leader, r) => (leader, r.convert m none), none)

/-- Multiplies columns one after another. -/
def RegionTable.convert {ε : Type} (m : Multipliers R) :
    List (Nat × Factor) → Change ε (RegionTable R)
  | [] => Change.always id
  | (column, factor) :: units =>
    (scaleInPlace column (factor.value m)).andThen (convert m units)

/-- Converts every real of a body from deck units to SI units. A second conversion converts
again. -/
def Layout.convert (m : Multipliers R) : (layout : Layout) → Change UnknownUnit (layout.Body R)
  | .record _ => Change.always (Record.convert m none)
  | .named _ _ => convertNamed m
  | .rows _ => Change.always (List.map (Record.convert m none))
  | .title => Change.always id
  | .startDate => Change.always id
  | .dates => Change.always id
  | .steps => Change.always (List.map (· * m.of .time))
  | .table _ units => RegionTable.convert m units
  | .pvt lead first second third =>
    PvtTable.scaleInPlace (lead.value m) (first.value m) (second.value m) (third.value m)
  | .depth _ => fun body =>
    let (scaled, fault) := body.table.scaleInPlace 0 (m.of .length)
    ({ body with table := scaled }, fault)

end Converting

def agreeAll {α : Type} (agree : α → α → Bool) : List α → List α → Bool
  | [], [] => true
  | a :: as, b :: bs => agree a b && agreeAll agree as bs
  | _, _ => false

def NamedRecord.agree {R : Type} [BEq R] {fields : List Field} (a b : NamedRecord R fields) : Bool :=
  a.1 == b.1 && a.2.agree b.2

def Layout.agree {R : Type} [BEq R] : (layout : Layout) → layout.Body R → layout.Body R → Bool
  | .record _, a, b => Record.agree a b
  | .named _ _, a, b => agreeAll NamedRecord.agree a b
  | .rows _, a, b => agreeAll Record.agree a b
  | .title, a, b => (a : String) == b
  | .startDate, a, b => decide (a = b)
  | .dates, a, b => decide (a = b)
  | .steps, a, b => (a : List R) == b
  | .table _ _, a, b => (a : RegionTable R) == b
  | .pvt .., a, b => (a : PvtTable R) == b
  | .depth _, a, b => (a : EndpointTable R) == b

end ReservoirDeck
