import ReservoirDeck.Text.CharLiteral
import ReservoirDeck.Text.Cursor
import ReservoirDeck.Decimal.Text

/-!
What can be wrong with a deck. An error has a cause, and as much of its place as is known: the
keyword being read, the position, and the next character.
-/

namespace ReservoirDeck

/-- The stage at which a deck is refused. -/
inductive Stage
  | lexical
  | grammar
  /-- Every record was read, but they do not fit together or cannot be converted. -/
  | semantic
  deriving Repr, DecidableEq

inductive ErrorCode
  | unexpectedEnd
  | unreadableValue
  | malformedRecord
  | inconsistent
  | unsupported
  deriving Repr, DecidableEq

namespace ErrorCode

def all : List ErrorCode :=
  [.unexpectedEnd, .unreadableValue, .malformedRecord, .inconsistent, .unsupported]

def text : ErrorCode → String
  | .unexpectedEnd => "E0001"
  | .unreadableValue => "E1001"
  | .malformedRecord => "E1002"
  | .inconsistent => "E2001"
  | .unsupported => "E3001"

def stage : ErrorCode → Stage
  | .unexpectedEnd => .lexical
  | .unreadableValue | .malformedRecord => .grammar
  | .inconsistent | .unsupported => .semantic

def ofText? (s : String) : Option ErrorCode :=
  all.find? (·.text == s.toUpper)

end ErrorCode

/-- A record or table that does not have the form its keyword asks for. -/
inductive Defect
  | strayBetweenRecords (byte : UInt8)
  | strayInIgnored (byte : UInt8)
  | terminatorExpected (found : String)
  | keywordExpected (found : String)
  | openQuote (text : String)
  | required (what : String)
  | incompleteBox (segment : String)
  | incompleteReference
  | emptyRecord
  | rowExpected
  | noRows
  | emptyRegion
  | tableRowExpected
  | noTableRows
  /-- A row of a live-oil or wet-gas table that is not a value followed by triples. -/
  | unevenRow (size : Nat)
  | shortRow (size width : Nat)
  | firstEntryDefaulted (row : Nat)
  | columnDefaulted (column : Nat)
  | depthDefaulted
  | unsupportedColumn (column : Nat)
  | singleRowRegion
  | raggedRegions
  | invalidDate (month : String) (year : Int32)
  /-- A loop over the text that no longer reads anything. -/
  | stalled
  | stated (message : String)
  deriving Repr, DecidableEq

def Defect.message : Defect → String
  | .strayBetweenRecords byte =>
    s!"unexpected character {charLiteral (charOfByte byte)} between records"
  | .strayInIgnored byte =>
    s!"unexpected character {charLiteral (charOfByte byte)} in skipped keyword"
  | .terminatorExpected found => s!"expected `/`, found `{found}`"
  | .keywordExpected found => s!"expected a keyword name, found `{found}`"
  | .openQuote text => s!"unterminated quote in `'{text}`"
  | .required what => s!"{what} is required"
  | .incompleteBox segment => s!"fault segment {segment} needs all six box indices"
  | .incompleteReference =>
    "row needs reference pressure, volume factor, compressibility and viscosity"
  | .emptyRecord => "empty record"
  | .rowExpected => "expected a numeric row"
  | .noRows => "keyword has no rows"
  | .emptyRegion => "empty table region"
  | .tableRowExpected => "expected numeric table row"
  | .noTableRows => "table has no rows"
  | .unevenRow size => s!"row has {size} values, expected 1 + 3k"
  | .shortRow size width => s!"row has {size} values, expected {width}"
  | .firstEntryDefaulted row => s!"first column defaulted in row {row}"
  | .columnDefaulted column => s!"column {column} entirely defaulted"
  | .depthDefaulted => "depth may not be defaulted"
  | .unsupportedColumn column => s!"column {column} is not supported and must be defaulted"
  | .singleRowRegion => "each region needs at least two rows"
  | .raggedRegions => "inconsistent region shapes"
  | .invalidDate month year => s!"invalid date {month} {year.toInt}"
  | .stalled => "nothing left to read"
  | .stated message => message

/-- Values that contradict each other. -/
inductive Conflict
  /-- The gas saturation at which the table ends does not leave the connate water; regions are
  counted from one. -/
  | gasEndPoint (region : Nat) (maxGas connateWater : Float)
  | stated (message : String)

def Conflict.message : Conflict → String
  | .gasEndPoint region maxGas connateWater =>
    s!"maximum gas saturation {plainText maxGas} in SGOF region {region} should equal " ++
      s!"1 - connate water saturation = {plainText (1 - connateWater)}"
  | .stated message => message

/-- A value whose unit is not known. -/
inductive UnknownUnit
  | control (named well : String)
  | stated (message : String)
  deriving Repr, DecidableEq

def UnknownUnit.message : UnknownUnit → String
  | .control named well => s!"unknown control or constraint `{named}` for well {well}"
  | .stated message => message

inductive Cause
  | unexpectedEnd
  | unreadable (found : String)
  | malformed (defect : Defect)
  | inconsistent (conflict : Conflict)
  | unsupported (unit : UnknownUnit)

namespace Cause

def code : Cause → ErrorCode
  | .unexpectedEnd => .unexpectedEnd
  | .unreadable _ => .unreadableValue
  | .malformed _ => .malformedRecord
  | .inconsistent _ => .inconsistent
  | .unsupported _ => .unsupported

def message : Cause → String
  | .unexpectedEnd => "unexpected end of input"
  | .unreadable found => s!"malformed vector record: cannot read `{found}` as a value"
  | .malformed defect => s!"malformed record: {defect.message}"
  | .inconsistent conflict => s!"physical consistency violated: {conflict.message}"
  | .unsupported unit => s!"unsupported conversion: {unit.message}"

end Cause

structure DeckError where
  cause : Cause
  keyword : Option String
  location : Option Location
  next : Option Char

namespace DeckError

def ofCause (cause : Cause) : DeckError :=
  ⟨cause, none, none, none⟩

def code (e : DeckError) : ErrorCode :=
  e.cause.code

/-- Names the keyword, unless one is named already. -/
def inKeyword (e : DeckError) (name : String) : DeckError :=
  { e with keyword := e.keyword.or (some name) }

def message (e : DeckError) : String :=
  s!"error[{e.code.text}]: {e.cause.message}" ++
    (e.keyword.elim "" fun name => s!" in {name}") ++
    (e.location.elim "" fun location => s!" at {location.describe}") ++
    (e.next.elim "" fun c => s!" (next character {charLiteral c})")

end DeckError

end ReservoirDeck
