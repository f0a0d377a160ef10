import ReservoirDeck.Defaulted
import ReservoirDeck.Item
import ReservoirDeck.Table.Region
import ReservoirDeck.Table.Pvt

/-!
Deck text. Keyword names and records each have their own line, fields left out are written `1*`,
and names are quoted.
-/

namespace ReservoirDeck

/-- The text written so far, and whether nothing stands on its last line yet. -/
structure Writer where
  text : String
  lineEmpty : Bool
  deriving Repr, DecidableEq

/-- The characters that a bare token cannot hold. -/
def endsBareChar (c : Char) : Bool :=
  c == ' ' || c == '\t' || c == '\x0d' || c == '\n' || c == '/' || c == '\x00'

/-- The text is one bare token when it is read. -/
def readsBackBare (cs : List Char) : Bool :=
  cs.head? != some '\'' && cs.take 2 != ['-', '-'] && cs.all (!endsBareChar ·)

/-- A name as a token. An apostrophe cannot be quoted, so a name that holds one is bare if it can
be read so. -/
def nameToken (s : String) : String :=
  if s.toList.contains '\'' && readsBackBare s.toList then s else "'" ++ s ++ "'"

/-- A field that may be left out as a token. -/
def Defaulted.token {α : Type} (token : α → String) : Defaulted α → String
  | .given v => token v
  | .missing _ => "1*"

namespace Writer

def empty : Writer := ⟨"", true⟩

/-- A token, after a space unless it is the first of its line. -/
def token (w : Writer) (s : String) : Writer :=
  ⟨if w.lineEmpty then w.text ++ s else w.text ++ " " ++ s, false⟩

def tokens (w : Writer) (ts : List String) : Writer :=
  ts.foldl token w

def newline (w : Writer) : Writer :=
  ⟨w.text ++ "\n", true⟩

/-- Spaces that do not count as a token. -/
def indent (w : Writer) (n : Nat) : Writer :=
  { w with text := w.text ++ String.ofList (List.replicate n ' ') }

def line (w : Writer) (s : String) : Writer :=
  ⟨w.text ++ s ++ "\n", true⟩

def keyword (w : Writer) (name : String) : Writer :=
  (if w.lineEmpty then w else w.newline).line name

def endRecord (w : Writer) : Writer :=
  (w.token "/").newline

def endList (w : Writer) : Writer :=
  w.line "/"

def record (w : Writer) (ts : List String) : Writer :=
  (w.tokens ts).endRecord

/-- One row to a line, and a slash after each region. -/
def tableRegion (w : Writer) (rows : List (List String)) : Writer :=
  (rows.foldl (fun w row => (w.tokens row).newline) w).endList

def regionTable (w : Writer) (t : RegionTable Float) : Writer :=
  t.toRows.foldl (fun w rows => w.tableRegion (rows.map (·.map deckText))) w

/-- The triples after the first, each on an indented line of its own. -/
def triples (w : Writer) : List Float → Writer
  | x :: y :: z :: rest => ((w.newline.indent 8).tokens ([x, y, z].map deckText)).triples rest
  | [] => w
  | rest => (w.newline.indent 8).tokens (rest.map deckText)

def pvtRow (w : Writer) (row : List Float) : Writer :=
  ((w.tokens ((row.take 4).map deckText)).triples (row.drop 4)).endRecord

def pvtTable (w : Writer) (t : PvtTable Float) : Writer :=
  t.regions.foldl (fun w rows => (rows.foldl pvtRow w).endList) w

end Writer

end ReservoirDeck
