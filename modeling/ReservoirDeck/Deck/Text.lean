import ReservoirDeck.Deck.Basic

/-!
The text of a deck: reading every keyword of it, and writing it back in deck units.
-/

namespace ReservoirDeck

namespace Deck

/-- The token can name a keyword. -/
def isName (t : Token) : Bool :=
  !t.isQuoted && (t.text.toList.head?.map Char.isAlpha).getD false

/-- Reads one keyword, or the declaration of a unit system. What follows a name on its line is
passed over. -/
def readStep [Calendar] (d : Deck Float) : ReadM (Deck Float ⊕ Deck Float) := do
  match ← modifyGet DeckReader.token? with
  | none => return .inr d
  | some t =>
    if isName t then
      ReadM.skipLine
      match UnitSystem.ofKeyword? t.text with
      | some units => return .inl { d with units }
      | none => return .inl (d.push (← Keyword.read t.text))
    else ReadM.malformed (.keywordExpected t.text)

/-- Every keyword of a text, without looking for contradictions. -/
def readAll [Calendar] : ReadM (Deck Float) :=
  ReadM.iterate readStep (empty .metric)

/-- The deck that a text holds. -/
def parse [Calendar] (text : String) : Except DeckError (Deck Float) :=
  match readAll (DeckReader.ofString text) with
  | .error e _ => .error e
  | .ok d _ =>
    match d.conflict? with
    | some e => .error e
    | none => .ok d

def writeEntries (w : Writer) : List (Entry Float) → Except (Fault DeckError) Writer
  | [] => .ok w
  | e :: entries => do
    let k ← e.inDeckUnits
    writeEntries (k.write w) entries

/-- The text of a deck, in its own units. -/
def write (d : Deck Float) : Except (Fault DeckError) String := do
  let w := match d.units.keyword? with
    | some name => Writer.empty.keyword name
    | none => Writer.empty
  return (← writeEntries w d.entries).text

end Deck

end ReservoirDeck
