import ReservoirDeck.Keyword.Basic

/-!
What can be asked of some keywords.
-/

namespace ReservoirDeck

/-- The cells of a grid along its three directions. -/
def gridSize (r : Record Float Kind.specgridFields) : List Int32 :=
  [r.head.head.value, r.head.tail.head.value, r.head.tail.tail.head.value]

def isRadial (r : Record Float Kind.specgridFields) : Bool :=
  r.tail.head.value.toList.head? == some 'T'

/-- Critical saturations are scaled. -/
def isEnabled (r : Record Float Kind.scalecrsFields) : Bool :=
  r.head.value

def isAvailable (r : Record Float Kind.wgrupconFields) : Bool :=
  r.head.value == "YES"

def parent (r : Record Float Kind.gruptreeFields) : String :=
  r.head.value

/-- The parent of a group, by the last record of it. -/
def parentOf? (records : List (NamedRecord Float Kind.gruptreeFields)) (group : String) :
    Option String :=
  (records.reverse.find? (·.1 == group)).map (parent ·.2)

def connateWater (t : RegionTable Float) : List (Option Float) :=
  t.firstOf 0

def maxGas (t : RegionTable Float) : List (Option Float) :=
  t.lastOf 0

end ReservoirDeck
