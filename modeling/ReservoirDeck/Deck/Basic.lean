import ReservoirDeck.Keyword.Basic
import ReservoirDeck.Units.System

/-!
Decks: keywords in the order of their text, and the unit system that was declared. Each keyword
remembers the multipliers that it was converted with, so it is converted once.
-/

namespace ReservoirDeck

structure Entry (R : Type) where
  keyword : Keyword R
  /-- The multipliers of the conversion; none while the values are in deck units. -/
  converted : Option (Multipliers R)

namespace Entry

variable {R : Type}

def ofKeyword (k : Keyword R) : Entry R :=
  ⟨k, none⟩

/-- Converts to SI units, unless that was done before. A keyword that was converted as a whole is
marked. -/
def convert [Mul R] [Div R] (m : Multipliers R) : Change DeckError (Entry R) := fun e =>
  if e.converted.isSome then (e, none)
  else
    match e.keyword.convertInPlace m with
    | (k, none) => (⟨k, some m⟩, none)
    | (k, some fault) => ({ e with keyword := k }, some fault)

def inDeckUnits [Mul R] [Div R] [OfNat R 1] (e : Entry R) : Except (Fault DeckError) (Keyword R) :=
  match e.converted with
  | some m => e.keyword.convert m.inverse
  | none => .ok e.keyword

def agree [BEq R] (a b : Entry R) : Bool :=
  a.keyword.agree b.keyword && a.converted == b.converted

end Entry

structure Deck (R : Type) where
  units : UnitSystem
  entries : List (Entry R)

namespace Deck

variable {R : Type}

def empty (units : UnitSystem) : Deck R :=
  ⟨units, []⟩

def push (d : Deck R) (k : Keyword R) : Deck R :=
  { d with entries := d.entries ++ [.ofKeyword k] }

def keywords (d : Deck R) : List (Keyword R) :=
  d.entries.map Entry.keyword

def ofKind (d : Deck R) (kind : Kind) : List (kind.layout.Body R) :=
  d.keywords.filterMap (Keyword.body? kind)

/-- The last keyword of a kind, which overrides the others. -/
def last? (d : Deck R) (kind : Kind) : Option (kind.layout.Body R) :=
  (d.ofKind kind).getLast?

/-- Some keyword has this name, understood or not. -/
def contains (d : Deck R) (name : String) : Bool :=
  d.keywords.any (·.name == name)

/-- Converts what is not converted yet, up to the first entry that stops it. What was converted
before stays so. -/
def convertWith [Mul R] [Div R] (m : Multipliers R) : Change DeckError (Deck R) := fun d =>
  let (entries, fault) := Change.each (Entry.convert m) d.entries
  ({ d with entries }, fault)

/-- Converts with the multipliers of the unit system of the deck. -/
def convert : Change DeckError (Deck Float) := fun d =>
  d.convertWith d.units.multipliers

/-- How far the end points of two saturation functions may be apart. -/
def saturationTolerance : Float := 1e-3

/-- The gas saturation at which a region ends has to leave the connate water. -/
def checkEndPoint (region : Nat) : Option Float → Option Float → Option Conflict
  | some connateWater, some maxGas =>
    if saturationTolerance < (maxGas + connateWater - 1.0).abs then
      some (.gasEndPoint region maxGas connateWater)
    else none
  | _, _ => none

/-- Compares the regions that both tables have, counted from `region`. -/
def checkEndPoints (region : Nat) : List (Option Float) → List (Option Float) → Option Conflict
  | connateWater :: waters, maxGas :: gases =>
    (checkEndPoint region connateWater maxGas).or (checkEndPoints (region + 1) waters gases)
  | _, _ => none

/-- The first contradiction between the last water and gas saturation functions. -/
def conflict? (d : Deck Float) : Option DeckError := do
  let swof : RegionTable Float ← d.last? .swof
  let sgof : RegionTable Float ← d.last? .sgof
  let conflict ← checkEndPoints 1 (swof.firstOf 0) (sgof.lastOf 0)
  return (DeckError.ofCause (.inconsistent conflict)).inKeyword Kind.sgof.name

def agree [BEq R] (a b : Deck R) : Bool :=
  a.units == b.units && agreeAll Entry.agree a.entries b.entries

end Deck

end ReservoirDeck
