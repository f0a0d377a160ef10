/-!
The physical quantities that decks hold, and sets of multipliers for them. A multiplier turns a
value in the units of a deck into one in SI units.
-/

namespace ReservoirDeck

/-- Volumes are told apart by phase, and by surface or reservoir conditions. -/
inductive Quantity
  | length
  | time
  | density
  | polymerDensity
  | pressure
  | compressibility
  | viscosity
  | permeability
  | surfaceLiquid
  | reservoirLiquid
  | surfaceGas
  | reservoirGas
  | transmissibility
  deriving Repr, DecidableEq

def Quantity.all : List Quantity :=
  [.length, .time, .density, .polymerDensity, .pressure, .compressibility, .viscosity,
    .permeability, .surfaceLiquid, .reservoirLiquid, .surfaceGas, .reservoirGas, .transmissibility]

structure Multipliers (R : Type) where
  of : Quantity → R

namespace Multipliers

variable {R : Type}

/-- The multipliers of SI units themselves. -/
def identity [OfNat R 1] : Multipliers R :=
  ⟨fun _ => 1⟩

/-- The multipliers that lead back. -/
def inverse [OfNat R 1] [Div R] (m : Multipliers R) : Multipliers R :=
  ⟨fun q => 1 / m.of q⟩

def set (m : Multipliers R) (q : Quantity) (x : R) : Multipliers R :=
  ⟨fun p => if p = q then x else m.of p⟩

instance [BEq R] : BEq (Multipliers R) :=
  ⟨fun m n => Quantity.all.all fun q => m.of q == n.of q⟩

end Multipliers

/-- How the multiplier of a value is made from those of base quantities. -/
inductive Factor
  | base (q : Quantity)
  | ratio (above below : Quantity)
  | product (p q : Quantity)
  deriving Repr, DecidableEq

namespace Factor

def value {R : Type} [Mul R] [Div R] (m : Multipliers R) : Factor → R
  | .base q => m.of q
  | .ratio above below => m.of above / m.of below
  | .product p q => m.of p * m.of q

def liquidRate : Factor := .ratio .surfaceLiquid .time

def gasRate : Factor := .ratio .surfaceGas .time

def reservoirRate : Factor := .ratio .reservoirLiquid .time

/-- Rate of an injector, by the type it is given. -/
def injectionRate (injector : String) : Factor :=
  if injector == "GAS" then gasRate else liquidRate

/-- The rate or pressure that a control limits, by its first letter. -/
def ofControl? (control : String) : Option Factor :=
  match control.toList.head?.map Char.toUpper with
  | some 'O' | some 'W' | some 'L' => some liquidRate
  | some 'G' => some gasRate
  | some 'R' => some reservoirRate
  | some 'B' | some 'T' => some (.base .pressure)
  | _ => none

def liquidVolume : Factor := .ratio .reservoirLiquid .surfaceLiquid

def gasVolume : Factor := .ratio .reservoirGas .surfaceGas

/-- Dissolved gas in a liquid. -/
def gasInLiquid : Factor := .ratio .surfaceGas .surfaceLiquid

/-- Vaporised liquid in a gas. -/
def liquidInGas : Factor := .ratio .surfaceLiquid .surfaceGas

end Factor

end ReservoirDeck
