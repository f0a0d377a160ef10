import ReservoirDeck.Units.Quantity

/-!
The unit systems that a deck can declare.
-/

namespace ReservoirDeck

namespace Si

def centi : Float := 1.0e-2
def milli : Float := 1.0e-3
def kilo : Float := 1.0e3
def meter : Float := 1.0
def inch : Float := 2.54 * centi * meter
def feet : Float := 12.0 * inch
def second : Float := 1.0
def minute : Float := 60.0 * second
def hour : Float := 60.0 * minute
def day : Float := 24.0 * hour
def kilogram : Float := 1.0
def gram : Float := 1.0e-3 * kilogram
def pound : Float := 0.45359237 * kilogram
def gravity : Float := 9.80665
def bar : Float := 100000.0
def atmosphere : Float := 101325.0
/-- A pound-force per square inch. -/
def psi : Float := pound * gravity / (inch * inch)
def poise : Float := 0.1
def centipoise : Float := centi * poise
def darcy : Float := 9.869233e-13
def millidarcy : Float := milli * darcy
def barrel : Float := 0.158987294928

def cubic (length : Float) : Float :=
  length * length * length

def cubicCentimeter : Float := cubic (centi * meter)

end Si

inductive UnitSystem
  | metric
  | field
  | lab
  /-- Values are in SI units already. No deck declares it. -/
  | si
  deriving Repr, DecidableEq, Inhabited

namespace UnitSystem

open Si

def ofKeyword? : String → Option UnitSystem
  | "METRIC" => some .metric
  | "FIELD" => some .field
  | "LAB" => some .lab
  | _ => none

def keyword? : UnitSystem → Option String
  | .metric => some "METRIC"
  | .field => some "FIELD"
  | .lab => some "LAB"
  | .si => none

def name (s : UnitSystem) : String :=
  s.keyword?.getD "SI"

def metricFactor : Quantity → Float
  | .length => meter
  | .time => day
  | .density => 1.0
  | .polymerDensity => 1.0
  | .pressure => bar
  | .compressibility => 1.0 / bar
  | .viscosity => centipoise
  | .permeability => millidarcy
  | .surfaceLiquid => 1.0
  | .reservoirLiquid => 1.0
  | .surfaceGas => 1.0
  | .reservoirGas => 1.0
  | .transmissibility => centipoise * cubic meter / (day * bar)

def fieldFactor : Quantity → Float
  | .length => feet
  | .time => day
  | .density => pound / cubic feet
  | .polymerDensity => pound / barrel
  | .pressure => psi
  | .compressibility => 1.0 / psi
  | .viscosity => centipoise
  | .permeability => millidarcy
  | .surfaceLiquid => barrel
  | .reservoirLiquid => barrel
  | .surfaceGas => kilo * cubic feet
  | .reservoirGas => barrel
  | .transmissibility => centipoise * barrel / (day * psi)

def labFactor : Quantity → Float
  | .length => centi * meter
  | .time => hour
  | .density => gram / cubicCentimeter
  | .polymerDensity => gram / cubicCentimeter
  | .pressure => atmosphere
  | .compressibility => 1.0 / atmosphere
  | .viscosity => centipoise
  | .permeability => millidarcy
  | .surfaceLiquid => cubicCentimeter
  | .reservoirLiquid => cubicCentimeter
  | .surfaceGas => cubicCentimeter
  | .reservoirGas => cubicCentimeter
  | .transmissibility => centipoise * cubicCentimeter / (hour * atmosphere)

def multipliers : UnitSystem → Multipliers Float
  | .metric => ⟨metricFactor⟩
  | .field => ⟨fieldFactor⟩
  | .lab => ⟨labFactor⟩
  | .si => .identity

end UnitSystem

end ReservoirDeck
