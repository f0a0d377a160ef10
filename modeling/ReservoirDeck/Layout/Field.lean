import ReservoirDeck.Decimal.Binary
import ReservoirDeck.Defaulted
import ReservoirDeck.Error
import ReservoirDeck.Layout.Row
import ReservoirDeck.Units.Quantity

/-!
What a record is made of. A layout lists fields; consecutive numbers are one field, because a
repetition may span them. The values of a record are a row over its layout.
-/

namespace ReservoirDeck

/-- How a real is converted. -/
inductive Scale
  | unscaled
  | fixed (factor : Factor)
  /-- As a rate of the injector that the record names. -/
  | injected
  /-- As the quantity whose control the record names. -/
  | controlled
  deriving Repr, DecidableEq

/-- One real of a record. -/
inductive RealSlot
  /-- May be left out, and remembers it. -/
  | tagged (label : String) (default : Float) (scale : Scale)
  /-- A whole number written as a real; zero if left out, and remembers it. -/
  | index (label : String)
  /-- May not be left out. -/
  | needed (label : String) (scale : Scale)
  /-- May be left out, and does not remember it. -/
  | optional (label : String) (default : Float) (scale : Scale)
  /-- Read but not kept. -/
  | unused

@[reducible] def RealSlot.Value (R : Type) : RealSlot → Type
  | .tagged .. => Defaulted R
  | .index _ => Defaulted Int32
  | .needed .. => R
  | .optional .. => R
  | .unused => Unit

def RealSlot.isControlled : RealSlot → Bool
  | .tagged _ _ scale => decide (scale = .controlled)
  | .needed _ scale => decide (scale = .controlled)
  | .optional _ _ scale => decide (scale = .controlled)
  | .index _ => false
  | .unused => false

/-- One integer of a record. -/
inductive IntSlot
  | tagged (label : String) (default : Int32)
  | needed (label : String)

@[reducible] def IntSlot.Value : IntSlot → Type
  | .tagged .. => Defaulted Int32
  | .needed _ => Int32

inductive Field
  | name (label default : String)
  /-- A name that may not be left out; `what` says so. -/
  | requiredName (label what : String)
  /-- Yes or no; no if left out. -/
  | answer (label : String)
  /-- Reals in a run; `incomplete` is the defect of one that is needed and left out. -/
  | reals (slots : List RealSlot) (incomplete : Defect)
  /-- Integers in a run. The defect is told the name that leads the record. -/
  | ints (slots : List IntSlot) (incomplete : String → Defect)
  /-- A real that is needed, and a second that is equal to it unless given and not negative. -/
  | companions (first what second : String)
  /-- Items that are passed over. -/
  | skipped (count : Nat)

namespace Field

/-- Reals that may all be left out. -/
def run (slots : List RealSlot) : Field :=
  .reals slots (.required "value")

def real (label : String) (default : Float) (scale : Scale) : Field :=
  .run [.tagged label default scale]

def requiredReal (label what : String) (scale : Scale) : Field :=
  .reals [.needed label scale] (.required what)

def int (label : String) (default : Int32) : Field :=
  .ints [.tagged label default] .required

/-- Some real of the field is of the quantity that the record names. -/
def isControlled : Field → Bool
  | .reals slots _ => slots.any RealSlot.isControlled
  | _ => false

@[reducible] def Value (R : Type) : Field → Type
  | .name .. => Defaulted String
  | .requiredName .. => String
  | .answer _ => Defaulted Bool
  | .reals slots _ => Row (RealSlot.Value R) slots
  | .ints slots _ => Row IntSlot.Value slots
  | .companions .. => R × Defaulted R
  | .skipped _ => Unit

end Field

/-- The values of the fields of one record. -/
abbrev Record (R : Type) (fields : List Field) : Type :=
  Row (Field.Value R) fields

end ReservoirDeck
