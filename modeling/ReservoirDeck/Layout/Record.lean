import ReservoirDeck.Layout.Field
import ReservoirDeck.Record.Reader
import ReservoirDeck.Writer

/-!
Records of a given layout: reading and writing them, converting their reals, and comparing them.
-/

namespace ReservoirDeck

/-- The value of a slot, from what was read for it; none if it is needed and was left out. -/
def RealSlot.ofEntry? : (slot : RealSlot) → Option Float → Option (slot.Value Float)
  | .tagged _ default _, entry => some (Defaulted.ofOption default entry)
  | .index _, entry => some ((Defaulted.ofOption 0 entry).map wholeNumber)
  | .needed .., entry => entry
  | .optional _ default _, entry => some (entry.getD default)
  | .unused, _ => some ()

def IntSlot.ofEntry? : (slot : IntSlot) → Option Int32 → Option slot.Value
  | .tagged _ default, entry => some (Defaulted.ofOption default entry)
  | .needed _, entry => entry

/-- An answer is yes if it starts so. -/
def isYes (s : String) : Bool :=
  s.toList.head? == some 'Y' || s.toList.head? == some 'y'

def Field.read (leader : String) : (field : Field) → RecordM (field.Value Float)
  | .name _ default => RecordM.name default
  | .requiredName _ what => RecordM.requiredName what
  | .answer _ => do
    let answer ← RecordM.name "NO"
    return answer.map isYes
  | .reals slots incomplete => do
    let (_, entries) ← RecordM.optionalNumbers Float slots.length
    match Row.ofEntries? RealSlot.ofEntry? slots entries with
    | some values => return values
    | none => RecordM.malformed incomplete
  | .ints slots incomplete => do
    let (_, entries) ← RecordM.optionalNumbers Int32 slots.length
    match Row.ofEntries? IntSlot.ofEntry? slots entries with
    | some values => return values
    | none => RecordM.malformed (incomplete leader)
  | .companions _ what _ => do
    let first ← RecordM.requiredNumber Float what
    let second ← RecordM.number (-1 : Float)
    return (first, second.map fun x => if x < 0 then first else x)
  | .skipped count => discard (RecordM.skip count)

namespace Record

variable {R : Type} {fields : List Field}

/-- Reads the fields of a record whose leading name is `leader`. -/
def read (leader : String) (fields : List Field) : RecordM (Record Float fields) :=
  Row.generateM (Field.read leader) fields

end Record

def RealSlot.tokens : (slot : RealSlot) → slot.Value Float → List String
  | .tagged .., v => [Defaulted.token deckText v]
  | .index _, v => [Defaulted.token integerText v]
  | .needed .., v => [deckText v]
  | .optional .., v => [deckText v]
  | .unused, _ => []

def IntSlot.tokens : (slot : IntSlot) → slot.Value → List String
  | .tagged .., v => [Defaulted.token integerText v]
  | .needed _, v => [integerText v]

def answerText (yes : Bool) : String :=
  if yes then "YES" else "NO"

def Field.tokens : (field : Field) → field.Value Float → List String
  | .name .., v => [Defaulted.token nameToken v]
  | .requiredName .., v => [nameToken v]
  | .answer _, v => [Defaulted.token nameToken (Defaulted.map answerText v)]
  | .reals _ _, v => Row.collect RealSlot.tokens v
  | .ints _ _, v => Row.collect IntSlot.tokens v
  | .companions .., v => [deckText v.1, Defaulted.token deckText v.2]
  | .skipped count, _ => [toString count ++ "*"]

def Record.tokens {fields : List Field} (r : Record Float fields) : List String :=
  Row.collect Field.tokens r

section Converting

variable {R : Type} [Mul R] [Div R]

/-- What a real is multiplied by, in a record that names `selector`; none if it stays as it is. A
control's factor is looked up before. -/
def Scale.factor? (m : Multipliers R) (selector : String) (control : Option R) : Scale → Option R
  | .unscaled => none
  | .fixed factor => some (factor.value m)
  | .injected => some ((Factor.injectionRate selector).value m)
  | .controlled => control

end Converting

section Scaling

variable {R : Type} [Mul R]

def scaleBy (factor : Option R) (x : R) : R :=
  factor.elim x (x * ·)

variable (factor? : Scale → Option R)

def RealSlot.scale : (slot : RealSlot) → slot.Value R → slot.Value R
  | .tagged _ _ scale, v => Defaulted.map (scaleBy (factor? scale)) v
  | .index _, v => v
  | .needed _ scale, v => scaleBy (factor? scale) v
  | .optional _ _ scale, v => scaleBy (factor? scale) v
  | .unused, v => v

def Field.scale : (field : Field) → field.Value R → field.Value R
  | .name .., v => v
  | .requiredName .., v => v
  | .answer _, v => v
  | .reals _ _, v => Row.map (RealSlot.scale factor?) v
  | .ints _ _, v => v
  | .companions .., v => v
  | .skipped _, v => v

end Scaling

/-- The names of a field that may not be left out. -/
def Field.requiredNames {R : Type} : (field : Field) → field.Value R → List String
  | .requiredName .., v => [v]
  | _, _ => []

/-- The name that says what the reals of a record are: the first that may not be left out. -/
def Record.selector {R : Type} {fields : List Field} (r : Record R fields) : String :=
  (Row.collect Field.requiredNames r).head?.getD ""

/-- Converts the reals of a record from deck units to SI units, given the factor of its control. -/
def Record.convert {R : Type} [Mul R] [Div R] {fields : List Field} (m : Multipliers R)
    (control : Option R) (r : Record R fields) : Record R fields :=
  Row.map (Field.scale (Scale.factor? m r.selector control)) r

section Comparing

variable {R : Type} [BEq R]

def RealSlot.agree : (slot : RealSlot) → slot.Value R → slot.Value R → Bool
  | .tagged .., v, w => (v : Defaulted R) == w
  | .index _, v, w => (v : Defaulted Int32) == w
  | .needed .., v, w => (v : R) == w
  | .optional .., v, w => (v : R) == w
  | .unused, _, _ => true

def IntSlot.agree : (slot : IntSlot) → slot.Value → slot.Value → Bool
  | .tagged .., v, w => (v : Defaulted Int32) == w
  | .needed _, v, w => (v : Int32) == w

def Field.agree : (field : Field) → field.Value R → field.Value R → Bool
  | .name .., v, w => (v : Defaulted String) == w
  | .requiredName .., v, w => (v : String) == w
  | .answer _, v, w => (v : Defaulted Bool) == w
  | .reals _ _, v, w => Row.agree RealSlot.agree v w
  | .ints _ _, v, w => Row.agree IntSlot.agree v w
  | .companions .., v, w => (v : R × Defaulted R) == w
  | .skipped _, _, _ => true

def Record.agree {fields : List Field} (r s : Record R fields) : Bool :=
  Row.agree Field.agree r s

end Comparing

end ReservoirDeck
