/-!
Values of fields that may be left out. A field that was left out still holds a value, and the
writer leaves it out again.
-/

namespace ReservoirDeck

inductive Defaulted (α : Type)
  /-- Written in the deck. -/
  | given (value : α)
  /-- Left to its default. -/
  | missing (value : α)
  deriving Repr, BEq, DecidableEq

namespace Defaulted

variable {α β : Type}

def value : Defaulted α → α
  | .given v => v
  | .missing v => v

def isMissing : Defaulted α → Bool
  | .given _ => false
  | .missing _ => true

def map (f : α → β) : Defaulted α → Defaulted β
  | .given v => .given (f v)
  | .missing v => .missing (f v)

/-- What was given, or else the default. -/
def ofOption (default : α) : Option α → Defaulted α
  | some v => .given v
  | none => .missing default

end Defaulted

end ReservoirDeck
