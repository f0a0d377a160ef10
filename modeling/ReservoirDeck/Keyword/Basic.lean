import ReservoirDeck.Keyword.Ignored
import ReservoirDeck.Keyword.Kind

/-!
Keywords of a deck: reading them by name, writing them, converting their reals to SI units, and
comparing them.
-/

namespace ReservoirDeck

inductive Keyword (R : Type)
  | typed (kind : Kind) (body : kind.layout.Body R)
  | ignored (name body : String)

namespace Keyword

variable {R : Type}

def kind? : Keyword R → Option Kind
  | .typed kind _ => some kind
  | .ignored _ _ => none

def name : Keyword R → String
  | .typed kind _ => kind.name
  | .ignored name _ => name

def body? (kind : Kind) : Keyword R → Option (kind.layout.Body R)
  | .typed other body => if h : other = kind then some (h ▸ body) else none
  | .ignored _ _ => none

def read [Calendar] (name : String) : ReadM (Keyword Float) :=
  match Kind.ofName? name with
  | some kind => ReadM.inKeyword kind.name do
    return .typed kind (← kind.layout.read)
  | none => ReadM.inKeyword name do
    return .ignored name (← Ignored.read)

def write (w : Writer) : Keyword Float → Writer
  | .typed kind body => kind.layout.write body (w.keyword kind.name)
  | .ignored name body =>
    let w := w.keyword name
    if body.isEmpty then w else w.line body

/-- Converts every real from deck units to SI units. -/
def convertInPlace [Mul R] [Div R] (m : Multipliers R) : Change DeckError (Keyword R)
  | .typed kind body =>
    let (body', fault) := kind.layout.convert m body
    (.typed kind body', fault.map (Fault.map fun unit =>
      (DeckError.ofCause (.unsupported unit)).inKeyword kind.name))
  | .ignored name body => (.ignored name body, none)

/-- Converts a copy of a keyword. -/
def convert [Mul R] [Div R] (m : Multipliers R) (k : Keyword R) :
    Except (Fault DeckError) (Keyword R) :=
  Change.result (k.convertInPlace m)

/-- Two keywords agree value for value. Reals are compared as numbers. -/
def agree [BEq R] : Keyword R → Keyword R → Bool
  | .typed kind a, .typed other b =>
    if h : other = kind then kind.layout.agree a (h ▸ b) else false
  | .ignored name a, .ignored other b => name == other && a == b
  | _, _ => false

end Keyword

end ReservoirDeck
