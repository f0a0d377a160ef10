import ReservoirDeck.Decimal.Read

/-!
Items of a numeric record: a value `v`, a repetition `k*v`, or `k` fields left out, `k*` or `*`.
-/

namespace ReservoirDeck

/-- The number types of a deck. -/
class DeckNumber (τ : Type) where
  ofText? : String → Option τ
  text : τ → String

instance : DeckNumber Float := ⟨realOfText?, deckText⟩

def integerText (n : Int32) : String :=
  toString n.toInt

instance : DeckNumber Int32 := ⟨integerOfText?, integerText⟩

def maxCount : Nat := Nat.pow 2 24

/-- A count between one and the largest. -/
def countOfChars? (cs : List Char) : Option Nat :=
  (naturalOfChars? cs).filter fun k => 1 ≤ k ∧ k ≤ maxCount

inductive Item (τ : Type)
  | value (v : τ)
  | defaults (count : Nat)
  | repeated (count : Nat) (v : τ)
  deriving Repr, DecidableEq

/-- What stands before and after the first star, if there is one. -/
def splitStar (s : String) : Option (List Char × List Char) :=
  let before := s.toList.takeWhile (· ≠ '*')
  match s.toList.drop before.length with
  | [] => none
  | _ :: after => some (before, after)

/-- A text splits at its first star. -/
def Item.ofText? {τ : Type} [DeckNumber τ] (s : String) : Option (Item τ) :=
  match splitStar s with
  | none => (DeckNumber.ofText? s).map .value
  | some ([], []) => some (.defaults 1)
  | some (count, []) => (countOfChars? count).map .defaults
  | some (count, v) => do
    let k ← countOfChars? count
    let x ← DeckNumber.ofText? (String.ofList v)
    return .repeated k x

/-- The fields that a text leaves out if it is read as a name: a star after a count, or alone. -/
def defaultCount? (s : String) : Option Nat :=
  match s.toList.reverse with
  | ['*'] => some 1
  | '*' :: count => countOfChars? count.reverse
  | _ => none

end ReservoirDeck
