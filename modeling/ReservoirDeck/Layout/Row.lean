/-!
Rows of values whose types are described by a list: one value for each description, in order.
-/

namespace ReservoirDeck

inductive Row {ι : Type} (V : ι → Type) : List ι → Type
  | nil : Row V []
  | cons {i : ι} {is : List ι} (value : V i) (rest : Row V is) : Row V (i :: is)

namespace Row

variable {ι β : Type} {V W : ι → Type} {is : List ι}

def head {i : ι} : Row V (i :: is) → V i
  | .cons v _ => v

def tail {i : ι} : Row V (i :: is) → Row V is
  | .cons _ vs => vs

/-- A row of values that are made one after the other. -/
def generateM {m : Type → Type} [Monad m] (make : (i : ι) → m (V i)) :
    (is : List ι) → m (Row V is)
  | [] => return .nil
  | i :: is => do
    let v ← make i
    let vs ← generateM make is
    return .cons v vs

/-- Matches descriptions with optional entries; descriptions without an entry come last. -/
def ofEntries? {τ : Type} (make : (i : ι) → Option τ → Option (V i)) :
    (is : List ι) → List (Option τ) → Option (Row V is)
  | [], _ => some .nil
  | i :: is, entries => do
    let v ← make i entries.head?.join
    let vs ← ofEntries? make is entries.tail
    return .cons v vs

def collect (f : (i : ι) → V i → List β) : {is : List ι} → Row V is → List β
  | [], .nil => []
  | i :: _, .cons v vs => f i v ++ vs.collect f

/-- A row over the same descriptions, each value replaced. -/
def map (f : (i : ι) → V i → W i) : {is : List ι} → Row V is → Row W is
  | [], .nil => .nil
  | i :: _, .cons v vs => .cons (f i v) (vs.map f)

def agree (f : (i : ι) → V i → V i → Bool) : {is : List ι} → Row V is → Row V is → Bool
  | [], .nil, .nil => true
  | i :: _, .cons v vs, .cons w ws => f i v w && vs.agree f ws

end Row

end ReservoirDeck
