/-!
Changes of a value in place. A call that changes a value may be stopped before it is done, and then
leaves what it has made of the value by then.
-/

namespace ReservoirDeck

/-- What stops a call: an error that it returns, or a panic. -/
inductive Fault (ε : Type)
  | error (e : ε)
  | panic
  deriving Repr, DecidableEq

def Fault.map {ε δ : Type} (f : ε → δ) : Fault ε → Fault δ
  | .error e => .error (f e)
  | .panic => .panic

/-- A change in place: what it leaves of a value, and what stopped it. -/
abbrev Change (ε α : Type) : Type :=
  α → α × Option (Fault ε)

namespace Change

variable {ε α β : Type}

def always (f : α → α) : Change ε α := fun a =>
  (f a, none)

/-- One change after another. -/
def andThen (f g : Change ε α) : Change ε α := fun a =>
  match f a with
  | (a', none) => g a'
  | (a', some fault) => (a', some fault)

/-- Changes the entries of a list one after another. -/
def each (f : Change ε α) : Change ε (List α)
  | [] => ([], none)
  | a :: as =>
    match f a with
    | (a', none) =>
      let (as', fault) := each f as
      (a' :: as', fault)
    | (a', some fault) => (a' :: as, some fault)

/-- Changes the entry at an index. An index out of range panics. -/
def atIndex (i : Nat) (f : Change ε α) : Change ε (List α) := fun as =>
  match as[i]? with
  | none => (as, some .panic)
  | some a =>
    let (a', fault) := f a
    (as.set i a', fault)

/-- The changed value, if nothing stopped the change. -/
def result : α × Option (Fault ε) → Except (Fault ε) α
  | (a, none) => .ok a
  | (_, some fault) => .error fault

end Change

end ReservoirDeck
