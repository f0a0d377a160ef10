import ReservoirDeck.Item
import ReservoirDeck.Defaulted
import ReservoirDeck.Reader

/-!
Numbers of a record read into slots. A value fills one slot, a repetition several, and a default
marker leaves slots as they are. A slash ends the record early, and the rest of its line is
passed.
-/

namespace ReservoirDeck

variable {τ σ : Type} [DeckNumber τ]

/-- The item that a token is; quoted text is none. -/
def Token.item? (τ : Type) [DeckNumber τ] (t : Token) : Option (Item τ) :=
  if t.isQuoted then none else Item.ofText? t.text

/-- Why filling slots stopped. -/
inductive SlotStop
  /-- All slots were visited; `overflow` fields of the last default marker did not fit. -/
  | full (overflow : Nat)
  | terminated
  | failed (error : DeckError)

/-- The slots after filling, and how many of them were visited. -/
structure SlotRun (σ : Type) where
  slots : List σ
  visited : Nat
  stop : SlotStop

/-- Puts slots that were visited earlier in front. -/
def SlotRun.after (earlier : List σ) (run : SlotRun σ) : SlotRun σ :=
  { run with slots := earlier ++ run.slots, visited := earlier.length + run.visited }

/-- None of the slots is filled because of an error at the place reached. -/
def SlotRun.fail (slots : List σ) (cause : Cause) (r : DeckReader) : SlotRun σ × DeckReader :=
  (⟨slots, 0, .failed (r.error cause)⟩, r)

/-- Fills slots from the tokens ahead; `mark` makes a slot of a number. -/
def fillSlots (mark : τ → σ) (slots : List σ) (r : DeckReader) : SlotRun σ × DeckReader :=
  if slots.isEmpty then (⟨[], 0, .full 0⟩, r)
  else
    match h : r.token? with
    | (none, r') => SlotRun.fail slots .unexpectedEnd r'
    | (some t, r') =>
      have := DeckReader.token?_lt h
      if t.isTerminator then (⟨slots, 0, .terminated⟩, r'.skipLine)
      else
        match t.item? τ with
        | some (.value v) =>
          let (run, r'') := fillSlots mark slots.tail r'
          (run.after [mark v], r'')
        | some (.defaults k) =>
          if slots.length < k then (⟨slots, slots.length, .full (k - slots.length)⟩, r')
          else
            let (run, r'') := fillSlots mark (slots.drop k) r'
            (run.after (slots.take k), r'')
        | some (.repeated k v) =>
          if slots.length < k then SlotRun.fail slots (.unreadable t.text) r'
          else
            let (run, r'') := fillSlots mark (slots.drop k) r'
            (run.after (List.replicate k (mark v)), r'')
        | none => SlotRun.fail slots (.unreadable t.text) r'
termination_by r.remaining

/-- All values up to a slash. There is nothing that a default marker could stand for. -/
def readValues (τ : Type) [DeckNumber τ] : ReadM (List τ) := fun r =>
  match h : r.token? with
  | (none, r') => .error (r'.error .unexpectedEnd) r'
  | (some t, r') =>
    have := DeckReader.token?_lt h
    if t.isTerminator then .ok [] r'.skipLine
    else
      let more (front : List τ) : EStateM.Result DeckError DeckReader (List τ) :=
        match readValues τ r' with
        | .ok vs r'' => .ok (front ++ vs) r''
        | .error e r'' => .error e r''
      match t.item? τ with
      | some (.value v) => more [v]
      | some (.repeated k v) => more (List.replicate k v)
      | _ => .error (r'.error (.unreadable t.text)) r'
termination_by r => r.remaining

end ReservoirDeck
