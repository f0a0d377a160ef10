import ReservoirDeck.Slots

/-!
Reading one record field by field. A default marker may span fields of every kind, so the reader
keeps how many fields are still owed; a repetition that was skipped in part is owed with its value.
-/

namespace ReservoirDeck

/-- Where a record stands before its next field. -/
inductive Standing
  /-- The next field is read from the deck. -/
  | reading
  /-- The next `count` fields are left out, or are `value` if there is one. -/
  | owing (count : Nat) (value : Option String)
  /-- The slash was read: every later field is left out. -/
  | ended
  deriving Repr, DecidableEq

/-- The standing in which `count` more fields are owed. -/
def Standing.owe (count : Nat) (value : Option String) : Standing :=
  if count = 0 then .reading else .owing count value

structure RecordReader where
  reader : DeckReader
  standing : Standing

abbrev RecordM := EStateM DeckError RecordReader

namespace RecordM

variable {α τ σ : Type}

def fail (cause : Cause) : RecordM α := do
  throw ((← get).reader.error cause)

def malformed (defect : Defect) : RecordM α :=
  fail (.malformed defect)

def setStanding (standing : Standing) : RecordM Unit :=
  modify ({ · with standing })

/-- Reads from the deck, without regard to what is owed. -/
def ofRead (action : ReadM α) : RecordM α := fun s =>
  match action s.reader with
  | .ok a r => .ok a { s with reader := r }
  | .error e r => .error e { s with reader := r }

def endRecord : RecordM Unit := do
  ofRead ReadM.skipLine
  setStanding .ended

/-- A name, bare or quoted. A bare default marker leaves it out, and the fields after it. -/
def name (default : String) : RecordM (Defaulted String) := do
  match (← get).standing with
  | .ended => return .missing default
  | .owing count value =>
    setStanding (.owe (count - 1) value)
    return value.elim (.missing default) .given
  | .reading =>
    let t ← ofRead ReadM.token
    if t.isTerminator then
      endRecord
      return .missing default
    else
      match t.quoting with
      | .unterminated => malformed (.openQuote t.text)
      | .quoted => return .given t.text
      | .bare =>
        match defaultCount? t.text with
        | some count =>
          setStanding (.owe (count - 1) none)
          return .missing default
        | none => return .given t.text

/-- A name that may not be left out; `what` is said to be required. -/
def requiredName (what : String) : RecordM String := do
  match ← name "" with
  | .given s => return s
  | .missing _ => malformed (.required what)

/-- Fills slots from the tokens ahead; fields left out beyond the last slot are owed. -/
def fillNext [DeckNumber τ] (mark : τ → σ) (slots : List σ) : RecordM (Nat × List σ) := fun s =>
  let (run, r) := fillSlots mark slots s.reader
  match run.stop with
  | .full overflow => .ok (run.visited, run.slots) ⟨r, .owe overflow none⟩
  | .terminated => .ok (run.visited, run.slots) ⟨r, .ended⟩
  | .failed e => .error e ⟨r, .reading⟩

/-- Fills consecutive numeric fields, first with what is owed; with them the number of slots
visited. -/
def numbers [DeckNumber τ] (mark : τ → σ) (slots : List σ) : RecordM (Nat × List σ) := do
  match (← get).standing with
  | .ended => return (0, slots)
  | .reading => fillNext mark slots
  | .owing count value =>
    let paid := min count slots.length
    let front ← match value with
      | some text =>
        if paid = 0 then pure []
        else
          match DeckNumber.ofText? text with
          | some v => pure (List.replicate paid (mark v))
          | none => fail (.unreadable text)
      | none => pure (slots.take paid)
    setStanding (.owe (count - paid) value)
    if paid = slots.length then return (paid, front)
    else
      let (visited, rest) ← fillNext mark (slots.drop paid)
      return (paid + visited, front ++ rest)

/-- Consecutive numeric fields; none where one was left out. -/
def optionalNumbers (τ : Type) [DeckNumber τ] (count : Nat) : RecordM (Nat × List (Option τ)) :=
  numbers some (List.replicate count none)

def number [DeckNumber τ] (default : τ) : RecordM (Defaulted τ) := do
  let (_, slots) ← optionalNumbers τ 1
  return .ofOption default slots.head?.join

def requiredNumber (τ : Type) [DeckNumber τ] (what : String) : RecordM τ := do
  let (_, slots) ← optionalNumbers τ 1
  match slots.head?.join with
  | some v => return v
  | none => malformed (.required what)

def isEnded : RecordM Bool := do
  return (← get).standing == .ended

/-- How many items a token is, and what they repeat. -/
def itemExtent (t : Token) : Nat × Option String :=
  match t.item? Float with
  | some (.defaults k) => (k, none)
  | some (.repeated k _) => (k, (splitStar t.text).map fun parts => String.ofList parts.2)
  | _ => (1, none)

/-- Discards items from the tokens ahead; with their number, how the record stands then. -/
def skipNext (n : Nat) : ReadM (Nat × Standing) := fun r =>
  if n = 0 then .ok (0, .reading) r
  else
    match h : r.token? with
    | (none, r') => .error (r'.error .unexpectedEnd) r'
    | (some t, r') =>
      have := DeckReader.token?_lt h
      if t.isTerminator then .ok (0, .ended) r'.skipLine
      else
        let (count, value) := itemExtent t
        if n < count then .ok (n, .owing (count - n) value) r'
        else
          match skipNext (n - count) r' with
          | .ok (skipped, standing) r'' => .ok (count + skipped, standing) r''
          | .error e r'' => .error e r''
termination_by r => r.remaining

/-- Discards `n` items, owed ones first; fewer if the record ends before. -/
def skip (n : Nat) : RecordM Nat := do
  match (← get).standing with
  | .ended => return 0
  | .reading =>
    let (skipped, standing) ← ofRead (skipNext n)
    setStanding standing
    return skipped
  | .owing count value =>
    let paid := min count n
    setStanding (.owe (count - paid) value)
    if paid = n then return n
    else
      let (skipped, standing) ← ofRead (skipNext (n - paid))
      setStanding standing
      return paid + skipped

/-- Passes everything up to the next slash, and the rest of its line. -/
def skipToTerminator : ReadM Unit := fun r =>
  match h : r.token? with
  | (none, r') => .error (r'.error .unexpectedEnd) r'
  | (some t, r') =>
    have := DeckReader.token?_lt h
    if t.isTerminator then .ok () r'.skipLine else skipToTerminator r'
termination_by r => r.remaining

/-- Ends the record: items that are left are discarded. -/
def finish : RecordM Unit := do
  match (← get).standing with
  | .ended => return
  | _ => ofRead skipToTerminator

/-- Ends a row, whose slash may be missing. -/
def finishRow : RecordM Unit := do
  match (← get).standing with
  | .ended => return
  | _ => discard (ofRead ReadM.terminator)

/-- Reads one record from its first field on. -/
def run (action : RecordM α) : ReadM α := fun r =>
  match action ⟨r, .reading⟩ with
  | .ok a s => .ok a s.reader
  | .error e s => .error e s.reader

end RecordM

end ReservoirDeck
