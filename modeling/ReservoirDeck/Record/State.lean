import ReservoirDeck.Record.Reader

/-!
A record as it is held while it is read: how many fields are owed, the text that they repeat, and whether
the slash was read. Each of the three is changed on its own, by every call in another way.
-/

namespace ReservoirDeck

structure RecordState where
  reader : DeckReader
  pendingDefaults : Nat
  /-- What the owed fields repeat; they are left out if there is none. -/
  pendingValue : Option String
  terminated : Bool

/-- What the next field gets before any token is read. -/
inductive Owed
  | nothing
  | default
  | value (text : String)

abbrev RecordStateM := EStateM DeckError RecordState

namespace RecordState

def new (reader : DeckReader) : RecordState :=
  ⟨reader, 0, none, false⟩

/-- Pays some of the owed fields, and never more than are owed. -/
def settle (s : RecordState) (n : Nat) (_ : n ≤ s.pendingDefaults) : RecordState :=
  let left := s.pendingDefaults - n
  { s with
    pendingDefaults := left
    pendingValue := if left = 0 then none else s.pendingValue }

end RecordState

namespace RecordStateM

variable {α τ σ : Type}

def fail (cause : Cause) : RecordStateM α := do
  throw ((← get).reader.error cause)

def malformed (defect : Defect) : RecordStateM α :=
  fail (.malformed defect)

def ofRead (action : ReadM α) : RecordStateM α := fun s =>
  match action s.reader with
  | .ok a r => .ok a { s with reader := r }
  | .error e r => .error e { s with reader := r }

/-- Takes one owed field, if there is any. Behind the slash there always is. -/
def takeOwed : RecordStateM Owed := fun s =>
  if s.terminated then .ok .default s
  else if h : s.pendingDefaults = 0 then .ok .nothing s
  else .ok (s.pendingValue.elim .default .value) (s.settle 1 (Nat.pos_of_ne_zero h))

def terminate : RecordStateM Unit := do
  ofRead ReadM.skipLine
  modify ({ · with terminated := true })

/-- A field of text, bare or quoted. A bare default marker leaves it out, and the fields after it. -/
def string (default : String) : RecordStateM (Defaulted String) := do
  match ← takeOwed with
  | .default => return .missing default
  | .value text => return .given text
  | .nothing =>
    let t ← ofRead ReadM.token
    if t.isTerminator then
      terminate
      return .missing default
    else
      match t.quoting with
      | .unterminated => malformed (.openQuote t.text)
      | .quoted => return .given t.text
      | .bare =>
        match defaultCount? t.text with
        | some count =>
          modify ({ · with pendingDefaults := count - 1, pendingValue := none })
          return .missing default
        | none => return .given t.text

def requiredString (what : String) : RecordStateM String := do
  match ← string "" with
  | .given s => return s
  | .missing _ => malformed (.required what)

/-- Fills slots from the tokens ahead. What of the last marker did not fit is owed on top. -/
def fillNext [DeckNumber τ] (mark : τ → σ) (slots : List σ) : RecordStateM (Nat × List σ) :=
  fun s =>
    let (run, r) := fillSlots mark slots s.reader
    match run.stop with
    | .full overflow => .ok (run.visited, run.slots)
        { s with reader := r, pendingDefaults := s.pendingDefaults + overflow, terminated := false }
    | .terminated => .ok (run.visited, run.slots) { s with reader := r, terminated := true }
    | .failed e => .error e { s with reader := r }

/-- Puts what is owed into the first slots. -/
def pay [DeckNumber τ] (mark : τ → σ) (slots : List σ) : RecordStateM (List σ) := fun s =>
  let owed := min s.pendingDefaults slots.length
  let settled := s.settle owed (Nat.min_le_left ..)
  match s.pendingValue.filter fun _ => 0 < owed with
  | none => .ok (slots.take owed) settled
  | some text =>
    match DeckNumber.ofText? text with
    | some v => .ok (List.replicate owed (mark v)) settled
    | none => .error (s.reader.error (.unreadable text)) s

/-- Fills the slots behind those that were paid for, if there are any. -/
def fillBehind [DeckNumber τ] (mark : τ → σ) (slots front : List σ) :
    RecordStateM (Nat × List σ) := do
  if front.length = slots.length then return (front.length, front)
  else
    let (visited, rest) ← fillNext mark (slots.drop front.length)
    return (front.length + visited, front ++ rest)

/-- Fills consecutive numeric fields, first with what is owed; with them the number of slots visited. -/
def numbers [DeckNumber τ] (mark : τ → σ) (slots : List σ) : RecordStateM (Nat × List σ) := do
  if (← get).terminated then return (0, slots)
  else fillBehind mark slots (← pay mark slots)

def number [DeckNumber τ] (default : τ) : RecordStateM (Defaulted τ) := do
  let (_, slots) ← numbers some [(none : Option τ)]
  return .ofOption default slots.head?.join

def requiredNumber (τ : Type) [DeckNumber τ] (what : String) : RecordStateM τ := do
  let (_, slots) ← numbers some [(none : Option τ)]
  match slots.head?.join with
  | some v => return v
  | none => malformed (.required what)

/-- Discards items until `n` of them are, of which `skipped` were before. -/
def skipFrom (n skipped : Nat) : RecordStateM Nat := fun s =>
  if n ≤ skipped then .ok skipped s
  else if s.terminated then .ok skipped s
  else if 0 < s.pendingDefaults then
    let owed := min s.pendingDefaults (n - skipped)
    skipFrom n (skipped + owed) (s.settle owed (Nat.min_le_left ..))
  else
    match h : s.reader.token? with
    | (none, r) => .error (r.error .unexpectedEnd) { s with reader := r }
    | (some t, r) =>
      have := DeckReader.token?_lt h
      if t.isTerminator then .ok skipped { s with reader := r.skipLine, terminated := true }
      else
        let (count, value) := RecordM.itemExtent t
        let taken := min count (n - skipped)
        skipFrom n (skipped + taken)
          { s with
            reader := r
            pendingDefaults := count - taken
            pendingValue := if taken < count then value else none }
termination_by s => s.reader.remaining + (n - skipped)
decreasing_by
  · simp only [RecordState.settle]
    omega
  · omega

/-- Discards `n` items, owed ones first; fewer if the record ends before. -/
def skip (n : Nat) : RecordStateM Nat :=
  skipFrom n 0

def isTerminated : RecordStateM Bool := do
  return (← get).terminated

/-- Ends the record: items that are left are discarded. -/
def finish : RecordStateM Unit := do
  if (← get).terminated then return
  else ofRead RecordM.skipToTerminator

def finishRow : RecordStateM Unit := do
  if (← get).terminated then return
  else discard (ofRead ReadM.terminator)

/-- Reads one record from its first field on. -/
def run (action : RecordStateM α) : ReadM α := fun r =>
  match action (.new r) with
  | .ok a s => .ok a s.reader
  | .error e s => .error e s.reader

end RecordStateM

end ReservoirDeck
