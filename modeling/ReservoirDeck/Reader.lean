import ReservoirDeck.Error
import ReservoirDeck.Text.Token
import ReservoirDeck.Text.Lookahead

/-!
Reading a deck: a cursor, and the keyword whose body is being read. Every error that a reader
builds names both.
-/

namespace ReservoirDeck

structure DeckReader where
  cursor : Cursor
  keyword : Option String

namespace DeckReader

def ofString (s : String) : DeckReader :=
  ⟨Cursor.ofString s, none⟩

def pos (r : DeckReader) : Nat :=
  r.cursor.pos

def remaining (r : DeckReader) : Nat :=
  r.cursor.remaining

def moveTo (r : DeckReader) (c : Cursor) : DeckReader :=
  { r with cursor := c }

def skipTrivia (r : DeckReader) : DeckReader :=
  r.moveTo r.cursor.skipTrivia

def skipLine (r : DeckReader) : DeckReader :=
  r.moveTo r.cursor.skipLine

/-- An error at the place reached. -/
def error (r : DeckReader) (cause : Cause) : DeckError :=
  let next := r.cursor.peekSignificant
  { cause
    keyword := r.keyword
    location := some r.cursor.location
    next := if next = 0 then none else some (charOfByte next) }

/-- The next token after blanks and comments, if there is one. -/
def token? (r : DeckReader) : Option Token × DeckReader :=
  let (t, c) := r.cursor.skipTrivia.readToken
  (t, r.moveTo c)

/-- Skips blanks and comments, and passes the line of a slash that follows. -/
def terminator (r : DeckReader) : Bool × DeckReader :=
  let here := r.skipTrivia
  if here.cursor.rest.head? = some Byte.slash then (true, here.skipLine) else (false, here)

theorem token?_lt {r r' : DeckReader} {t : Token} (h : r.token? = (some t, r')) :
    r'.remaining < r.remaining := by
  simp only [token?, Prod.mk.injEq] at h
  have shorter := Cursor.readToken_lt (c := r.cursor.skipTrivia) (t := t) (Prod.ext h.1 rfl)
  have := Cursor.remaining_forward_le r.cursor (Cursor.triviaSize false r.cursor.rest)
  rw [← h.2]
  exact Nat.lt_of_lt_of_le shorter this

end DeckReader

/-- Reading that may fail; the place reached is known either way. -/
abbrev ReadM := EStateM DeckError DeckReader

namespace ReadM

variable {α σ : Type}

def fail (cause : Cause) : ReadM α := do
  throw ((← get).error cause)

def malformed (defect : Defect) : ReadM α :=
  fail (.malformed defect)

def skipTrivia : ReadM Unit :=
  modify DeckReader.skipTrivia

def skipLine : ReadM Unit :=
  modify DeckReader.skipLine

/-- The next token; there has to be one. -/
def token : ReadM Token := do
  match ← modifyGet DeckReader.token? with
  | some t => return t
  | none => fail .unexpectedEnd

def line : ReadM String :=
  modifyGet fun r =>
    let (s, c) := r.cursor.readLine
    (s, r.moveTo c)

/-- Passes a slash, and the rest of its line, if one comes next. -/
def terminator : ReadM Bool :=
  modifyGet DeckReader.terminator

def expectTerminator : ReadM Unit := do
  let t ← token
  if t.isTerminator then skipLine
  else malformed (.terminatorExpected t.text)

/-- What comes after blanks and comments. A byte that starts neither data, nor a terminator, nor a
keyword is malformed. -/
def lookahead : ReadM Lookahead := do
  skipTrivia
  match (← get).cursor.lookahead with
  | .other byte => malformed (.strayBetweenRecords byte)
  | next => return next

/-- Repeats `step` until it yields a result. A round that reads nothing is the last; no loop of the reader
has such a round. -/
def iterate (step : σ → ReadM (σ ⊕ α)) (s : σ) : ReadM α := fun r =>
  match step s r with
  | .error e r' => .error e r'
  | .ok (.inr a) r' => .ok a r'
  | .ok (.inl s') r' =>
    if r'.remaining < r.remaining then iterate step s' r'
    else .error (r'.error (.malformed .stalled)) r'
termination_by r => r.remaining

/-- Reads with the name of a keyword in every error. -/
def inKeyword (name : String) (body : ReadM α) : ReadM α := fun r =>
  match body { r with keyword := some name } with
  | .ok a r' => .ok a { r' with keyword := none }
  | .error e r' => .error e { r' with keyword := none }

end ReadM

end ReservoirDeck
