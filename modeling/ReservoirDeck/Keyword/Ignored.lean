import ReservoirDeck.Reader
import ReservoirDeck.Text.WhiteSpace

/-!
Keywords that are not understood. Their bodies are passed line by line, up to the name of the next
keyword, and kept as they are.
-/

namespace ReservoirDeck

namespace Ignored

/-- Keywords that are passed on purpose. -/
def known : List String :=
  ["SWFN", "SOF2", "TUNING"]

/-- Size of the lines up to the first that holds a slash; `seen` if one was seen on the first
line. -/
def dataSize (seen : Bool) : List UInt8 → Nat
  | [] => 0
  | b :: rest =>
    if b == Byte.newline then if seen then 1 else dataSize false rest + 1
    else dataSize (seen || b == Byte.slash) rest + 1

def passData (c : Cursor) : Cursor :=
  c.forward (dataSize false c.rest)

/-- Passes one line or one run of data. A line that starts with a letter is the next keyword,
unless it holds a slash. The state is the offset at which the body ends so far. -/
def step (stop : Nat) : ReadM (Nat ⊕ Nat) := do
  modify fun r => r.moveTo r.cursor.skipBlanks
  let c := (← get).cursor
  let pass (c' : Cursor) : ReadM (Nat ⊕ Nat) := do
    modify (·.moveTo c')
    return .inl c'.pos
  if c.atEnd then return .inr stop
  else if c.atComment then pass c.skipLine
  else
    match Lookahead.ofByte c.current with
    | .terminator => pass c.skipLine
    | .keyword => if c.lineHasTerminator then pass c.skipLine else return .inr stop
    | .data | .quoted => pass (passData c)
    | _ => ReadM.malformed (.strayInIgnored c.current)

def isLineBreak (c : Char) : Bool :=
  c == '\n' || c == '\x0d'

/-- The text without line breaks in front and white space at its end. -/
def trimBody (s : String) : String :=
  Text.trimEnd (String.ofList (s.toList.dropWhile isLineBreak))

/-- The body of a keyword that is not understood. -/
def read : ReadM String := do
  let start := (← get).pos
  let stop ← ReadM.iterate step start
  return trimBody ((← get).cursor.slice start stop)

end Ignored

end ReservoirDeck
