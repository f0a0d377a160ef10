import ReservoirDeck.Text.Cursor

/-!
Tokens: bare words, quoted texts and the record terminator. A token is cut from the bytes ahead
and covers at least one of them.
-/

namespace ReservoirDeck

inductive Quoting
  | bare
  | quoted
  /-- A quote that is still open at the end of its line. -/
  | unterminated
  deriving Repr, DecidableEq

/-- One token; `text` is without its quotes, `start` the offset of its first byte. -/
structure Token where
  text : String
  quoting : Quoting
  start : Nat
  deriving Repr, DecidableEq

namespace Token

def isTerminator (t : Token) : Bool :=
  t.quoting == .bare && t.text == "/"

def isComment (t : Token) : Bool :=
  t.quoting == .bare && t.text.toList.take 2 == ['-', '-']

def isQuoted (t : Token) : Bool :=
  t.quoting != .bare

end Token

/-- What a token is cut from: its quoting, the bytes of its text, and how many bytes it covers. -/
structure Lexeme where
  quoting : Quoting
  content : List UInt8
  size : Nat
  deriving Repr, DecidableEq

namespace Lexeme

/-- The token whose opening quote was just read. -/
def afterQuote (body : List UInt8) : Lexeme :=
  let inside := body.takeWhile fun b => b != Byte.quote && b != Byte.newline
  if (body.drop inside.length).head? = some Byte.quote then
    ⟨.quoted, inside, inside.length + 2⟩
  else
    ⟨.unterminated, Cursor.trimReturns inside, inside.length + 1⟩

/-- The token that starts with `first`. A byte that ends bare tokens is one on its own here. -/
def ofBytes (first : UInt8) (rest : List UInt8) : Lexeme :=
  if first == Byte.quote then afterQuote rest
  else if Byte.endsBare first then ⟨.bare, [first], 1⟩
  else
    let word := first :: rest.takeWhile (!Byte.endsBare ·)
    ⟨.bare, word, word.length⟩

theorem size_afterQuote_pos (body : List UInt8) : 0 < (afterQuote body).size := by
  unfold afterQuote
  dsimp only
  split <;> simp

theorem size_ofBytes_pos (first : UInt8) (rest : List UInt8) : 0 < (ofBytes first rest).size := by
  unfold ofBytes
  split
  · exact size_afterQuote_pos rest
  · split <;> simp

end Lexeme

namespace Cursor

/-- The next token. Comments are tokens here. -/
def readToken (c : Cursor) : Option Token × Cursor :=
  let here := c.skipBlanks
  match here.rest with
  | [] => (none, here)
  | first :: rest =>
    let lexeme := Lexeme.ofBytes first rest
    (some ⟨Text.ofBytes lexeme.content, lexeme.quoting, here.pos⟩, here.forward lexeme.size)

theorem readToken_lt {c c' : Cursor} {t : Token} (h : c.readToken = (some t, c')) :
    c'.remaining < c.remaining := by
  simp only [readToken] at h
  split at h
  · simp at h
  · next first rest more =>
    simp only [Prod.mk.injEq] at h
    rw [← h.2]
    have moves := Lexeme.size_ofBytes_pos first rest
    calc
      _ < c.skipBlanks.remaining := remaining_forward_lt (by simp [more]) moves
      _ ≤ c.remaining := remaining_forward_le c _

/-- All tokens that are left, and the cursor after them. -/
def readTokens (c : Cursor) : List Token × Cursor :=
  match h : c.readToken with
  | (none, c') => ([], c')
  | (some t, c') =>
    have := readToken_lt h
    let (ts, c'') := c'.readTokens
    (t :: ts, c'')
termination_by c.remaining

end Cursor

end ReservoirDeck
