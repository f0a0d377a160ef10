import Mathlib.Data.List.Forall2
import ReservoirDeck.Proofs.Decimal.Reals
import ReservoirDeck.Proofs.Reading.Tokens
import ReservoirDeck.Proofs.RoundTrip.Written
import ReservoirDeck.Proofs.Text.Tiling

/-!
What is written is read as the same tokens. A call of the writer adds words, and blanks where one word
would run into the next, so the tokens of a text are those of its calls.
-/

namespace ReservoirDeck

open Text (bytes)

namespace Writer

/-- A value that can be written. -/
inductive Value
  | real (x : Float)
  | int (n : Int32)
  | name (s : String)

/-- One field of a record. -/
inductive FieldValue
  | plain (v : Value)
  | tagged (v : Defaulted Value)

inductive Call
  | field (v : FieldValue)
  | fields (vs : List FieldValue)
  | newline
  | endRecord
  | endList

def Value.token : Value → String
  | .real x => deckText x
  | .int n => integerText n
  | .name s => nameToken s

def FieldValue.token : FieldValue → String
  | .plain v => v.token
  | .tagged v => Defaulted.token Value.token v

def perform (w : Writer) : Call → Writer
  | .field v => w.token v.token
  | .fields vs => w.tokens (vs.map FieldValue.token)
  | .newline => w.newline
  | .endRecord => w.endRecord
  | .endList => w.endList

def textOf (calls : List Call) : String :=
  (calls.foldl perform empty).text

/-- The text and the quoting of a token. -/
abbrev Reading :=
  String × Quoting

def Value.reading : Value → Reading
  | .real x => (deckText x, .bare)
  | .int n => (integerText n, .bare)
  | .name s => (s, if '\'' ∈ s.toList then .bare else .quoted)

def FieldValue.reading : FieldValue → Reading
  | .plain v => v.reading
  | .tagged (.given v) => v.reading
  | .tagged (.missing _) => ("1*", .bare)

def Call.readings : Call → List Reading
  | .field v => [v.reading]
  | .fields vs => vs.map FieldValue.reading
  | .newline => []
  | .endRecord | .endList => [("/", .bare)]

/-- The value has a text that can be read back. -/
def Value.Readable : Value → Prop
  | .real x => x.isFinite = true
  | .int _ => True
  | .name s => '\n' ∉ s.toList ∧ ('\'' ∈ s.toList → readsBackBare s.toList = true)

def FieldValue.Readable : FieldValue → Prop
  | .plain v => v.Readable
  | .tagged (.given v) => v.Readable
  | .tagged (.missing _) => True

def Call.Readable : Call → Prop
  | .field v => v.Readable
  | .fields vs => ∀ v ∈ vs, v.Readable
  | .newline | .endRecord | .endList => True

/-- The token is read as it says. -/
def ReadsAs (token : String) (reading : Reading) : Prop :=
  Word token reading.1 reading.2

theorem Value.readsAs {v : Value} (h : v.Readable) : ReadsAs v.token v.reading := by
  cases v with
  | real x => exact (entryWord_deckText h).word
  | int n => exact (entryWord_integerText n).word
  | name s =>
    obtain ⟨hline, hbare⟩ := h
    by_cases hmem : '\'' ∈ s.toList
    · have hne : s ≠ "" := by
        rintro rfl
        cases hmem
      have hs : BareText s := ⟨hne, hbare hmem⟩
      simp only [token, reading, if_pos hmem, nameToken_of_bare hmem hs]
      exact .bare hs
    · have hs : QuotableText s := fun c hc =>
        ⟨ne_of_mem_of_not_mem hc hmem, ne_of_mem_of_not_mem hc hline⟩
      simp only [token, reading, if_neg hmem, nameToken_of_quotable hs]
      exact .quoted hs

theorem FieldValue.readsAs {v : FieldValue} (h : v.Readable) : ReadsAs v.token v.reading := by
  match v with
  | .plain v => exact Value.readsAs h
  | .tagged (.given v) => exact Value.readsAs h
  | .tagged (.missing _) => exact .bare bareText_default

def Call.words : Call → List String
  | .field v => [v.token]
  | .fields vs => vs.map FieldValue.token
  | .newline => []
  | .endRecord | .endList => ["/"]

theorem Call.readsAs {call : Call} (h : call.Readable) :
    List.Forall₂ ReadsAs call.words call.readings := by
  cases call with
  | field v => exact .cons (FieldValue.readsAs h) .nil
  | fields vs =>
    rw [words, readings, List.forall₂_map_left_iff, List.forall₂_map_right_iff,
      List.forall₂_same]
    exact fun v hv => FieldValue.readsAs (h v hv)
  | newline => exact .nil
  | endRecord | endList => exact .cons .slash .nil

theorem readsAs_calls {calls : List Call} (h : ∀ call ∈ calls, call.Readable) :
    List.Forall₂ ReadsAs (calls.flatMap Call.words) (calls.flatMap Call.readings) := by
  induction calls with
  | nil => exact .nil
  | cons call calls ih =>
    obtain ⟨hcall, hcalls⟩ := List.forall_mem_cons.mp h
    exact List.rel_append (Call.readsAs hcall) (ih hcalls)

/-- The text is these words. Blanks come after them if the line is empty. -/
def Holds (w : Writer) (ws : List String) : Prop :=
  ∃ z gap, bytes w.text = z ++ gap ∧ Spells ws z ∧ Blank gap ∧
    (w.lineEmpty = true → ws = [] ∨ gap ≠ [])

theorem holds_empty : empty.Holds [] :=
  ⟨[], [], rfl, .nil, blank_nil, fun _ => .inl rfl⟩

variable {w : Writer} {ws : List String}

theorem Holds.tokens (h : w.Holds ws) (ts : List String) : (w.tokens ts).Holds (ws ++ ts) := by
  cases ts with
  | nil => simpa [Writer.tokens] using h
  | cons t ts =>
    obtain ⟨z, gap, htext, hz, hgap, hline⟩ := h
    obtain ⟨hadded, hempty⟩ := bytes_tokens w (t :: ts)
    have hspells := (spells_spelled w.lineEmpty (t :: ts)).gap hgap (List.cons_ne_nil t ts)
    have hsep : ws ≠ [] → Separated (gap ++ spelled w.lineEmpty (t :: ts)) := by
      intro hws
      cases hw : w.lineEmpty with
      | true => exact hgap.separated ((hline hw).resolve_left hws) _
      | false => exact hgap.separated_append (separated_spelled (t :: ts))
    refine ⟨_, [], ?_, hz.append hspells hsep, blank_nil, ?_⟩
    · rw [hadded, htext, List.append_assoc, List.append_nil]
    · simp [hempty]

theorem Holds.newline (h : w.Holds ws) : w.newline.Holds ws := by
  obtain ⟨z, gap, htext, hz, hgap, -⟩ := h
  have hbreak : bytes "\n" = [Byte.newline] := rfl
  refine ⟨z, gap ++ [Byte.newline], ?_, hz, ?_, fun _ => .inr (by simp)⟩
  · simp [Writer.newline, htext, hbreak]
  · exact fun b hb => (List.mem_append.mp hb).elim (hgap b) (blank_newline b)

theorem Holds.endRecord (h : w.Holds ws) : w.endRecord.Holds (ws ++ ["/"]) :=
  (h.tokens ["/"]).newline

theorem Holds.endList (h : w.Holds ws) : w.endList.Holds (ws ++ ["/"]) := by
  obtain ⟨z, gap, htext, hz, hgap, -⟩ := h
  have hslash : Spells ["/"] (gap ++ (bytes "/" ++ [])) :=
    .cons hgap separated_nil .nil
  have hsep : Separated (gap ++ (bytes "/" ++ [])) :=
    hgap.separated_append (separated_cons.mpr (by decide))
  have hbreak : bytes "\n" = [Byte.newline] := rfl
  refine ⟨_, [Byte.newline], ?_, hz.append hslash fun _ => hsep, blank_newline, fun _ => .inr (by simp)⟩
  simp [Writer.endList, Writer.line, htext, hbreak]

theorem Holds.perform (h : w.Holds ws) (call : Call) : (w.perform call).Holds (ws ++ call.words) := by
  cases call with
  | field v => exact h.tokens [v.token]
  | fields vs => exact h.tokens (vs.map FieldValue.token)
  | newline =>
    rw [Call.words, List.append_nil]
    exact h.newline
  | endRecord => exact h.endRecord
  | endList => exact h.endList

theorem Holds.run (h : w.Holds ws) (calls : List Call) :
    (calls.foldl Writer.perform w).Holds (ws ++ calls.flatMap Call.words) := by
  induction calls generalizing w ws with
  | nil => simpa using h
  | cons call calls ih => simpa using ih (h.perform call)

end Writer

/-- Cutting tokens with comments skipped, until there is none, gives these. -/
inductive DeckReader.TokensFrom : DeckReader → List Token → Prop
  | done {r r' : DeckReader} (h : r.token? = (none, r')) : TokensFrom r []
  | next {r r' : DeckReader} {t : Token} {ts : List Token} (h : r.token? = (some t, r'))
    (hrest : TokensFrom r' ts) : TokensFrom r (t :: ts)

def Token.reading (t : Token) : Writer.Reading :=
  (t.text, t.quoting)

theorem Word.isComment {w t : String} {q : Quoting} (h : Word w t q) (start : Nat) :
    Token.isComment ⟨t, q, start⟩ = false := by
  cases h with
  | slash => simp [Token.isComment]
  | bare h =>
    have hs := h.2
    simp only [readsBackBare, Bool.and_eq_true, bne_iff_ne] at hs
    simp [Token.isComment, hs.1.2]
  | quoted h => rfl

theorem Blank.readToken {c : Cursor} (h : Blank c.rest) : ∃ c', c.readToken = (none, c') := by
  have hnil : c.skipBlanks.rest = [] := by
    rw [h.skipBlanks, Cursor.rest_forward, List.drop_length]
  refine ⟨c.skipBlanks, ?_⟩
  simp only [Cursor.readToken]
  rw [hnil]

theorem Blank.token? {r : DeckReader} (h : Blank r.cursor.rest) : ∃ r', r.token? = (none, r') := by
  have hsize : Cursor.triviaSize false r.cursor.rest = r.cursor.rest.length := by
    have h := triviaSize_append h []
    rwa [List.append_nil] at h
  have hnil : r.skipTrivia.cursor.rest = [] := by
    rw [DeckReader.skipTrivia, DeckReader.moveTo, Cursor.skipTrivia, Cursor.rest_forward, hsize,
      List.drop_length]
  exact ⟨_, DeckReader.token?_of_nil hnil⟩

theorem Spells.tokens {ws : List String} {readings : List Writer.Reading} {z gap : List UInt8}
    (hz : Spells ws z) (h : List.Forall₂ Writer.ReadsAs ws readings) (hgap : Blank gap)
    {r : DeckReader} (hr : r.cursor.rest = z ++ gap) :
    ∃ ts c', r.cursor.TokensFrom ts c' ∧ r.TokensFrom ts ∧ ts.map Token.reading = readings ∧
      ∀ t ∈ ts, t.isComment = false := by
  induction hz generalizing r readings with
  | nil =>
    cases h
    obtain ⟨c', hc'⟩ := Blank.readToken (c := r.cursor) (by rwa [hr])
    obtain ⟨r', hr'⟩ := Blank.token? (r := r) (by rwa [hr])
    exact ⟨[], c', .done hc', .done hr', rfl, by simp⟩
  | @cons before x w ws hbefore hx _ ih =>
    cases h with
    | @cons _ reading _ readings hword hwords =>
      rw [List.append_assoc, List.append_assoc] at hr
      have hsep : Separated (x ++ gap) := by
        have hend := hgap.separated_append separated_nil
        rw [List.append_nil] at hend
        exact hx.append hend
      have hread := Word.readToken hword hbefore hr hsep
      have htoken := Word.token? hword hbefore hr hsep
      rw [← List.length_append] at hread htoken
      have hrest : (r.forward (before ++ bytes w).length).cursor.rest = x ++ gap := by
        rw [← List.append_assoc] at hr
        exact DeckReader.rest_forward_length hr
      obtain ⟨ts, c', hcursor, hreader, hreadings, hcomment⟩ := ih hwords hrest
      refine ⟨_ :: ts, c', .next hread hcursor, .next htoken hreader, ?_, ?_⟩
      · rw [List.map_cons, hreadings]
        rfl
      · exact List.forall_mem_cons.mpr ⟨hword.isComment _, hcomment⟩

namespace Writer

/-- Every item that is written is one token, and none of them is taken for a comment. -/
theorem tokens_textOf (calls : List Call) (h : ∀ call ∈ calls, call.Readable)
    (hfits : Text.Fits (textOf calls)) :
    (Cursor.ofString (textOf calls)).readTokens.1.map Token.reading = calls.flatMap Call.readings ∧
      (∀ t ∈ (Cursor.ofString (textOf calls)).readTokens.1, t.isComment = false) ∧
      (DeckReader.ofString (textOf calls)).TokensFrom
        (Cursor.ofString (textOf calls)).readTokens.1 := by
  obtain ⟨z, gap, htext, hz, hgap, -⟩ := holds_empty.run calls
  rw [List.nil_append] at hz
  have hrest := (Cursor.rest_ofString hfits).trans htext
  obtain ⟨ts, c', hcursor, hreader, hreadings, hcomment⟩ :=
    hz.tokens (readsAs_calls h) hgap (r := DeckReader.ofString (textOf calls)) hrest
  rw [DeckReader.ofString] at hcursor
  rw [hcursor.readTokens_eq]
  exact ⟨hreadings, hcomment, hreader⟩

/-- Names with comment marks, slashes and apostrophes, next to the ends of lists and records. -/
theorem tokens_textOf_names :
    let calls : List Call := [.field (.plain (.name "--a/b *c")),
      .fields [.tagged (.missing (.int 5)), .plain (.int (-3))], .newline,
      .field (.plain (.name "o'x--")), .endList, .fields [.plain (.real 0.5), .plain (.name "")],
      .endRecord]
    (∀ call ∈ calls, call.Readable) ∧ Text.Fits (textOf calls) ∧
      (Cursor.ofString (textOf calls)).readTokens.1.map Token.reading =
        [("--a/b *c", .quoted), ("1*", .bare), ("-3", .bare), ("o'x--", .bare), ("/", .bare),
          (deckText 0.5, .bare), ("", .quoted), ("/", .bare)] := by
  intro calls
  have hreal : (0.5 : Float).isFinite = true := by decide +kernel
  have hcalls : ∀ call ∈ calls, call.Readable := by
    simp [calls, Call.Readable, FieldValue.Readable, Value.Readable, readsBackBare, endsBareChar,
      hreal]
  have hfits : Text.Fits (textOf calls) := by decide +kernel
  refine ⟨hcalls, hfits, (tokens_textOf calls hcalls hfits).1.trans ?_⟩
  have hint : integerText (-3) = "-3" := by decide
  simp [calls, Call.readings, FieldValue.reading, Value.reading, hint]

end Writer

end ReservoirDeck
