import ReservoirDeck.Proofs.RoundTrip.Records
import ReservoirDeck.Proofs.RoundTrip.Written

/-!
Lists of records and rows read back. A list of records ends with its own slash, and rows end where
the name of another keyword or the end of the text comes next.
-/

namespace ReservoirDeck

variable {α β σ : Type}

/-- The name of a keyword comes next, or nothing. -/
def NextName (rest : List UInt8) : Prop :=
  ∀ b ∈ rest.head?, Byte.isLetter b = true

theorem nextName_bytes {s : String} (h : s.toList.head?.all Char.isAlpha = true) :
    NextName (Text.bytes s) := by
  intro b hb
  cases hs : s.toList with
  | nil =>
    obtain rfl := String.toList_eq_nil_iff.mp hs
    cases hb
  | cons c cs =>
    rw [hs] at h
    have hlow : c.toNat < 128 := toNat_lt_of_isAlpha (by simpa using h)
    obtain ⟨b', bs, hbytes, hfirst, -⟩ := Text.bytes_cons hs
    rw [hbytes] at hb
    obtain rfl : b' = b := by simpa using hb
    have hall : ∀ c : Char, c.toNat < 128 → c.isAlpha = true →
        Byte.isLetter (byteOfChar c) = true := forall_ascii_of_lt (by decide)
    rw [(hfirst hlow).1]
    exact hall c hlow (by simpa using h)

theorem NextName.take {rest : List UInt8} (h : NextName rest) (n : Nat) : NextName (rest.take n) := by
  intro b hb
  rw [List.head?_take] at hb
  split at hb
  · cases hb
  · exact h b hb

/-- Wherever these bytes come before a name, they are read as the value, and nothing behind them
is. -/
def Reads (x : ReadM α) (z : List UInt8) (a : α) : Prop :=
  ∀ (r : DeckReader) (rest : List UInt8), r.cursor.rest = z ++ rest → NextName rest →
    x r = .ok a (r.forward z.length)

theorem isLetter_keyword {b : UInt8} (h : Byte.isLetter b = true) :
    Byte.isBlank b = false ∧ b ≠ Byte.dash ∧ Lookahead.ofByte b = .keyword := by
  have hall : ∀ b, Byte.isLetter b = true →
      Byte.isBlank b = false ∧ b ≠ Byte.dash ∧ Lookahead.ofByte b = .keyword :=
    Byte.forall_of_digits (by decide)
  exact hall b h

theorem isLetter_of_keyword {b : UInt8} (h : Lookahead.ofByte b = .keyword) :
    Byte.isLetter b = true := by
  have hall : ∀ b, Lookahead.ofByte b = .keyword → Byte.isLetter b = true :=
    Byte.forall_of_digits (by decide)
  exact hall b h

namespace ReadM

theorem lookahead_eq {r : DeckReader} {gap : List UInt8} {first : UInt8} {tl : List UInt8}
    (hgap : Blank gap) (hr : r.cursor.rest = gap ++ first :: tl)
    (hblank : Byte.isBlank first = false)
    (hdash : ¬ (first = Byte.dash ∧ tl.head? = some Byte.dash)) {next : Lookahead}
    (hnext : Lookahead.ofByte first = next) (hknown : ∀ b, next ≠ .other b) :
    lookahead r = .ok next (r.forward gap.length) := by
  have hhere : (r.forward gap.length).cursor.rest = first :: tl := DeckReader.rest_forward_length hr
  have hcursor : (r.forward gap.length).cursor.lookahead = next := by
    have hstay : (r.forward gap.length).cursor.skipTrivia = (r.forward gap.length).cursor := by
      rw [Cursor.skipTrivia, hhere, triviaSize_eq_zero hblank hdash, Cursor.forward_zero]
    rw [Cursor.lookahead, hstay, hhere]
    exact hnext
  simp only [lookahead, skipTrivia, Run.bind_modify_eq, Run.bind_get_eq,
    skipTrivia_of_gap hgap hr hblank hdash, hcursor]
  cases next with
  | other b => exact absurd rfl (hknown b)
  | _ => rfl

theorem lookahead_data {w : String} {ws : List String} (hw : DataText w) {r : DeckReader}
    {z rest : List UInt8} (hz : Spells (w :: ws) z) (hr : r.cursor.rest = z ++ rest)
    (hrest : Separated rest) :
    ∃ gap z', z = gap ++ z' ∧ Spells (w :: ws) z' ∧
      lookahead r = .ok .data (r.forward gap.length) := by
  cases hz with
  | @cons gap x _ _ hgap hx hws =>
    refine ⟨gap, Text.bytes w ++ x, rfl, .cons blank_nil hx hws, ?_⟩
    obtain ⟨first, tl, hb, hblank, hdash, -⟩ := (Word.bare hw.bare).lexeme (hx.append hrest)
    rw [hb, List.append_assoc, List.append_assoc, List.cons_append] at hr
    exact lookahead_eq hgap hr hblank hdash (hw.data first (by simp [hb])) (by simp)

theorem lookahead_slash {r : DeckReader} {gap rest : List UInt8} (hgap : Blank gap)
    (hr : r.cursor.rest = gap ++ Byte.slash :: rest) :
    lookahead r = .ok .terminator (r.forward gap.length) :=
  lookahead_eq hgap hr rfl (fun h => absurd h.1 (by decide)) (by decide) (by simp)

theorem lookahead_name {r : DeckReader} (h : NextName r.cursor.rest) :
    lookahead r = .ok .keyword r ∨ lookahead r = .ok .endOfInput r := by
  cases hr : r.cursor.rest with
  | nil =>
    right
    have hskip : r.skipTrivia = r := by
      simp [DeckReader.skipTrivia, DeckReader.moveTo, Cursor.skipTrivia, hr, Cursor.triviaSize]
    have hnext : r.cursor.lookahead = .endOfInput := by
      simp [Cursor.lookahead, Cursor.skipTrivia, hr, Cursor.triviaSize]
    simp only [lookahead, skipTrivia, Run.bind_modify_eq, Run.bind_get_eq, hskip, hnext,
      Run.pure_eq]
  | cons b tl =>
    left
    rw [hr] at h
    obtain ⟨hblank, hdash, hnext⟩ := isLetter_keyword (h b rfl)
    exact lookahead_eq blank_nil hr hblank (fun h => hdash h.1) hnext (by simp)

theorem iterate_of_forward {step : σ → ReadM (σ ⊕ α)} {s s' : σ} {r : DeckReader} {n : Nat}
    (h : step s r = .ok (.inl s') (r.forward n)) (hn : 0 < n) (hr : r.cursor.rest ≠ []) :
    iterate step s r = iterate step s' (r.forward n) :=
  iterate_of_next h (Cursor.remaining_forward_lt hr hn)

theorem iterate_items (step : σ → ReadM (σ ⊕ α)) (state : List β → σ) (items : List β)
    {z : β → List UInt8}
    (h : ∀ b ∈ items, ∀ done r rest, r.cursor.rest = z b ++ rest →
      iterate step (state done) r = iterate step (state (done ++ [b])) (r.forward (z b).length))
    (done : List β) {r : DeckReader} {rest : List UInt8}
    (hr : r.cursor.rest = items.flatMap z ++ rest) :
    iterate step (state done) r =
      iterate step (state (done ++ items)) (r.forward (items.flatMap z).length) := by
  induction items generalizing done r with
  | nil => simp
  | cons b items ih =>
    rw [List.flatMap_cons, List.append_assoc] at hr
    have hrest := ih (fun c hc => h c (List.mem_cons_of_mem b hc)) (done ++ [b])
      (DeckReader.rest_forward_length hr)
    rw [h b List.mem_cons_self done r _ hr, hrest, DeckReader.forward_forward]
    simp

theorem recordText_ne_nil (ws : List String) : recordText ws ≠ [] := by
  simp [recordText]

theorem rest_recordText {r : DeckReader} {ws : List String} {rest : List UInt8}
    (hr : r.cursor.rest = recordText ws ++ rest) :
    r.cursor.rest = recordLine ws ++ Byte.newline :: rest := by
  simpa [recordText] using hr

theorem reads_record {x : RecordM α} {ws : List String} {a : α} (hx : RecordReads x ws a) :
    Reads (ReadM.record x) (recordText ws) a := by
  intro r rest hr _
  rw [record_reads hx (spells_recordLine ws) (rest_recordText hr)]
  simp [recordText]

/-- These words start with one that is read as the name of a record, which says how the others are
read. -/
def Leads (fields : String → RecordM α) (ws : List String) (a : α) : Prop :=
  ∃ w t q vs, ws = w :: vs ∧ Word w t q ∧ (∀ start, Token.isTerminator ⟨t, q, start⟩ = false) ∧
    RecordReads (fields t) vs a

theorem namedStep_record {fields : String → RecordM α} {ws : List String} {a : α}
    (h : Leads fields ws a) (done : List α) {r : DeckReader} {rest : List UInt8}
    (hr : r.cursor.rest = recordText ws ++ rest) :
    namedStep fields done r = .ok (.inl (done ++ [a])) (r.forward (recordText ws).length) := by
  obtain ⟨w, t, q, vs, rfl, hw, hend, hx⟩ := h
  have hz := spells_recordLine (w :: vs)
  obtain ⟨x, y, hxy, hword, hvs, hsep⟩ := hz.uncons
  have hr' : r.cursor.rest = x ++ (y ++ Byte.newline :: rest) := by
    rw [rest_recordText hr, hxy, List.append_assoc]
  obtain ⟨start, htoken⟩ := hw.token hword hr' (hsep.append (separated_cons.mpr rfl))
  have hrecord := record_reads hx hvs (DeckReader.rest_forward_length hr')
  rw [namedStep, Run.bind_of_ok _ htoken, hend, if_neg Bool.false_ne_true, Run.bind_of_ok _ hrecord,
    DeckReader.forward_forward]
  simp [recordText, hxy]

theorem namedStep_end (fields : String → RecordM α) (done : List α) {r : DeckReader}
    {rest : List UInt8} (hr : r.cursor.rest = [Byte.slash, Byte.newline] ++ rest) :
    namedStep fields done r = .ok (.inr done) (r.forward 2) := by
  have hz : Spells ["/"] [Byte.slash] := .cons blank_nil (by simp [Separated]) .nil
  obtain ⟨t, r', htoken, ht, hline⟩ := slash_line hz hr
  have hread : token r = .ok t r' := by
    rw [token, Run.bind_modifyGet_eq, htoken]
    rfl
  rw [namedStep, Run.bind_of_ok _ hread, ht, if_pos rfl, skipLine, Run.bind_modify_eq, hline]
  rfl

theorem namedRecords_reads {fields : String → RecordM α} {words : α → List String} {as : List α}
    (h : ∀ a ∈ as, Leads fields (words a) a) :
    Reads (namedRecords fields)
      (as.flatMap (fun a => recordText (words a)) ++ [Byte.slash, Byte.newline]) as := by
  intro r rest hr _
  rw [List.append_assoc] at hr
  have hitems := iterate_items (namedStep fields) id as
    (z := fun a => recordText (words a)) (fun a ha done r rest hr =>
      iterate_of_next (namedStep_record (h a ha) done hr)
        (DeckReader.remaining_forward_lt hr (recordText_ne_nil _))) [] hr
  have hend := namedStep_end fields as (DeckReader.rest_forward_length hr)
  have hread : iterate (namedStep fields) [] r = .ok as ((r.forward _).forward 2) :=
    hitems.trans (iterate_of_done hend)
  rw [namedRecords, hread, DeckReader.forward_forward, List.length_append]
  rfl

theorem rowStep_row {x : RecordM α} {w : String} {ws : List String} {a : α}
    (hw : DataText w) (hx : RecordReads x (w :: ws) a) (done : List α) {r : DeckReader}
    {rest : List UInt8} (hr : r.cursor.rest = recordText (w :: ws) ++ rest) :
    rowStep x done r = .ok (.inl (done ++ [a])) (r.forward (recordText (w :: ws)).length) := by
  have hr' := rest_recordText hr
  obtain ⟨gap, z, hz, hwords, hdata⟩ := lookahead_data hw (spells_recordLine (w :: ws)) hr'
    (separated_cons.mpr rfl)
  rw [hz, List.append_assoc] at hr'
  have hrow := row_reads hx hwords (DeckReader.rest_forward_length hr')
  rw [rowStep, Run.bind_of_ok _ hdata]
  simp only []
  rw [Run.bind_of_ok _ hrow, DeckReader.forward_forward]
  simp [recordText, hz]

theorem rows_reads {x : RecordM α} {words : α → List String} {as : List α} (hne : as ≠ [])
    (h : ∀ a ∈ as, ∃ w ws, words a = w :: ws ∧ DataText w ∧ RecordReads x (words a) a) :
    Reads (rows x) (as.flatMap fun a => recordText (words a)) as := by
  intro r rest hr hrest
  have hitems := iterate_items (rowStep x) id as
    (z := fun a => recordText (words a)) (fun a ha done r rest hr => by
      obtain ⟨w, ws, hws, hw, hx⟩ := h a ha
      rw [hws] at hr hx ⊢
      exact iterate_of_next (rowStep_row hw hx done hr)
        (DeckReader.remaining_forward_lt hr (recordText_ne_nil _))) [] hr
  have hdone : rowStep x as (r.forward (as.flatMap fun a => recordText (words a)).length) =
      .ok (.inr as) (r.forward (as.flatMap fun a => recordText (words a)).length) := by
    rw [← DeckReader.rest_forward_length hr] at hrest
    rcases lookahead_name hrest with hnext | hnext <;>
    · rw [rowStep, Run.bind_of_ok _ hnext]
      rfl
  have hread : iterate (rowStep x) [] r =
      .ok as (r.forward (as.flatMap fun a => recordText (words a)).length) :=
    hitems.trans (iterate_of_done hdone)
  rw [rows, Run.bind_of_ok _ hread]
  simp [hne]

end ReadM

end ReservoirDeck
