import ReservoirDeck.Keyword.Gregorian
import ReservoirDeck.Proofs.Reading.Deck
import ReservoirDeck.Proofs.Reading.Keywords

/-!
Reading ends on every text. In all loops a round stays within the text and reads something unless it is
the last, so there are no more rounds than bytes ahead.
-/

namespace ReservoirDeck

variable {ι α τ σ : Type}

/-- A loop that ends wherever it is entered, after rounds that stay within the text. It is its rounds one
after the other, and is never left because a round read nothing. -/
structure EndsWithinText (step : ι → ReadM (ι ⊕ α)) : Prop where
  rounds (i : ι) : ReadM.iterate step i = step i >>= Sum.elim (ReadM.iterate step) pure
  within (i : ι) (r : DeckReader) : r.cursor.Reaches (Run.state (step i r)).cursor
  moves {i i' : ι} {r r' : DeckReader} (h : step i r = .ok (.inl i') r') : r.pos < r'.pos
  ends (i : ι) (r : DeckReader) :
    ∃ n ≤ r.remaining, Run.Ends step n i r (ReadM.iterate step i r)

theorem EndsWithinText.of_reaches {step : ι → ReadM (ι ⊕ α)}
    (hreaches : ∀ i (r : DeckReader), r.cursor.Reaches (Run.state (step i r)).cursor)
    (hmoves : ∀ i, ReadM.RoundProgresses (step i)) : EndsWithinText step where
  rounds := ReadM.iterate_eq hmoves
  within := hreaches
  moves {i i' r r'} h := by
    have hround := hreaches i r
    rw [h] at hround
    exact hround.pos_lt (hmoves i h)
  ends := ReadM.iterate_ends hmoves

theorem EndsWithinText.of_orderly {step : ι → ReadM (ι ⊕ α)} (hstep : ∀ i, (step i).Orderly)
    (hmoves : ∀ i, ReadM.RoundProgresses (step i)) : EndsWithinText step :=
  .of_reaches (fun i r => ((hstep i).reaches r).cursor) hmoves

namespace Deck

variable {d d' : Deck Float} {r r' r₁ : DeckReader} {t : Token}

theorem NameRound.lt [Calendar] (htoken : r.token? = (some t, r₁)) (hround : NameRound d t r₁ r' d') :
    r'.remaining < r.remaining := by
  have hlt := DeckReader.token?_lt htoken
  have hline := r₁.reaches_skipLine.cursor.remaining_le
  cases hround with
  | units declared passed =>
    rw [passed]
    exact Nat.lt_of_le_of_lt hline hlt
  | keyword undeclared body =>
    have hbody := (Keyword.reaches_of_read body).remaining_le
    exact Nat.lt_of_le_of_lt (Nat.le_trans hbody hline) hlt

theorem readStep_progresses [Calendar] (d : Deck Float) : ReadM.RoundProgresses (readStep d) := by
  intro r d' r' h
  obtain ⟨t, r₁, htoken, -, hround⟩ := readStep_eq_next h
  exact hround.lt htoken

/-- A round stops after a token, or passes its line and the body of a keyword. -/
theorem reaches_readStep [Calendar] (d : Deck Float) (r : DeckReader) :
    r.cursor.Reaches (Run.state (readStep d r)).cursor := by
  rw [readStep, Run.bind_modifyGet_eq]
  rcases htoken : r.token? with ⟨_ | t, r₁⟩
  · exact (DeckReader.reaches_token? htoken).cursor
  have hname := (DeckReader.reaches_token? htoken).cursor
  have hline := hname.trans r₁.reaches_skipLine.cursor
  dsimp only
  split
  · simp only [ReadM.skipLine, Run.bind_modify_eq]
    cases UnitSystem.ofKeyword? t.text with
    | some units => exact hline
    | none =>
      have hbody := Keyword.reaches_read t.text r₁.skipLine
      change r.cursor.Reaches (Run.state
        (((fun k => Sum.inl (d.push k)) <$> Keyword.read t.text) r₁.skipLine)).cursor
      rw [Run.state_map]
      exact hline.trans hbody
  · exact hname

end Deck

namespace RecordM

theorem orderly_skipItem (skipped n : Nat) : (skipItem skipped n).Orderly := by
  refine (orderly_ofRead ReadM.orderly_item).bind fun t? => ?_
  cases t? <;> exact (orderly_setStanding _).bind fun _ => .pure _

theorem orderly_skipStep (p : Nat × Nat) : (skipStep p).Orderly := by
  obtain ⟨skipped, n⟩ := p
  rw [skipStep]
  split
  · exact .pure _
  · refine .bind .get fun s => ?_
    split
    · exact .pure _
    · exact (orderly_setStanding _).bind fun _ => .pure _
    · exact (orderly_setStanding _).bind fun _ => orderly_skipItem _ _

theorem skip_ends_of_ne_zero {n : Nat} (hn : n ≠ 0) (s : RecordReader) :
    ∃ m ≤ n, Run.Ends skipStep m (0, n) s (skip n s) := by
  have h := skip_ends 0 n s (.inl hn)
  rwa [show (0 + ·) = (id : Nat → Nat) from funext Nat.zero_add, id_map] at h

end RecordM

/-- The loops of reading, by what one round of them does. The fields of a record are read by any
sequence of calls, and those of a row by the fields of a keyword. -/
inductive Loop [Calendar] : {ι α : Type} → (ι → ReadM (ι ⊕ α)) → Prop
  | deck : Loop Deck.readStep
  | namedRecords {α : Type} {fields : String → RecordM α} (h : ∀ leader, (fields leader).FieldCalls) :
    Loop (ReadM.namedStep fields)
  | rows {kind : Kind} {fields : List Field} (h : kind.layout = .rows fields) :
    Loop (ReadM.rowStep (Record.read "" fields))
  | regionTable {columns : Nat} (h : columns ≠ 0) : Loop (ReadM.tableStep columns)
  | pvtTable : Loop ReadM.pvtStep
  | endpointTable {kind : Kind} {layout : DepthLayout} (h : kind.layout = .depth layout) :
    Loop (ReadM.depthStep layout)
  | values {τ : Type} [DeckNumber τ] : Loop (valueStep τ)
  | slots {τ σ : Type} [DeckNumber τ] (mark : τ → σ) : Loop (fillStep mark)
  | finish : Loop passStep
  | ignored : Loop Ignored.step

theorem Loop.endsWithinText [Calendar] {step : ι → ReadM (ι ⊕ α)} (h : Loop step) : EndsWithinText step := by
  cases h with
  | deck => exact .of_reaches Deck.reaches_readStep Deck.readStep_progresses
  | namedRecords h =>
    exact .of_orderly (fun records => (ReadM.calls_namedStep h records).orderly)
      (ReadM.namedStep_progresses h)
  | @rows kind fields h =>
    have hw := h ▸ kind.isWritable_layout
    rw [Layout.isWritable, Bool.and_eq_true] at hw
    exact .of_orderly (fun rows => (ReadM.calls_rowStep (Record.calls_read "" fields) rows).orderly)
      (ReadM.rowStep_progresses (Record.read_progresses hw.2 ""))
  | regionTable h =>
    exact .of_orderly (fun t => (ReadM.calls_tableStep _ t).orderly) (ReadM.tableStep_progresses h)
  | pvtTable => exact .of_orderly (fun t => (ReadM.calls_pvtStep t).orderly) ReadM.pvtStep_progresses
  | @endpointTable kind layout h =>
    have hordered := Layout.isOrdered_of_isWritable (h ▸ kind.isWritable_layout)
    exact .of_orderly (fun t => (ReadM.calls_depthStep layout t).orderly)
      (ReadM.depthStep_progresses hordered.width_ne_zero)
  | values => exact .of_orderly (fun vs => (itemCalls_valueStep vs).orderly) valueStep_progresses
  | slots mark =>
    exact .of_orderly (fun slots => (itemCalls_fillStep mark slots).orderly) (fillStep_progresses mark)
  | finish => exact .of_orderly (fun u => (itemCalls_passStep u).orderly) passStep_progresses
  | ignored => exact .of_orderly Ignored.orderly_step Ignored.step_progresses

/-- Every loop ends on every text. Values, slots and the end of a record are read in rounds that read
an item each. When items are passed over, what is left to pass gets less in every round, and a round
stays within the text. So a deck is read in no more rounds than its text has bytes. -/
theorem loops_end [Calendar] :
    (∀ {ι α : Type} {step : ι → ReadM (ι ⊕ α)}, Loop step → EndsWithinText step) ∧
      (∀ (τ : Type) [DeckNumber τ], readValues τ = ReadM.iterate (valueStep τ) []) ∧
      RecordM.skipToTerminator = ReadM.iterate passStep () ∧
      (∀ (p : Nat × Nat) (s : RecordReader),
        s.reader.cursor.Reaches (Run.state (RecordM.skipStep p s)).reader.cursor ∧
          ∀ p' s', RecordM.skipStep p s = .ok (.inl p') s' → p'.2 < p.2) ∧
      (∀ (n : Nat) (s : RecordReader), n ≠ 0 →
        ∃ m ≤ n, Run.Ends RecordM.skipStep m (0, n) s (RecordM.skip n s)) ∧
      ∀ text : String, ∃ n ≤ (Text.bytes text).length,
        Run.Ends Deck.readStep n (.empty .metric) (.ofString text) (Deck.readAll (.ofString text)) :=
  ⟨fun h => h.endsWithinText, fun _ => readValues_eq_iterate, skipToTerminator_eq_iterate,
    fun p s => ⟨((RecordM.orderly_skipStep p).reaches s).cursor,
      fun _ _ h => (RecordM.skipStep_next h).1⟩,
    fun _ s hn => RecordM.skip_ends_of_ne_zero hn s,
    fun text => (Loop.deck.endsWithinText.ends _ (.ofString text)).imp fun _ h =>
      ⟨Nat.le_trans h.1 (Text.length_held_le text), h.2⟩⟩

/-- A quote that is left open, a NUL and a record without a slash. -/
theorem loops_end_pvtw :
    (∃ fields, Kind.pvtw.layout = .rows fields ∧
      EndsWithinText (ReadM.rowStep (Record.read "" fields))) ∧
    ∃ n ≤ 24, Run.Ends Deck.readStep n (.empty .metric) (.ofString "PVTW\n1 2 3\nDATES\n'1\x00 JAN")
      (Deck.readAll (.ofString "PVTW\n1 2 3\nDATES\n'1\x00 JAN")) := by
  obtain ⟨hloop, -, -, -, -, hdeck⟩ := loops_end
  have hsize : (Text.bytes "PVTW\n1 2 3\nDATES\n'1\x00 JAN").length = 24 := by decide +kernel
  exact ⟨⟨_, rfl, hloop (@Loop.rows _ .pvtw _ rfl)⟩, hsize ▸ hdeck _⟩

end ReservoirDeck
