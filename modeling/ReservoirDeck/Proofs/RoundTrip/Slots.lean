import ReservoirDeck.Proofs.RoundTrip.Spelled

/-!
Runs of numbers read back. Each word of a run is a value or leaves its field out, and fills one
slot.
-/

namespace ReservoirDeck

variable {τ σ : Type} [DeckNumber τ]

/-- A bare text that numbers may start with. -/
structure DataText (s : String) : Prop where
  bare : BareText s
  data : ∀ b ∈ (Text.bytes s).head?, Lookahead.ofByte b = .data

/-- A word that gives a value, or leaves it out. -/
inductive EntryWord (τ : Type) [DeckNumber τ] : String → Option τ → Prop
  | given {w : String} {v : τ} (hw : DataText w) (hv : Item.ofText? w = some (.value v)) :
    EntryWord τ w (some v)
  | missing : EntryWord τ "1*" none

theorem dataText_default : DataText "1*" where
  bare := ⟨by decide, by decide⟩
  data := by
    rintro b hb
    cases hb
    rfl

theorem bareText_default : BareText "1*" :=
  dataText_default.bare

theorem item?_default : (Item.ofText? "1*" : Option (Item τ)) = some (.defaults 1) := by
  have hsplit : splitStar "1*" = some (['1'], []) := by decide
  have hcount : countOfChars? ['1'] = some 1 := by decide
  simp [Item.ofText?, hsplit, hcount]

theorem EntryWord.dataText {w : String} {e : Option τ} (h : EntryWord τ w e) : DataText w := by
  cases h with
  | given hw => exact hw
  | missing => exact dataText_default

theorem EntryWord.word {w : String} {e : Option τ} (h : EntryWord τ w e) : Word w w .bare :=
  .bare h.dataText.bare

theorem EntryWord.item {w : String} {v : τ} (h : EntryWord τ w (some v)) :
    Item.ofText? w = some (.value v) := by
  cases h with
  | given _ hv => exact hv

theorem isTerminator_of_bareText {s : String} (h : BareText s) (start : Nat) :
    Token.isTerminator ⟨s, .bare, start⟩ = false := by
  have hne : s ≠ "/" := by
    rintro rfl
    exact absurd h.2 (by decide)
  simp [Token.isTerminator, hne]

theorem isTerminator_slash (start : Nat) : Token.isTerminator ⟨"/", .bare, start⟩ = true := by
  simp [Token.isTerminator]

theorem skipLine_of_line {r : DeckReader} {w rest : List UInt8} (hw : Byte.newline ∉ w)
    (h : r.cursor.rest = w ++ Byte.newline :: rest) : r.skipLine = r.forward (w.length + 1) := by
  rw [DeckReader.skipLine, Cursor.skipLine, h, lineSize_append hw]
  rfl

/-- The slash that ends a line is a terminator, and the line is passed with it. -/
theorem slash_line {r : DeckReader} {z rest : List UInt8} (hz : Spells ["/"] z)
    (hr : r.cursor.rest = z ++ Byte.newline :: rest) :
    ∃ t r', r.token? = (some t, r') ∧ t.isTerminator = true ∧
      r'.skipLine = r.forward (z.length + 1) := by
  cases hz with
  | @cons gap _ _ _ hgap _ hnil =>
    cases hnil
    rw [List.append_nil] at hr ⊢
    rw [List.append_assoc] at hr
    have htoken := Word.slash.token? hgap hr (separated_cons.mpr rfl)
    refine ⟨_, _, htoken, isTerminator_slash _, ?_⟩
    have hend : (r.forward (gap.length + (Text.bytes "/").length)).cursor.rest =
        Byte.newline :: rest := by
      rw [← DeckReader.forward_forward]
      exact DeckReader.rest_forward_length (DeckReader.rest_forward_length hr)
    rw [skipLine_of_line (w := []) (by simp) hend, DeckReader.forward_forward, List.length_append]
    rfl

/-- The words of entries are read first, and the slots behind them are filled from there. -/
theorem fillSlots_entries {ws : List String} {es : List (Option τ)}
    (hes : List.Forall₂ (EntryWord τ) ws es) (k : Nat) {r : DeckReader} {z rest : List UInt8}
    (hz : Spells ws z) (hr : r.cursor.rest = z ++ rest) (hrest : ws ≠ [] → Separated rest) :
    fillSlots some (List.replicate (es.length + k) none) r =
      let (run, r') := fillSlots some (List.replicate k (none : Option τ)) (r.forward z.length)
      (run.after es, r') := by
  induction hes generalizing r z with
  | nil =>
    cases hz
    simp [SlotRun.after]
  | @cons w e ws es he hes ih =>
    obtain ⟨x, y, rfl, hword, hwords, hsep⟩ := hz.uncons
    rw [List.append_assoc] at hr
    have hrest' : Separated rest := hrest (List.cons_ne_nil w ws)
    obtain ⟨start, htoken⟩ := hword.token? he.word hr (hsep.append hrest')
    have hnext := ih hwords (DeckReader.rest_forward_length hr) fun _ => hrest'
    have hne : List.replicate ((e :: es).length + k) (none : Option τ) ≠ [] := by simp
    have hlen : (e :: es).length + k = (es.length + k) + 1 := by
      simp only [List.length_cons]
      omega
    rw [DeckReader.forward_forward, ← List.length_append] at hnext
    cases he with
    | @given w v hw hv =>
      have hitem : Token.item? τ ⟨w, .bare, start⟩ = some (.value v) := by
        simpa [Token.item?, Token.isQuoted] using hv
      rw [fillSlots_value hne htoken (isTerminator_of_bareText hw.bare start) hitem, hlen,
        List.replicate_succ, List.tail_cons, hnext]
      simp [SlotRun.after, Nat.add_assoc, Nat.add_left_comm]
    | missing =>
      have hitem : Token.item? τ ⟨"1*", .bare, start⟩ = some (.defaults 1) := by
        simpa [Token.item?, Token.isQuoted] using item?_default
      rw [fillSlots_default hne htoken (isTerminator_of_bareText bareText_default start) hitem,
        hlen, List.replicate_succ, List.tail_cons, hnext]
      simp [SlotRun.after, Nat.add_assoc, Nat.add_comm, Nat.add_left_comm]

namespace RecordM

theorem optionalNumbers_eq (n : Nat) (r : DeckReader) :
    optionalNumbers τ n ⟨r, .reading⟩ =
      fillNext some (List.replicate n (none : Option τ)) ⟨r, .reading⟩ := rfl

theorem optionalNumbers_reads {ws : List String} {es : List (Option τ)}
    (hes : List.Forall₂ (EntryWord τ) ws es) :
    FieldReads (optionalNumbers τ es.length) ws (es.length, es) := by
  intro r z rest hz hr hrest
  have h := fillSlots_entries hes 0 hz hr hrest
  rw [Nat.add_zero] at h
  rw [optionalNumbers_eq, fillNext, h]
  simp [SlotRun.after, Standing.owe]

/-- Slots without a word are left out, because the slash comes first. -/
theorem optionalNumbers_ends {ws : List String} {es : List (Option τ)}
    (hes : List.Forall₂ (EntryWord τ) ws es) {k : Nat} (hk : k ≠ 0) :
    FieldEnds (optionalNumbers τ (es.length + k)) ws (es.length, es ++ List.replicate k none) := by
  intro r z rest hz hr
  obtain ⟨x, y, rfl, hws, hslash, hsep⟩ := hz.split
  rw [List.append_assoc] at hr
  have h := fillSlots_entries hes k hws hr fun hne => (hsep hne).append (separated_cons.mpr rfl)
  obtain ⟨t, r', htoken, ht, hline⟩ := slash_line hslash (DeckReader.rest_forward_length hr)
  have hne : List.replicate k (none : Option τ) ≠ [] := by simp [hk]
  rw [optionalNumbers_eq, fillNext, h, fillSlots_terminator hne htoken ht, hline]
  simp [SlotRun.after, Nat.add_assoc]

end RecordM

end ReservoirDeck
