import ReservoirDeck.Proofs.Reading.Orderly
import ReservoirDeck.Proofs.RoundTrip.Layouts

/-!
The loops over the bodies of keywords read something in every round. A round looks at what comes next,
and the first thing that it does with it is to read it.
-/

namespace ReservoirDeck

variable {α β σ τ : Type}

namespace ReadM

theorem fill_progresses [DeckNumber τ] (mark : τ → σ) {slots : List σ} (hs : slots ≠ []) :
    Progresses (fill mark slots) := by
  have hrest : ∀ (f : SlotRun σ → SlotRun σ) slots, NonGrowing (f <$> fill mark slots) :=
    fun f slots => ((Calls.items (itemCalls_fill mark slots)).map f).nonGrowing
  rw [fill_eq mark hs]
  refine item_progresses.bind fun t? => ?_
  cases t? with
  | none => exact .pure _
  | some t =>
    dsimp only
    split
    · exact hrest _ _
    · split
      · exact .pure _
      · exact hrest _ _
    · split
      · exact .fail _
      · exact hrest _ _
    · exact .fail _

theorem readValues_progresses [DeckNumber τ] : Progresses (readValues τ) := by
  have hrest : ∀ f : List τ → List τ, NonGrowing (f <$> readValues τ) :=
    fun f => ((Calls.items itemCalls_readValues).map f).nonGrowing
  rw [readValues_eq]
  refine item_progresses.bind fun t? => ?_
  cases t? with
  | none => exact .pure _
  | some t =>
    dsimp only
    split
    · exact hrest _
    · exact hrest _
    · exact .fail _

end ReadM

namespace RecordM

def Progresses (x : RecordM α) : Prop :=
  ∀ ⦃r a s⦄, x ⟨r, .reading⟩ = .ok a s → s.reader.remaining < r.remaining

theorem Progresses.bind {x : RecordM α} {f : α → RecordM β} (hx : Progresses x)
    (hf : ∀ a, (f a).Orderly) : Progresses (x >>= f) := by
  intro r b s' h
  obtain ⟨a, s, hs, hs'⟩ := Run.bind_eq_ok.mp h
  have hlt := hx hs
  have hreaches := (hf a).reaches s
  rw [hs'] at hreaches
  exact Nat.lt_of_le_of_lt hreaches.cursor.remaining_le hlt

theorem Progresses.run {x : RecordM α} (hx : Progresses x) : ReadM.Progresses (run x) := by
  intro r a r' h
  unfold RecordM.run at h
  cases hs : x ⟨r, .reading⟩ with
  | ok b s =>
    rw [hs] at h
    cases h
    exact hx hs
  | error e s =>
    rw [hs] at h
    cases h

theorem optionalNumbers_progresses [DeckNumber τ] {count : Nat} (hcount : count ≠ 0) :
    Progresses (optionalNumbers τ count) := by
  intro r a s h
  have hs : List.replicate count (none : Option τ) ≠ [] := by simpa using hcount
  have hfill : optionalNumbers τ count ⟨r, .reading⟩ =
      fillNext some (List.replicate count none) ⟨r, .reading⟩ := rfl
  rw [hfill, fillNext_eq] at h
  split at h
  · next run r' hrun =>
    cases h
    exact ReadM.fill_progresses _ hs hrun
  · cases h

end RecordM

theorem Field.read_progresses {field : Field} (hfield : field.isNumeric = true) (leader : String) :
    (field.read leader).Progresses := by
  cases field with
  | reals slots incomplete =>
    cases slots with
    | nil => cases hfield
    | cons slot slots =>
      refine (RecordM.optionalNumbers_progresses (Nat.succ_ne_zero _)).bind fun entries => ?_
      dsimp only
      split
      · exact .pure _
      · exact RecordM.orderly_malformed _
  | companions first what second =>
    refine RecordM.Progresses.bind ?_ fun x =>
      ((RecordM.FieldCalls.number (-1)).bind fun _ => .pure _).orderly
    refine (RecordM.optionalNumbers_progresses Nat.one_ne_zero).bind fun entries => ?_
    dsimp only
    split
    · exact .pure _
    · exact RecordM.orderly_malformed _
  | _ => cases hfield

theorem Record.read_progresses {fields : List Field}
    (hfields : (fields.head?.map Field.isNumeric).getD false = true) (leader : String) :
    (Record.read leader fields).Progresses := by
  cases fields with
  | nil => cases hfields
  | cons field fields =>
    exact (Field.read_progresses (by simpa using hfields) leader).bind fun v =>
      ((Record.calls_read leader fields).bind fun vs => .pure _).orderly

theorem ReadM.depthRow_progresses {layout : DepthLayout} (hwidth : layout.width ≠ 0) :
    (depthRow layout).Progresses := by
  refine (RecordM.optionalNumbers_progresses hwidth).bind fun entries => ?_
  dsimp only
  split
  · exact RecordM.orderly_malformed _
  · split
    · exact RecordM.orderly_malformed _
    · split
      · exact RecordM.orderly_malformed _
      · exact .pure _

theorem Lookahead.eq_slash_of_terminator {b : UInt8} (h : ofByte b = .terminator) :
    b = Byte.slash := by
  revert h
  unfold ofByte
  split
  · simp
  · split
    · simp
    · split
      · next hslash => exact fun _ => by simpa using hslash
      · split <;> simp

theorem DeckReader.terminator_lt {r : DeckReader} (h : r.cursor.lookahead = .terminator) :
    r.skipTrivia.terminator.2.remaining < r.skipTrivia.remaining := by
  have hhead : r.skipTrivia.cursor.rest.head? = some Byte.slash := by
    rw [Cursor.lookahead_eq_head] at h
    change (r.skipTrivia.cursor.rest.head?.map _).getD _ = _ at h
    cases hb : r.skipTrivia.cursor.rest.head? with
    | none => simp [hb] at h
    | some b =>
      rw [hb] at h
      rw [Lookahead.eq_slash_of_terminator h]
  have hpass : r.skipTrivia.terminator.2 = r.skipTrivia.skipLine := by
    unfold terminator
    rw [r.skipTrivia_skipTrivia]
    dsimp only
    rw [if_pos hhead]
  obtain ⟨tl, hrest⟩ : ∃ tl, r.skipTrivia.cursor.rest = Byte.slash :: tl :=
    ⟨_, List.eq_cons_of_mem_head? hhead⟩
  rw [hpass]
  refine Cursor.remaining_forward_lt (hrest ▸ List.cons_ne_nil _ _) ?_
  rw [hrest]
  unfold Cursor.lineSize
  split <;> omega

namespace ReadM

theorem roundProgresses_done (a : α) : RoundProgresses (pure (.inr a) : ReadM (σ ⊕ α)) := by
  intro r s r' h
  cases h

theorem roundProgresses_malformed (defect : Defect) :
    RoundProgresses (malformed defect : ReadM (σ ⊕ α)) := by
  intro r s r' h
  cases h

theorem roundProgresses_bind_done {x : ReadM β} (f : β → α) :
    RoundProgresses (x >>= fun b => pure (.inr (f b)) : ReadM (σ ⊕ α)) := by
  intro r s r' h
  obtain ⟨b, r₁, -, hdone⟩ := Run.bind_eq_ok.mp h
  cases hdone

/-- Where a number comes next a round reads it, and where a slash comes next it passes that. -/
theorem roundProgresses_lookahead {f : Lookahead → ReadM (σ ⊕ α)} (hdata : Progresses (f .data))
    (hkeyword : RoundProgresses (f .keyword)) (hend : RoundProgresses (f .endOfInput))
    (hquoted : RoundProgresses (f .quoted))
    (hterminator : ∀ r : DeckReader, r.cursor.lookahead = .terminator → ∀ s r',
      f .terminator r.skipTrivia = .ok (.inl s) r' → r'.remaining < r.skipTrivia.remaining) :
    RoundProgresses (lookahead >>= f) := by
  intro r s r' h
  have hle : r.skipTrivia.remaining ≤ r.remaining := Cursor.remaining_forward_le _ _
  suffices hlt : r'.remaining < r.skipTrivia.remaining by omega
  rw [bind_lookahead_eq] at h
  cases hnext : r.cursor.lookahead <;> rw [hnext] at h
  case data => exact hdata h
  case quoted => exact hquoted h
  case keyword => exact hkeyword h
  case terminator => exact hterminator r hnext s r' h
  case endOfInput => exact hend h
  case other byte => cases h

theorem lt_of_passTerminator {g : PUnit → ReadM (σ ⊕ α)} (hg : ∀ u, NonGrowing (g u)) {r : DeckReader}
    (hnext : r.cursor.lookahead = .terminator) {s : σ} {r' : DeckReader}
    (h : (discard terminator >>= g) r.skipTrivia = .ok (.inl s) r') :
    r'.remaining < r.skipTrivia.remaining := by
  have hlt := DeckReader.terminator_lt hnext
  obtain ⟨u, r₁, hpass, hr'⟩ := Run.bind_eq_ok.mp h
  obtain ⟨ended, hpass⟩ := Run.discard_eq_ok.mp hpass
  have hle := hg u hr'
  cases hpass
  exact Nat.lt_of_le_of_lt hle hlt

theorem namedStep_progresses {fields : String → RecordM α}
    (h : ∀ leader, (fields leader).FieldCalls) (records : List α) :
    RoundProgresses (namedStep fields records) := by
  rw [namedStep_eq]
  refine (item_progresses.bind fun t? => ?_).round
  cases t? with
  | none => exact .pure _
  | some t => exact (Calls.bind (.record (h t.text)) fun values => .pure _).nonGrowing

theorem rowStep_progresses {fields : RecordM α} (hprogress : fields.Progresses) (rows : List α) :
    RoundProgresses (rowStep fields rows) := by
  refine roundProgresses_lookahead ?_ (roundProgresses_done _) (roundProgresses_done _)
    (roundProgresses_malformed _) ?_
  · refine Progresses.bind (RecordM.Progresses.run ?_) fun values => .pure _
    exact hprogress.bind fun values => RecordM.orderly_finishRow.bind fun _ => .pure _
  · intro r _ s r' h
    cases h

theorem tableStep_progresses {columns : Nat} (hcolumns : columns ≠ 0) (t : OpenTable) :
    RoundProgresses (tableStep columns t) := by
  have hclose : ∀ t : OpenTable, NonGrowing (do
      return .inl (← t.close) : ReadM (OpenTable ⊕ List (List (List Float)))) :=
    fun t => ((calls_close t).bind fun _ => .pure _).nonGrowing
  have hend : RoundProgresses (if t.rows.isEmpty then return .inr t.closed
      else return .inr (← t.close).closed : ReadM (OpenTable ⊕ List (List (List Float)))) := by
    split
    · exact roundProgresses_done _
    · exact roundProgresses_bind_done _
  refine roundProgresses_lookahead ?_ hend hend (roundProgresses_malformed _) ?_
  · have hrow : Progresses (tableRow columns) := by
      rw [tableRow_eq]
      exact (fill_progresses _ (by simpa using hcolumns)).map _
    refine hrow.bind fun row => ?_
    dsimp only
    split
    · exact hclose _
    · exact .pure _
  · intro r hnext s r' h
    refine lt_of_passTerminator (fun _ => ?_) hnext h
    split
    · exact .fail _
    · exact hclose t

theorem pvtStep_progresses (t : OpenPvtTable) : RoundProgresses (pvtStep t) := by
  refine roundProgresses_lookahead ?_ (roundProgresses_done _) (roundProgresses_done _)
    (roundProgresses_malformed _) ?_
  · refine readValues_progresses.bind fun row => ?_
    split
    · exact .fail _
    · exact .pure _
  · intro r hnext s r' h
    refine lt_of_passTerminator (fun _ => ?_) hnext h
    split
    · exact .fail _
    · exact .pure _

theorem depthStep_progresses {layout : DepthLayout} (hwidth : layout.width ≠ 0) (t : OpenTable) :
    RoundProgresses (depthStep layout t) := by
  refine roundProgresses_lookahead ?_ (roundProgresses_done _) (roundProgresses_done _)
    (roundProgresses_malformed _) ?_
  · refine (depthRow_progresses hwidth).run.bind fun row => Calls.nonGrowing ?_
    refine .bind .terminator fun ended => ?_
    split
    · exact (calls_closeDepthRegion layout _).bind fun _ => .pure _
    · exact .pure _
  · intro r hnext s r' h
    obtain ⟨u, r₁, -, hdone⟩ := Run.bind_eq_ok.mp h
    cases hdone

end ReadM

end ReservoirDeck
