import ReservoirDeck.Proofs.Reading.Loops
import ReservoirDeck.Proofs.Record.Calls

/-!
What the readers of bodies are made of: items, records and lookahead, one after the other and in loops.
Whatever holds of these and is kept by sequences and loops holds of every body.
-/

namespace ReservoirDeck

/-- A sequence of items. It fails by itself only where an item cannot be read or is malformed. -/
inductive ReadM.ItemCalls : {α : Type} → ReadM α → Prop
  | pure {α : Type} (a : α) : ItemCalls (Pure.pure a)
  | bind {α β : Type} {x : ReadM α} {f : α → ReadM β} (hx : ItemCalls x)
    (hf : ∀ a, ItemCalls (f a)) : ItemCalls (x >>= f)
  | malformed {α : Type} (defect : Defect) : ItemCalls (ReadM.malformed defect : ReadM α)
  | unreadable {α : Type} (found : String) : ItemCalls (ReadM.fail (.unreadable found) : ReadM α)
  | item : ItemCalls ReadM.item
  /-- Every round of a loop but the last reads something. -/
  | iterate {α σ : Type} {step : σ → ReadM (σ ⊕ α)} (hstep : ∀ s, ItemCalls (step s))
    (hmoves : ∀ s, RoundProgresses (step s)) (s : σ) : ItemCalls (ReadM.iterate step s)

/-- A sequence of items and records. What comes next may be looked at, but not whether the text or only
the body ends there. -/
inductive ReadM.Calls : {α : Type} → ReadM α → Prop
  | items {α : Type} {x : ReadM α} (h : ItemCalls x) : Calls x
  | bind {α β : Type} {x : ReadM α} {f : α → ReadM β} (hx : Calls x) (hf : ∀ a, Calls (f a)) :
    Calls (x >>= f)
  | tokenText : Calls ReadM.tokenText
  | terminator : Calls ReadM.terminator
  | lookahead {α : Type} {f : Lookahead → ReadM α} (hf : ∀ next, Calls (f next))
    (hends : f .keyword = f .endOfInput) : Calls (ReadM.lookahead >>= f)
  | run {α : Type} {fields : RecordM α} (h : fields.FieldCalls) : Calls fields.run
  /-- A record that ends with a slash. -/
  | record {α : Type} {fields : RecordM α} (h : fields.FieldCalls) : Calls (ReadM.record fields)
  /-- A row, whose slash may be missing. -/
  | row {α : Type} {fields : RecordM α} (h : fields.FieldCalls) : Calls (RecordM.run do
      let values ← fields
      RecordM.finishRow
      return values)
  | iterate {α σ : Type} {step : σ → ReadM (σ ⊕ α)} (hstep : ∀ s, Calls (step s))
    (hmoves : ∀ s, RoundProgresses (step s)) (s : σ) : Calls (ReadM.iterate step s)

section Items

variable {τ σ : Type} [DeckNumber τ]

theorem itemCalls_valueStep (values : List τ) : (valueStep τ values).ItemCalls := by
  refine .bind .item fun t? => ?_
  cases t? with
  | none => exact .pure _
  | some t =>
    dsimp only
    split
    · exact .pure _
    · exact .pure _
    · exact .unreadable _

omit [DeckNumber τ] in
theorem itemCalls_passStep (u : Unit) : (passStep u).ItemCalls := by
  refine .bind .item fun t? => ?_
  cases t? <;> exact .pure _

theorem itemCalls_fillStep (mark : τ → σ) (slots : List σ × List σ) :
    (fillStep mark slots).ItemCalls := by
  obtain ⟨front, _ | ⟨slot, rest⟩⟩ := slots
  · exact .pure _
  refine .bind .item fun t? => ?_
  cases t? with
  | none => exact .pure _
  | some t =>
    dsimp only
    split
    · exact .pure _
    · split <;> exact .pure _
    · split
      · exact .unreadable _
      · exact .pure _
    · exact .unreadable _

theorem itemCalls_readValues : (readValues τ).ItemCalls := by
  rw [readValues_eq_iterate]
  exact .iterate itemCalls_valueStep valueStep_progresses []

omit [DeckNumber τ] in
theorem itemCalls_skipToTerminator : RecordM.skipToTerminator.ItemCalls := by
  rw [skipToTerminator_eq_iterate]
  exact .iterate itemCalls_passStep passStep_progresses ()

theorem itemCalls_fill (mark : τ → σ) (slots : List σ) : (ReadM.fill mark slots).ItemCalls := by
  rw [fill_eq_iterate]
  exact .iterate (itemCalls_fillStep mark) (fillStep_progresses mark) _

end Items

theorem ReadM.ItemCalls.map {α β : Type} {x : ReadM α} (f : α → β) (hx : x.ItemCalls) :
    (f <$> x).ItemCalls := by
  rw [map_eq_pure_bind]
  exact hx.bind fun a => .pure (f a)

theorem itemCalls_skipNext (n : Nat) : (RecordM.skipNext n).ItemCalls := by
  induction n using Nat.strongRecOn with
  | _ n ih =>
  by_cases hn : n = 0
  · subst hn
    have hzero : RecordM.skipNext 0 = pure (0, .reading) := funext RecordM.skipNext_zero
    rw [hzero]
    exact .pure _
  rw [RecordM.skipNext_eq hn]
  refine .bind .item fun t? => ?_
  cases t? with
  | none => exact .pure _
  | some t =>
    have hpos := RecordM.itemExtent_pos t
    dsimp only
    split
    · exact .pure _
    · exact (ih _ (by omega)).map _

namespace ReadM

variable {α β : Type}

theorem Calls.pure (a : α) : Calls (Pure.pure a : ReadM α) :=
  .items (.pure a)

theorem Calls.malformed (defect : Defect) : Calls (ReadM.malformed defect : ReadM α) :=
  .items (.malformed defect)

theorem Calls.map {x : ReadM α} (f : α → β) (hx : Calls x) : Calls (f <$> x) := by
  rw [map_eq_pure_bind]
  exact hx.bind fun a => .pure (f a)

theorem Calls.discard {x : ReadM α} (hx : Calls x) : Calls (discard x) :=
  hx.map _

theorem calls_namedStep {fields : String → RecordM α} (h : ∀ leader, (fields leader).FieldCalls)
    (records : List α) : Calls (namedStep fields records) := by
  rw [namedStep_eq]
  refine .bind (.items .item) fun t? => ?_
  cases t? with
  | none => exact .pure _
  | some t => exact .bind (.record (h t.text)) fun values => .pure _

theorem calls_rowStep {fields : RecordM α} (h : fields.FieldCalls) (rows : List α) :
    Calls (rowStep fields rows) := by
  refine .lookahead (fun next => ?_) rfl
  cases next with
  | data => exact .bind (.row h) fun values => .pure _
  | keyword => exact .pure _
  | endOfInput => exact .pure _
  | _ => exact .malformed _

theorem calls_fillRows (rows : List (List (Option Float))) : Calls (fillRows rows) := by
  unfold fillRows
  split
  · exact .pure _
  · exact .malformed _

theorem calls_tableRow (columns : Nat) : Calls (tableRow columns) := by
  rw [tableRow_eq]
  exact (Calls.items (itemCalls_fill _ _)).map _

theorem calls_close (t : OpenTable) : Calls t.close :=
  (calls_fillRows t.rows).bind fun _ => .pure _

theorem calls_tableStep (columns : Nat) (t : OpenTable) : Calls (tableStep columns t) := by
  have hend : Calls (if t.rows.isEmpty then return .inr t.closed
      else return .inr (← t.close).closed : ReadM (OpenTable ⊕ List (List (List Float)))) := by
    split
    · exact .pure _
    · exact (calls_close t).bind fun _ => .pure _
  refine .lookahead (fun next => ?_) rfl
  cases next with
  | data =>
    refine (calls_tableRow columns).bind fun row => ?_
    dsimp only
    split
    · exact (calls_close _).bind fun _ => .pure _
    · exact .pure _
  | keyword => exact hend
  | endOfInput => exact hend
  | terminator =>
    refine Calls.terminator.discard.bind fun _ => ?_
    split
    · exact .malformed _
    · exact (calls_close t).bind fun _ => .pure _
  | _ => exact .malformed _

theorem calls_pvtStep (t : OpenPvtTable) : Calls (pvtStep t) := by
  refine .lookahead (fun next => ?_) rfl
  cases next with
  | data =>
    refine (Calls.items itemCalls_readValues).bind fun row => ?_
    split
    · exact .malformed _
    · exact .pure _
  | keyword => exact .pure _
  | endOfInput => exact .pure _
  | terminator =>
    refine Calls.terminator.discard.bind fun _ => ?_
    split
    · exact .malformed _
    · exact .pure _
  | _ => exact .malformed _

theorem fieldCalls_depthRow (layout : DepthLayout) : (depthRow layout).FieldCalls := by
  refine .bind (.optionalNumbers layout.width) fun entries => ?_
  dsimp only
  split
  · exact .malformed _
  · split
    · exact .malformed _
    · split
      · exact .malformed _
      · exact .pure _

theorem Calls.mapM {f : α → ReadM β} (h : ∀ a, Calls (f a)) (as : List α) : Calls (as.mapM f) := by
  induction as with
  | nil => exact .pure []
  | cons a as ih =>
    rw [List.mapM_cons]
    exact (h a).bind fun b => ih.bind fun bs => .pure _

theorem calls_depthColumn (rows : List (List (Option Float))) (column : Nat) :
    Calls (depthColumn rows column) := by
  unfold depthColumn
  dsimp only
  split
  · exact .pure _
  · exact (calls_fillRows _).bind fun _ => .pure _

theorem calls_closeDepthRegion (layout : DepthLayout) (t : OpenTable) :
    Calls (closeDepthRegion layout t) := by
  unfold closeDepthRegion
  split
  · exact .malformed _
  · exact (Calls.mapM (calls_depthColumn t.rows) layout.kept).bind fun _ => .pure _

theorem calls_depthStep (layout : DepthLayout) (t : OpenTable) : Calls (depthStep layout t) := by
  refine .lookahead (fun next => ?_) rfl
  cases next with
  | data =>
    refine .bind (.run (fieldCalls_depthRow layout)) fun row => .bind .terminator fun ended => ?_
    split
    · exact (calls_closeDepthRegion layout _).bind fun _ => .pure _
    · exact .pure _
  | keyword => exact .pure _
  | endOfInput => exact .pure _
  | terminator => exact Calls.terminator.discard.bind fun _ => .pure _
  | _ => exact .malformed _

theorem calls_startDate [Calendar] : Calls startDate := by
  have htext : startDate = tokenText >>= fun day => record (Date.read day) := by
    unfold startDate tokenText
    rw [bind_assoc]
    rfl
  rw [htext]
  exact .bind .tokenText fun day => .record (Date.calls_read day)

end ReadM

end ReservoirDeck
