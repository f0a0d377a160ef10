import ReservoirDeck.Keyword.Layout
import ReservoirDeck.Proofs.Reading.Tokens
import ReservoirDeck.Proofs.Record.Steps

/-!
Reading item by item. An item is a token or the end of a record, and every loop over the tokens of a
record is a loop over its items: one step, repeated until it yields a result.
-/

namespace ReservoirDeck

variable {α β τ σ : Type} {r r' : DeckReader} {t : Token}

/-- The next token, without its place. None stands for a terminator, whose line is passed. -/
def ReadM.item : ReadM (Option Token) := fun r =>
  match r.token? with
  | (none, r') => .error (r'.error .unexpectedEnd) r'
  | (some t, r') =>
    if t.isTerminator then .ok none r'.skipLine else .ok (some { t with start := 0 }) r'

def ReadM.tokenText : ReadM String := do
  return (← token).text

theorem ReadM.item_of_none (h : r.token? = (none, r')) :
    ReadM.item r = .error (r'.error .unexpectedEnd) r' := by
  rw [item, h]

theorem ReadM.item_of_terminator (h : r.token? = (some t, r'))
    (ht : t.isTerminator = true) : ReadM.item r = .ok none r'.skipLine := by
  rw [item, h]
  exact if_pos ht

theorem ReadM.item_of_some (h : r.token? = (some t, r'))
    (ht : ¬ t.isTerminator = true) : ReadM.item r = .ok (some { t with start := 0 }) r' := by
  rw [item, h]
  exact if_neg ht

theorem ReadM.item_progresses : Progresses item := by
  intro r t? r' h
  unfold item at h
  split at h
  · cases h
  · next t r₁ htoken =>
    have hlt := DeckReader.token?_lt htoken
    split at h
    · cases h
      have hline : r₁.skipLine.remaining ≤ r₁.remaining := Cursor.remaining_forward_le _ _
      omega
    · cases h
      exact hlt

theorem ReadM.tokenText_eq (r : DeckReader) : ReadM.tokenText r = match r.token? with
    | (none, r') => .error (r'.error .unexpectedEnd) r'
    | (some t, r') => .ok t.text r' := by
  unfold tokenText
  rcases h : r.token? with ⟨_ | t, r'⟩
  · rw [Run.bind_of_error _ (token_of_none h)]
  · rw [Run.bind_of_ok _ (token_of_some h)]
    rfl

theorem ReadM.title_eq (r : DeckReader) : ReadM.title r =
    if r.cursor.atEnd then .error (r.error .unexpectedEnd) r
    else .ok (Text.trim (Text.ofBytes (Cursor.trimReturns r.cursor.line))) r.skipLine := by
  unfold title
  rw [Run.bind_get_eq]
  split <;> rfl

theorem Cursor.lookahead_eq_head (c : Cursor) :
    c.lookahead = (c.skipTrivia.rest.head?.map .ofByte).getD .endOfInput := by
  unfold lookahead
  cases c.skipTrivia.rest <;> rfl

theorem Cursor.lookahead_skipTrivia (c : Cursor) : c.skipTrivia.lookahead = c.lookahead := by
  rw [lookahead, c.skipTrivia_skipTrivia, lookahead]

/-- What is done with what comes next; a stray byte is malformed. -/
def ReadM.onLookahead (f : Lookahead → ReadM α) : Lookahead → ReadM α
  | .other byte => malformed (.strayBetweenRecords byte)
  | next => f next

theorem ReadM.bind_lookahead_eq (f : Lookahead → ReadM α) (r : DeckReader) :
    (lookahead >>= f) r = onLookahead f r.cursor.lookahead r.skipTrivia := by
  have hcursor : r.skipTrivia.cursor.lookahead = r.cursor.lookahead := r.cursor.lookahead_skipTrivia
  cases hnext : r.cursor.lookahead with
  | other byte =>
    have hlook : lookahead r = .error (r.skipTrivia.error (.malformed (.strayBetweenRecords byte)))
        r.skipTrivia := by
      simp [lookahead, skipTrivia, hcursor, hnext]
    exact Run.bind_of_error f hlook
  | _ =>
    refine Run.bind_of_ok f ?_
    simp [lookahead, skipTrivia, hcursor, hnext]

section Items

variable [DeckNumber τ]

theorem map_readValues (front : List τ) (r : DeckReader) :
    ((front ++ ·) <$> readValues τ) r =
      match readValues τ r with
      | .ok vs r' => .ok (front ++ vs) r'
      | .error e r' => .error e r' := by
  change EStateM.map _ (readValues τ) r = _
  unfold EStateM.map
  cases readValues τ r <;> rfl

theorem readValues_eq : readValues τ = ReadM.item >>= fun
    | none => pure []
    | some t =>
      match t.item? τ with
      | some (.value v) => ([v] ++ ·) <$> readValues τ
      | some (.repeated k v) => (List.replicate k v ++ ·) <$> readValues τ
      | _ => ReadM.fail (.unreadable t.text) := by
  funext r
  rw [readValues.eq_def]
  split
  · next r' h => rw [Run.bind_of_error _ (ReadM.item_of_none h)]
  · next t r' h =>
    dsimp only
    split
    · next ht =>
      rw [Run.bind_of_ok _ (ReadM.item_of_terminator h ht)]
      rfl
    · next ht =>
      rw [Run.bind_of_ok _ (ReadM.item_of_some h ht)]
      dsimp only
      rw [show ({ t with start := 0 } : Token).item? τ = t.item? τ from rfl]
      cases t.item? τ with
      | none => rfl
      | some i =>
        cases i with
        | value v => exact (map_readValues [v] r').symm
        | defaults k => rfl
        | repeated k v => exact (map_readValues (List.replicate k v) r').symm

theorem RecordM.skipToTerminator_eq : skipToTerminator = ReadM.item >>= fun
    | none => pure ()
    | some _ => skipToTerminator := by
  funext r
  rw [skipToTerminator.eq_def]
  split
  · next r' h => rw [Run.bind_of_error _ (ReadM.item_of_none h)]
  · next t r' h =>
    dsimp only
    split
    · next ht =>
      rw [Run.bind_of_ok _ (ReadM.item_of_terminator h ht)]
      rfl
    · next ht => rw [Run.bind_of_ok _ (ReadM.item_of_some h ht)]

theorem RecordM.skipNext_eq {n : Nat} (hn : n ≠ 0) : skipNext n = ReadM.item >>= fun
    | none => pure (0, .ended)
    | some t =>
      if n < (itemExtent t).1 then pure (n, .owing ((itemExtent t).1 - n) (itemExtent t).2)
      else (fun result => ((itemExtent t).1 + result.1, result.2)) <$>
        skipNext (n - (itemExtent t).1) := by
  funext r
  rw [skipNext.eq_def, if_neg hn]
  split
  · next r' h => rw [Run.bind_of_error _ (ReadM.item_of_none h)]
  · next t r' h =>
    dsimp only
    split
    · next ht =>
      rw [Run.bind_of_ok _ (ReadM.item_of_terminator h ht)]
      rfl
    · next ht =>
      rw [Run.bind_of_ok _ (ReadM.item_of_some h ht)]
      dsimp only
      rw [show itemExtent { t with start := 0 } = itemExtent t from rfl]
      split
      · rfl
      · change _ = EStateM.map _ (skipNext (n - (itemExtent t).1)) r'
        unfold EStateM.map
        cases skipNext (n - (itemExtent t).1) r' <;> rfl

/-- Filling slots, as an action that fails if filling does. With the slots, how many were visited, and
how many fields are owed unless a terminator was read. -/
def ReadM.fill (mark : τ → σ) (slots : List σ) : ReadM (SlotRun σ) := fun r =>
  let (run, r') := fillSlots mark slots r
  match run.stop with
  | .failed e => .error e r'
  | _ => .ok run r'

/-- How a record stands when filling has stopped. -/
def SlotStop.standing : SlotStop → Standing
  | .full overflow => .owe overflow none
  | .terminated => .ended
  | .failed _ => .reading

theorem ReadM.map_fill (mark : τ → σ) (front slots : List σ) (r : DeckReader) :
    (SlotRun.after front <$> fill mark slots) r =
      match (fillSlots mark slots r).1.stop with
      | .failed e => .error e (fillSlots mark slots r).2
      | _ => .ok ((fillSlots mark slots r).1.after front) (fillSlots mark slots r).2 := by
  change EStateM.map _ (fill mark slots) r = _
  unfold EStateM.map fill
  dsimp only
  cases (fillSlots mark slots r).1.stop <;> rfl

theorem ReadM.fill_eq (mark : τ → σ) {slots : List σ} (hs : slots ≠ []) :
    ReadM.fill mark slots = ReadM.item >>= fun
      | none => pure ⟨slots, 0, .terminated⟩
      | some t =>
        match t.item? τ with
        | some (.value v) => SlotRun.after [mark v] <$> ReadM.fill mark slots.tail
        | some (.defaults k) =>
          if slots.length < k then pure ⟨slots, slots.length, .full (k - slots.length)⟩
          else SlotRun.after (slots.take k) <$> ReadM.fill mark (slots.drop k)
        | some (.repeated k v) =>
          if slots.length < k then ReadM.fail (.unreadable t.text)
          else SlotRun.after (List.replicate k (mark v)) <$> ReadM.fill mark (slots.drop k)
        | none => ReadM.fail (.unreadable t.text) := by
  funext r
  rcases htoken : r.token? with ⟨_ | t, r'⟩
  · rw [Run.bind_of_error _ (ReadM.item_of_none htoken), fill, fillSlots_none hs htoken]
    rfl
  by_cases ht : t.isTerminator = true
  · rw [Run.bind_of_ok _ (ReadM.item_of_terminator htoken ht), fill,
      fillSlots_terminator hs htoken ht]
    rfl
  rw [Run.bind_of_ok _ (ReadM.item_of_some htoken ht), fill,
    fillSlots_item hs htoken (by simpa using ht)]
  dsimp only
  rw [show ({ t with start := 0 } : Token).item? τ = t.item? τ from rfl]
  cases t.item? τ with
  | none => rfl
  | some i =>
    cases i with
    | value v => exact (ReadM.map_fill mark [mark v] slots.tail r').symm
    | defaults k =>
      dsimp only
      by_cases hk : slots.length < k
      · rw [if_pos hk, if_pos hk]
        rfl
      · rw [if_neg hk, if_neg hk]
        exact (ReadM.map_fill mark (slots.take k) (slots.drop k) r').symm
    | repeated k v =>
      dsimp only
      by_cases hk : slots.length < k
      · rw [if_pos hk, if_pos hk]
        rfl
      · rw [if_neg hk, if_neg hk]
        exact (ReadM.map_fill mark (.replicate k (mark v)) (slots.drop k) r').symm

theorem RecordM.fillNext_eq (mark : τ → σ) (slots : List σ) (s : RecordReader) :
    RecordM.fillNext mark slots s = match ReadM.fill mark slots s.reader with
      | .ok run r => .ok (run.visited, run.slots) ⟨r, run.stop.standing⟩
      | .error e r => .error e ⟨r, .reading⟩ := by
  unfold RecordM.fillNext ReadM.fill
  obtain ⟨⟨slots', visited, stop⟩, r⟩ := fillSlots mark slots s.reader
  cases stop <;> rfl

def valueStep (τ : Type) [DeckNumber τ] (values : List τ) : ReadM (List τ ⊕ List τ) := do
  match ← ReadM.item with
  | none => return .inr values
  | some t =>
    match t.item? τ with
    | some (.value v) => return .inl (values ++ [v])
    | some (.repeated k v) => return .inl (values ++ List.replicate k v)
    | _ => ReadM.fail (.unreadable t.text)

/-- One item that is passed over. -/
def passStep (_ : Unit) : ReadM (Unit ⊕ Unit) := do
  match ← ReadM.item with
  | none => return .inr ()
  | some _ => return .inl ()

/-- One item for slots, of which those in front are filled. -/
def fillStep (mark : τ → σ) : List σ × List σ → ReadM ((List σ × List σ) ⊕ SlotRun σ)
  | (front, []) => return .inr (SlotRun.after front ⟨[], 0, .full 0⟩)
  | (front, slot :: rest) => do
    let slots := slot :: rest
    match ← ReadM.item with
    | none => return .inr (SlotRun.after front ⟨slots, 0, .terminated⟩)
    | some t =>
      match t.item? τ with
      | some (.value v) => return .inl (front ++ [mark v], rest)
      | some (.defaults k) =>
        if slots.length < k then
          return .inr (SlotRun.after front ⟨slots, slots.length, .full (k - slots.length)⟩)
        else return .inl (front ++ slots.take k, slots.drop k)
      | some (.repeated k v) =>
        if slots.length < k then ReadM.fail (.unreadable t.text)
        else return .inl (front ++ List.replicate k (mark v), slots.drop k)
      | none => ReadM.fail (.unreadable t.text)

theorem valueStep_progresses (values : List τ) : ReadM.RoundProgresses (valueStep τ values) := by
  refine (ReadM.item_progresses.bind fun t? => ?_).round
  cases t? with
  | none => exact .pure _
  | some t =>
    dsimp only
    split
    · exact .pure _
    · exact .pure _
    · exact .fail _

omit [DeckNumber τ] in
theorem passStep_progresses (u : Unit) : ReadM.RoundProgresses (passStep u) := by
  refine (ReadM.item_progresses.bind fun t? => ?_).round
  cases t? <;> exact .pure _

theorem fillStep_progresses (mark : τ → σ) (slots : List σ × List σ) :
    ReadM.RoundProgresses (fillStep mark slots) := by
  obtain ⟨front, _ | ⟨slot, rest⟩⟩ := slots
  · intro r s r' h
    cases h
  refine (ReadM.item_progresses.bind fun t? => ?_).round
  cases t? with
  | none => exact .pure _
  | some t =>
    dsimp only
    split
    · exact .pure _
    · split <;> exact .pure _
    · split
      · exact .fail _
      · exact .pure _
    · exact .fail _

theorem readValues_eq_iterate : readValues τ = ReadM.iterate (valueStep τ) [] := by
  have hstep : ∀ values, (values ++ ·) <$> readValues τ = valueStep τ values >>=
      Sum.elim (fun values => (values ++ ·) <$> readValues τ) pure := by
    intro values
    conv_lhs => rw [readValues_eq]
    unfold valueStep
    rw [map_bind, bind_assoc]
    refine bind_congr fun t? => ?_
    cases t? with
    | none => simp
    | some t =>
      dsimp only
      split
      · simp
      · simp
      · rfl
  have h := ReadM.eq_iterate hstep valueStep_progresses []
  simpa using h

theorem skipToTerminator_eq_iterate : RecordM.skipToTerminator = ReadM.iterate passStep () := by
  refine ReadM.eq_iterate (x := fun _ => RecordM.skipToTerminator) (fun _ => ?_) passStep_progresses ()
  conv_lhs => rw [RecordM.skipToTerminator_eq]
  unfold passStep
  rw [bind_assoc]
  refine bind_congr fun t? => ?_
  cases t? <;> rfl

theorem SlotRun.after_after (front next : List σ) (run : SlotRun σ) :
    SlotRun.after front (SlotRun.after next run) = SlotRun.after (front ++ next) run := by
  simp [SlotRun.after, Nat.add_assoc]

theorem ReadM.map_after_fill (mark : τ → σ) (slots : List σ × List σ) :
    SlotRun.after slots.1 <$> ReadM.fill mark slots.2 = fillStep mark slots >>=
      Sum.elim (fun slots => SlotRun.after slots.1 <$> ReadM.fill mark slots.2) pure := by
  obtain ⟨front, _ | ⟨slot, rest⟩⟩ := slots
  · have hnil : ReadM.fill mark [] = pure (⟨[], 0, .full 0⟩ : SlotRun σ) := by
      funext r
      rw [ReadM.fill, fillSlots_nil]
      rfl
    simp [hnil, fillStep]
  have hmap : ∀ next slots, SlotRun.after front <$> SlotRun.after next <$> ReadM.fill mark slots =
      SlotRun.after (front ++ next) <$> ReadM.fill mark slots := by
    intro next slots
    rw [Functor.map_map]
    simp only [SlotRun.after_after]
  dsimp only
  conv_lhs => rw [ReadM.fill_eq mark (List.cons_ne_nil slot rest)]
  unfold fillStep
  rw [map_bind, bind_assoc]
  refine bind_congr fun t? => ?_
  cases t? with
  | none => simp
  | some t =>
    dsimp only
    split
    · simp [hmap]
    · split
      · simp
      · simp [hmap]
    · split
      · rfl
      · simp [hmap]
    · rfl

theorem fill_eq_iterate (mark : τ → σ) (slots : List σ) :
    ReadM.fill mark slots = ReadM.iterate (fillStep mark) ([], slots) := by
  have h := ReadM.eq_iterate (ReadM.map_after_fill mark) (fillStep_progresses mark) ([], slots)
  have hid : SlotRun.after ([] : List σ) = id := by
    funext run
    simp [SlotRun.after]
  simpa only [hid, id_map] using h

end Items

namespace RecordM

/-- Passes one item, after those that were passed, or finds that the record ended. -/
def skipItem (skipped n : Nat) : RecordM ((Nat × Nat) ⊕ Nat) := do
  match ← ofRead ReadM.item with
  | none =>
    setStanding .ended
    return .inr skipped
  | some t =>
    setStanding (.owe ((itemExtent t).1 - n) (itemExtent t).2)
    return .inl (skipped + min (itemExtent t).1 n, n - (itemExtent t).1)

/-- One round of passing over items: those that are owed, or the next one. -/
def skipStep : Nat × Nat → RecordM ((Nat × Nat) ⊕ Nat)
  | (skipped, n) =>
    if n = 0 then return .inr skipped
    else do
      match (← get).standing with
      | .ended => return .inr skipped
      | .owing (count + 1) value =>
        setStanding (.owe (count + 1 - n) value)
        return .inl (skipped + min (count + 1) n, n - (count + 1))
      | _ =>
        setStanding .reading
        skipItem skipped n

theorem ofRead_of_error {x : ReadM α} {e : DeckError} {standing : Standing} (h : x r = .error e r') :
    ofRead x ⟨r, standing⟩ = .error e ⟨r', standing⟩ := by
  rw [ofRead, h]

theorem map_skip_owing (skipped n : Nat) (r : DeckReader) (count : Nat) (value : Option String) :
    ((skipped + ·) <$> skip n) ⟨r, .owing count value⟩ =
      ((skipped + min count n + ·) <$> skip (n - count)) ⟨r, .owe (count - n) value⟩ := by
  have hadd : (fun k => skipped + (min count n + k)) = (skipped + min count n + ·) := by
    funext k
    omega
  rw [Run.map_congr _ (skip_owing n r count value), Run.map_map_eq, hadd]

theorem map_skip_reading (skipped : Nat) {n : Nat} (hn : n ≠ 0) (r : DeckReader) :
    ((skipped + ·) <$> skip n) ⟨r, .reading⟩ = (skipItem skipped n >>=
      Sum.elim (fun p => (p.1 + ·) <$> skip p.2) pure) ⟨r, .reading⟩ := by
  rcases htoken : r.token? with ⟨_ | t, r'⟩
  · rw [Run.map_of_error _ (skip_none hn htoken), skipItem, bind_assoc,
      Run.bind_of_error _ (ofRead_of_error (ReadM.item_of_none htoken))]
  by_cases ht : t.isTerminator = true
  · rw [Run.map_of_ok _ (skip_terminator hn htoken ht), skipItem, bind_assoc,
      Run.bind_of_ok _ (ofRead_of_ok (ReadM.item_of_terminator htoken ht))]
    rfl
  · have hitem := ReadM.item_of_some htoken ht
    rw [Run.map_congr _ (skip_item hn htoken (by simpa using ht)), map_skip_owing, skipItem,
      bind_assoc, Run.bind_of_ok _ (ofRead_of_ok hitem)]
    rfl

theorem map_skip_eq (skipped : Nat) {n : Nat} (hn : n ≠ 0) (s : RecordReader) :
    ((skipped + ·) <$> skip n) s = (skipStep (skipped, n) >>=
      Sum.elim (fun p => (p.1 + ·) <$> skip p.2) pure) s := by
  obtain ⟨r, standing⟩ := s
  rw [skipStep, if_neg hn]
  cases standing with
  | reading => exact map_skip_reading skipped hn r
  | ended => rfl
  | owing count value =>
    rw [map_skip_owing]
    cases count with
    | zero =>
      rw [Nat.zero_min, Nat.add_zero, Nat.sub_zero, Nat.zero_sub]
      exact map_skip_reading skipped hn r
    | succ count => rfl

/-- Fewer items are left after every round that goes on, and what is owed is said in one way. -/
theorem skipStep_next {p p' : Nat × Nat} {s s' : RecordReader} (h : skipStep p s = .ok (.inl p') s') :
    p'.2 < p.2 ∧ ∃ count value, s'.standing = .owe count value := by
  obtain ⟨skipped, n⟩ := p
  obtain ⟨r, standing⟩ := s
  rw [skipStep] at h
  split at h
  · cases h
  next hn =>
  have hitem : skipItem skipped n ⟨r, .reading⟩ = .ok (.inl p') s' →
      p'.2 < n ∧ ∃ count value, s'.standing = .owe count value := by
    intro h
    obtain ⟨t?, s₁, -, hrest⟩ := Run.bind_eq_ok.mp h
    cases t? with
    | none => cases hrest
    | some t =>
      cases hrest
      have hpos := itemExtent_pos t
      exact ⟨by dsimp only; omega, _, _, rfl⟩
  cases standing with
  | reading => exact hitem h
  | ended => cases h
  | owing count value =>
    cases count with
    | zero => exact hitem h
    | succ count =>
      cases h
      exact ⟨by dsimp only; omega, _, _, rfl⟩

/-- Items are passed over in at most as many rounds as there are items to pass. -/
theorem skip_ends (skipped n : Nat) (s : RecordReader)
    (hs : n ≠ 0 ∨ ∃ count value, s.standing = .owe count value) :
    ∃ m ≤ n, Run.Ends skipStep m (skipped, n) s (((skipped + ·) <$> skip n) s) := by
  induction n using Nat.strongRecOn generalizing skipped s with
  | _ n ih =>
  by_cases hn : n = 0
  · obtain ⟨r, standing⟩ := s
    obtain ⟨count, value, rfl⟩ := hs.resolve_left (absurd hn)
    subst hn
    rw [Run.map_of_ok _ (skip_zero r count value)]
    exact ⟨0, Nat.le_refl 0, .done rfl⟩
  rw [map_skip_eq skipped hn]
  cases hround : skipStep (skipped, n) s with
  | error e s' =>
    rw [Run.bind_of_error _ hround]
    exact ⟨0, Nat.zero_le n, .failed hround⟩
  | ok next s' =>
    rw [Run.bind_of_ok _ hround]
    cases next with
    | inr k => exact ⟨0, Nat.zero_le n, .done hround⟩
    | inl p =>
      obtain ⟨hlt, howe⟩ := skipStep_next hround
      obtain ⟨m, hm, hends⟩ := ih p.2 hlt p.1 s' (.inr howe)
      exact ⟨m + 1, Nat.lt_of_le_of_lt hm hlt, .next hround hends⟩

end RecordM

/-- A row of a table is the slots that were filled, and how many were visited. -/
theorem ReadM.tableRow_eq (columns : Nat) :
    ReadM.tableRow columns = (fun run => (run.slots, run.visited)) <$>
      ReadM.fill (some : Float → Option Float) (List.replicate columns none) := by
  funext r
  change _ = EStateM.map _ _ r
  unfold ReadM.tableRow EStateM.map ReadM.fill
  dsimp only
  cases (fillSlots (some : Float → Option Float) (List.replicate columns none) r).1.stop <;> rfl

theorem ReadM.namedStep_eq (fields : String → RecordM α) (records : List α) :
    namedStep fields records = ReadM.item >>= fun
      | none => pure (.inr records)
      | some t => do return .inl (records ++ [← ReadM.record (fields t.text)]) := by
  funext r
  unfold namedStep
  rcases htoken : r.token? with ⟨_ | t, r'⟩
  · rw [Run.bind_of_error _ (token_of_none htoken), Run.bind_of_error _ (item_of_none htoken)]
  · rw [Run.bind_of_ok _ (token_of_some htoken)]
    by_cases ht : t.isTerminator = true
    · rw [Run.bind_of_ok _ (item_of_terminator htoken ht), if_pos ht]
      rfl
    · rw [Run.bind_of_ok _ (item_of_some htoken ht), if_neg ht]

end ReservoirDeck
