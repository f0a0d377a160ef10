import ReservoirDeck.Proofs.Decimal.Items
import ReservoirDeck.Proofs.Reading.Items
import ReservoirDeck.Proofs.Record.Steps
import ReservoirDeck.Record.State

/-!
The account of a record: how many of its next fields are owed, with which value, and whether the slash was
read. Every call on these three gives what the same call on the standing of the record gives, and leaves
them as that standing says. So a value is owed only with a field, and nothing is owed behind the slash.
-/

namespace ReservoirDeck

section Counts

variable {τ σ : Type} [DeckNumber τ]

theorem Item.length_le {s : String} {i : Item τ} (h : Item.ofText? s = some i) :
    (∀ k, i = .defaults k → k ≤ maxCount) ∧ ∀ k v, i = .repeated k v → k ≤ maxCount := by
  have hspelled := Item.spelled_of_ofText? h
  constructor
  · rintro k rfl
    cases hspelled with
    | defaults hmarker => exact hmarker.bounds.2
  · rintro k v rfl
    cases hspelled with
    | repeated hrun => exact hrun.le

theorem Token.length_le {t : Token} {i : Item τ} (h : t.item? τ = some i) :
    (∀ k, i = .defaults k → k ≤ maxCount) ∧ ∀ k v, i = .repeated k v → k ≤ maxCount := by
  rw [Token.item?] at h
  split at h
  · cases h
  · exact Item.length_le h

theorem RecordM.itemExtent_le (t : Token) : (itemExtent t).1 ≤ maxCount := by
  unfold itemExtent
  split
  · next k hk => exact (Token.length_le hk).1 _ rfl
  · next k v hk => exact (Token.length_le hk).2 _ _ rfl
  · decide

theorem fillSlots_overflow_lt (mark : τ → σ) (slots : List σ) (r : DeckReader) {left : Nat}
    (h : (fillSlots mark slots r).1.stop = .full left) : left < maxCount := by
  fun_induction fillSlots mark slots r with
  | case1 =>
    cases h
    decide
  | case2 => cases h
  | case3 => cases h
  | case4 slots r hne t r' htoken _ ht v hv run r'' hrun ih =>
    rw [hrun] at ih
    exact ih h
  | case5 slots r hne t r' htoken _ ht k hk hlt =>
    cases h
    have hpos : 0 < slots.length := List.length_pos_iff.mpr (by simpa using hne)
    have hle := (Token.length_le hk).1 k rfl
    omega
  | case6 slots r hne t r' htoken _ ht k hk hle run r'' hrun ih =>
    rw [hrun] at ih
    exact ih h
  | case7 => cases h
  | case8 slots r hne t r' htoken _ ht k v hk hle run r'' hrun ih =>
    rw [hrun] at ih
    exact ih h
  | case9 => cases h

end Counts

namespace Standing

/-- Something is owed, and no more than the largest count. -/
def Sound (st : Standing) : Prop :=
  ∀ count value, st = .owing count value → 0 < count ∧ count ≤ maxCount

theorem sound_reading : Sound .reading := by
  rintro _ _ ⟨⟩

theorem sound_ended : Sound .ended := by
  rintro _ _ ⟨⟩

theorem sound_owe {count : Nat} (h : count ≤ maxCount) (value : Option String) :
    Sound (.owe count value) := by
  unfold owe
  split
  · exact sound_reading
  · rintro _ _ ⟨⟩
    exact ⟨Nat.pos_of_ne_zero ‹_›, h⟩

theorem Sound.owe_sub {count : Nat} {value : Option String} (h : Sound (.owing count value)) (n : Nat) :
    Sound (.owe (count - n) value) :=
  sound_owe (Nat.le_trans (Nat.sub_le ..) (h _ _ rfl).2) value

end Standing

open Standing (Sound)

namespace RecordReader

/-- A record as it is held. -/
def toState : RecordReader → RecordState
  | ⟨r, .reading⟩ => .new r
  | ⟨r, .owing count value⟩ => ⟨r, count, value, false⟩
  | ⟨r, .ended⟩ => ⟨r, 0, none, true⟩

@[simp] theorem reader_toState (s : RecordReader) : s.toState.reader = s.reader := by
  obtain ⟨r, standing⟩ := s
  cases standing <;> rfl

theorem toState_owe (r : DeckReader) (count : Nat) (value : Option String) :
    toState ⟨r, .owe count value⟩ = ⟨r, count, if count = 0 then none else value, false⟩ := by
  unfold Standing.owe
  split
  · next h => rw [h]; rfl
  · rfl

theorem eq_reading {s : RecordReader} (hs : s.standing.Sound) (hended : ¬ s.toState.terminated = true)
    (howed : ¬ 0 < s.toState.pendingDefaults) :
    ∃ r, s = ⟨r, .reading⟩ := by
  obtain ⟨r, standing⟩ := s
  cases standing with
  | reading => exact ⟨r, rfl⟩
  | owing count value => exact absurd (hs _ _ rfl).1 howed
  | ended => exact absurd rfl hended

end RecordReader

open RecordReader (toState toState_owe eq_reading)

/-- The same result, from the same record, whose account is in order. -/
inductive SameResult {α : Type} :
    EStateM.Result DeckError RecordState α → EStateM.Result DeckError RecordReader α → Prop
  | ok (a : α) {s : RecordReader} (h : s.standing.Sound) : SameResult (.ok a s.toState) (.ok a s)
  | error (e : DeckError) {s : RecordReader} (h : s.standing.Sound) :
    SameResult (.error e s.toState) (.error e s)

/-- The first action does on every record that is held what the second does on its standing. -/
def RecordStateM.Refines {α : Type} (x : RecordStateM α) (y : RecordM α) : Prop :=
  ∀ s : RecordReader, s.standing.Sound → SameResult (x s.toState) (y s)

/-- After the same result, actions of which one does what the other does have the same result. -/
theorem SameResult.bind {α β : Type} {x : RecordStateM α} {y : RecordM α} {f : α → RecordStateM β}
    {g : α → RecordM β} {c : RecordState} {s : RecordReader} (h : SameResult (x c) (y s))
    (hf : ∀ a, (f a).Refines (g a)) : SameResult ((x >>= f) c) ((y >>= g) s) := by
  generalize hx : x c = rx at h
  generalize hy : y s = ry at h
  cases h with
  | ok a hs =>
    rw [Run.bind_of_ok f hx, Run.bind_of_ok g hy]
    exact hf a _ hs
  | error e hs =>
    rw [Run.bind_of_error f hx, Run.bind_of_error g hy]
    exact .error e hs

namespace RecordStateM

variable {α β τ σ : Type}

theorem Refines.pure (a : α) : Refines (pure a) (pure a) :=
  fun _ h => .ok a h

theorem Refines.bind {x : RecordStateM α} {y : RecordM α} {f : α → RecordStateM β}
    {g : α → RecordM β} (h : Refines x y) (hf : ∀ a, Refines (f a) (g a)) :
    Refines (x >>= f) (y >>= g) :=
  fun s hs => (h s hs).bind hf

theorem Refines.fail (cause : Cause) : Refines (fail cause : RecordStateM α) (RecordM.fail cause) := by
  intro s hs
  change SameResult (.error (s.toState.reader.error cause) s.toState) (.error (s.reader.error cause) s)
  rw [RecordReader.reader_toState]
  exact .error _ hs

theorem ofRead_token_new (r : DeckReader) :
    ofRead ReadM.token (.new r) = match r.token? with
      | (some t, r') => .ok t (.new r')
      | (none, r') => .error (r'.error .unexpectedEnd) (.new r') := by
  rcases htoken : r.token? with ⟨_ | t, r'⟩
  · simp only [ofRead, RecordState.new, ReadM.token_of_none htoken]
  · simp only [ofRead, RecordState.new, ReadM.token_of_some htoken]

theorem takeOwed_owing (r : DeckReader) {count : Nat} (h : 0 < count) (value : Option String) :
    takeOwed (toState ⟨r, .owing count value⟩) =
      .ok (value.elim .default .value) (toState ⟨r, .owe (count - 1) value⟩) := by
  rw [RecordReader.toState_owe, takeOwed, if_neg (by simp [toState])]
  exact dif_neg (Nat.ne_of_gt h)

theorem string_refines (default : String) : Refines (string default) (RecordM.name default) := by
  rintro ⟨r, standing⟩ hs
  cases standing with
  | ended => exact .ok _ hs
  | owing count value =>
    have hpaid := takeOwed_owing r (hs _ _ rfl).1 value
    unfold string
    rw [Run.bind_of_ok _ hpaid]
    cases value with
    | none => exact .ok _ (hs.owe_sub 1)
    | some text => exact .ok _ (hs.owe_sub 1)
  | reading =>
    have hnothing : takeOwed (.new r) = .ok .nothing (.new r) := rfl
    have htoken := ofRead_token_new r
    change SameResult (string default (.new r)) _
    unfold string
    rw [Run.bind_of_ok _ hnothing]
    dsimp only
    rcases hnext : r.token? with ⟨_ | t, r'⟩ <;> rw [hnext] at htoken
    · rw [Run.bind_of_error _ htoken, RecordM.name_none default hnext]
      exact .error _ (s := ⟨r', .reading⟩) hs
    rw [Run.bind_of_ok _ htoken]
    by_cases ht : t.isTerminator = true
    · rw [if_pos ht, RecordM.name_terminator default hnext ht]
      exact .ok _ (s := ⟨r'.skipLine, .ended⟩) Standing.sound_ended
    rw [if_neg ht, RecordM.name_item default hnext (by simpa using ht)]
    cases t.quoting with
    | unterminated => exact .error _ (s := ⟨r', .reading⟩) hs
    | quoted => exact .ok _ (s := ⟨r', .reading⟩) hs
    | bare =>
      dsimp only
      cases hcount : defaultCount? t.text with
      | none => exact .ok _ (s := ⟨r', .reading⟩) hs
      | some count =>
        have hbounds := (defaultCount?_eq_some.mp hcount).bounds
        have hle : count - 1 ≤ maxCount := by omega
        have hpaid := SameResult.ok (Defaulted.missing default) (s := ⟨r', .owe (count - 1) none⟩)
          (Standing.sound_owe hle none)
        rwa [toState_owe, ite_self] at hpaid

theorem fillNext_new [DeckNumber τ] (mark : τ → σ) (slots : List σ) (r : DeckReader) :
    SameResult (fillNext mark slots (.new r)) (RecordM.fillNext mark slots ⟨r, .reading⟩) := by
  have hlt := @fillSlots_overflow_lt _ _ _ mark slots r
  unfold fillNext RecordM.fillNext RecordState.new
  dsimp only
  generalize fillSlots mark slots r = x at hlt ⊢
  obtain ⟨⟨slots', visited, stop⟩, r'⟩ := x
  cases stop with
  | full left =>
    have hfull := SameResult.ok (visited, slots') (s := ⟨r', .owe left none⟩)
      (Standing.sound_owe (Nat.le_of_lt (hlt rfl)) none)
    rw [toState_owe, ite_self] at hfull
    dsimp only
    rwa [Nat.zero_add]
  | terminated => exact .ok _ (s := ⟨r', .ended⟩) Standing.sound_ended
  | failed e => exact .error e (s := ⟨r', .reading⟩) Standing.sound_reading

/-- What is owed is put into as many slots, or into none if it cannot be read. -/
theorem pay_owing [DeckNumber τ] (mark : τ → σ) (slots : List σ) (r : DeckReader) (count : Nat)
    (value : Option String) :
    (∃ front, front.length = (slots.take count).length ∧
      RecordM.pay mark (slots.take count) value = pure front ∧
        pay mark slots (toState ⟨r, .owing count value⟩) =
          .ok front (toState ⟨r, .owe (count - slots.length) value⟩)) ∨
      ∃ cause, RecordM.pay mark (slots.take count) value = RecordM.fail cause ∧
        pay mark slots (toState ⟨r, .owing count value⟩) =
          .error (r.error cause) (toState ⟨r, .owing count value⟩) := by
  have hlen : (slots.take count).length = min count slots.length := List.length_take
  have hleft : count - slots.length = count - min count slots.length := by omega
  have htake : slots.take count = slots.take (min count slots.length) := List.take_eq_take_min
  rw [hleft, toState_owe]
  unfold pay
  cases value with
  | none => exact .inl ⟨slots.take count, rfl, rfl, by rw [htake]; rfl⟩
  | some text =>
    dsimp only [toState]
    by_cases hpaid : 0 < min count slots.length
    · have hne : slots.take count ≠ [] := by
        rwa [← List.length_pos_iff, hlen]
      simp only [RecordM.pay, if_neg hne, Option.filter_some, hpaid, decide_true, if_true, hlen]
      cases (DeckNumber.ofText? text : Option τ) with
      | none => exact .inr ⟨_, rfl, rfl⟩
      | some v => exact .inl ⟨_, List.length_replicate, rfl, rfl⟩
    · have hzero : min count slots.length = 0 := Nat.eq_zero_of_not_pos hpaid
      rw [hzero] at hlen
      have hnil : slots.take count = [] := List.length_eq_zero_iff.mp hlen
      refine .inl ⟨[], by rw [hnil], by simp only [RecordM.pay, hnil, if_true], ?_⟩
      simp [hzero, RecordState.settle]

theorem fillBehind_new [DeckNumber τ] (mark : τ → σ) (slots front : List σ) (r : DeckReader) :
    SameResult (fillBehind mark slots front (.new r))
      ((RecordM.visited front <$> RecordM.numbers mark (slots.drop front.length)) ⟨r, .reading⟩) := by
  unfold fillBehind
  split
  · next heq =>
    have hnil : RecordM.numbers mark [] ⟨r, .reading⟩ = .ok (0, []) ⟨r, .reading⟩ :=
      RecordM.numbers_nil mark r 0 none
    rw [List.drop_eq_nil_of_le (Nat.le_of_eq heq.symm), Run.map_of_ok _ hnil, RecordM.visited,
      List.append_nil]
    exact .ok (front.length, front) (s := ⟨r, .reading⟩) Standing.sound_reading
  · rw [map_eq_pure_bind]
    exact (fillNext_new mark _ r).bind fun rest => .pure _

theorem numbers_refines [DeckNumber τ] (mark : τ → σ) (slots : List σ) :
    Refines (numbers mark slots) (RecordM.numbers mark slots) := by
  rintro ⟨r, standing⟩ hs
  cases standing with
  | ended => exact .ok _ hs
  | reading =>
    have hnone : pay mark slots (.new r) = .ok [] (.new r) := by
      simp [pay, RecordState.new, RecordState.settle]
    have hfill := fillBehind_new mark slots [] r
    change SameResult ((pay mark slots >>= fillBehind mark slots) (.new r)) _
    rw [Run.bind_of_ok _ hnone]
    rwa [RecordM.visited_nil, id_map] at hfill
  | owing count value =>
    change SameResult ((pay mark slots >>= fillBehind mark slots) (toState ⟨r, .owing count value⟩)) _
    rcases pay_owing mark slots r count value with ⟨front, hlen, hpay, hpaid⟩ | ⟨cause, hpay, hfail⟩
    · rw [RecordM.numbers_of_pay hlen hpay, Run.bind_of_ok _ hpaid]
      rw [List.length_take] at hlen
      rcases Nat.lt_or_ge count slots.length with hlt | hle
      · rw [Nat.sub_eq_zero_of_le (Nat.le_of_lt hlt)]
        have hcount : front.length = count := by omega
        have hfill := fillBehind_new mark slots front r
        rwa [hcount] at hfill
      · have hall : front.length = slots.length := by omega
        rw [List.drop_eq_nil_of_le hle, Run.map_of_ok _ (RecordM.numbers_nil mark r _ value),
          RecordM.visited, List.append_nil, fillBehind, if_pos hall]
        exact .ok _ (hs.owe_sub slots.length)
    · rw [RecordM.numbers_of_pay_fail hpay, Run.bind_of_error _ hfail]
      exact .error _ hs

theorem skip_zero {s : RecordReader} (hs : s.standing.Sound) : RecordM.skip 0 s = .ok 0 s := by
  obtain ⟨r, standing⟩ := s
  cases standing with
  | reading => exact RecordM.skip_zero r 0 none
  | owing count value =>
    rw [Standing.owing_eq_owe (hs _ _ rfl).1]
    exact RecordM.skip_zero r count value
  | ended => rfl

/-- Owed items are passed first, on top of those that were passed before. -/
theorem skip_owing_add (n skipped : Nat) (r : DeckReader) (count : Nat) (value : Option String) :
    let owed := min count (n - skipped)
    ((skipped + ·) <$> RecordM.skip (n - skipped)) ⟨r, .owing count value⟩ =
      ((skipped + owed + ·) <$> RecordM.skip (n - (skipped + owed))) ⟨r, .owe (count - owed) value⟩ := by
  intro owed
  have hmore : n - skipped - count = n - (skipped + owed) := by omega
  have hleft : count - (n - skipped) = count - owed := by omega
  rw [Run.map_congr _ (RecordM.skip_owing (n - skipped) r count value), Run.map_map_eq, hmore, hleft]
  simp only [Nat.add_assoc]
  rfl

theorem skipFrom_refines (n skipped : Nat) :
    Refines (skipFrom n skipped) ((skipped + ·) <$> RecordM.skip (n - skipped)) := by
  intro s hs
  generalize hc : s.toState = c
  fun_induction skipFrom n skipped c generalizing s with
  | case1 skipped c hdone =>
    rw [Nat.sub_eq_zero_of_le hdone, Run.map_of_ok _ (skip_zero hs), Nat.add_zero, ← hc]
    exact .ok skipped hs
  | case2 skipped c hmore hended =>
    obtain ⟨r, standing⟩ := s
    cases standing with
    | ended =>
      rw [← hc]
      exact .ok skipped hs
    | _ => rw [← hc] at hended; cases hended
  | case3 skipped c hmore hended howed owed ih =>
    obtain ⟨r, standing⟩ := s
    cases standing with
    | owing count value =>
      subst hc
      rw [skip_owing_add]
      exact ih _ (hs.owe_sub owed) (toState_owe ..)
    | _ => rw [← hc] at howed; cases howed
  | case4 skipped c hmore hended hnone r' hnext =>
    obtain ⟨r, rfl⟩ := eq_reading hs (hc ▸ hended) (hc ▸ hnone)
    subst hc
    have hskip := RecordM.skip_none (r := r) (Nat.sub_ne_zero_of_lt (Nat.lt_of_not_le hmore)) hnext
    rw [Run.map_of_error _ hskip]
    exact .error _ (s := ⟨r', .reading⟩) hs
  | case5 skipped c hmore hended hnone t r' hnext _ ht =>
    obtain ⟨r, rfl⟩ := eq_reading hs (hc ▸ hended) (hc ▸ hnone)
    subst hc
    have hskip := RecordM.skip_terminator (r := r) (Nat.sub_ne_zero_of_lt (Nat.lt_of_not_le hmore))
      hnext ht
    rw [Run.map_of_ok _ hskip]
    exact .ok skipped (s := ⟨r'.skipLine, .ended⟩) Standing.sound_ended
  | case6 skipped c hmore hended hnone t r' hnext _ ht count value hextent taken ih =>
    obtain ⟨r, rfl⟩ := eq_reading hs (hc ▸ hended) (hc ▸ hnone)
    subst hc
    have hskip := RecordM.skip_item (r := r) (Nat.sub_ne_zero_of_lt (Nat.lt_of_not_le hmore)) hnext
      (by simpa using ht)
    have hle := RecordM.itemExtent_le t
    rw [hextent] at hle hskip
    rw [Run.map_congr _ hskip, skip_owing_add]
    refine ih _ (Standing.sound_owe (Nat.le_trans (Nat.sub_le ..) hle) value) ?_
    have hleft : (if count - taken = 0 then none else value) = if taken < count then value else none := by
      split <;> split <;> first | rfl | omega
    rw [toState_owe, hleft]
    rfl

theorem skip_refines (n : Nat) : Refines (skip n) (RecordM.skip n) := by
  have hall := skipFrom_refines n 0
  have hid : ((0 + ·) : Nat → Nat) = id := funext Nat.zero_add
  rwa [hid, id_map, Nat.sub_zero] at hall

theorem requiredString_refines (what : String) :
    Refines (requiredString what) (RecordM.requiredName what) := by
  refine (string_refines "").bind fun field => ?_
  cases field with
  | given text => exact .pure text
  | missing _ => exact .fail _

theorem number_refines [DeckNumber τ] (default : τ) :
    Refines (number default) (RecordM.number default) :=
  (numbers_refines some [none]).bind fun _ => .pure _

theorem requiredNumber_refines [DeckNumber τ] (what : String) :
    Refines (requiredNumber τ what) (RecordM.requiredNumber τ what) := by
  refine (numbers_refines some [none]).bind fun (_, slots) => ?_
  dsimp only
  cases slots.head?.join with
  | some v => exact .pure v
  | none => exact .fail _

theorem Refines.ofRead (action : ReadM α) : Refines (ofRead action) (RecordM.ofRead action) := by
  rintro ⟨r, standing⟩ hs
  unfold RecordStateM.ofRead RecordM.ofRead
  rw [RecordReader.reader_toState]
  cases action r with
  | ok a r' => cases standing <;> exact .ok a (s := ⟨r', _⟩) hs
  | error e r' => cases standing <;> exact .error e (s := ⟨r', _⟩) hs

theorem finish_refines : Refines finish RecordM.finish := by
  intro s hs
  have hread := Refines.ofRead RecordM.skipToTerminator s hs
  obtain ⟨r, standing⟩ := s
  cases standing with
  | ended => exact .ok () hs
  | reading | owing => exact hread

theorem finishRow_refines : Refines finishRow RecordM.finishRow := by
  intro s hs
  have hread := (Refines.ofRead ReadM.terminator).bind (fun _ => .pure ()) s hs
  obtain ⟨r, standing⟩ := s
  cases standing with
  | ended => exact .ok () hs
  | reading | owing => exact hread

/-- A record that is held is read as one that only says how it stands. -/
theorem Refines.run_eq {x : RecordStateM α} {y : RecordM α} (h : Refines x y) :
    run x = RecordM.run y := by
  funext r
  have hsame : SameResult (x (.new r)) (y ⟨r, .reading⟩) := h ⟨r, .reading⟩ Standing.sound_reading
  unfold run RecordM.run
  generalize x (.new r) = rx at hsame
  generalize y ⟨r, .reading⟩ = ry at hsame
  cases hsame with
  | ok a hs => simp
  | error e hs => simp

end RecordStateM

/-- A call on a record. -/
inductive RecordCall : Type 1
  | string (default : String)
  | requiredString (what : String)
  | number (τ : Type) [DeckNumber τ] (default : τ)
  | requiredNumber (τ : Type) [DeckNumber τ] (what : String)
  | numbers (τ σ : Type) [DeckNumber τ] (mark : τ → σ) (slots : List σ)
  | skip (n : Nat)

namespace RecordCall

/-- How a call leaves a record, whether or not it fails. -/
def after : RecordCall → RecordState → RecordState
  | string default, s => Run.state (RecordStateM.string default s)
  | requiredString what, s => Run.state (RecordStateM.requiredString what s)
  | number _ default, s => Run.state (RecordStateM.number default s)
  | requiredNumber τ what, s => Run.state (RecordStateM.requiredNumber τ what s)
  | numbers _ _ mark slots, s => Run.state (RecordStateM.numbers mark slots s)
  | skip n, s => Run.state (RecordStateM.skip n s)

/-- How calls leave a record, one after the other. -/
def afterAll (calls : List RecordCall) (s : RecordState) : RecordState :=
  calls.foldl (fun s call => call.after s) s

end RecordCall

namespace RecordState

/-- The three fields say how a record stands. -/
def Stands (s : RecordState) : Prop :=
  ∃ t : RecordReader, t.standing.Sound ∧ s = t.toState

theorem stands_new (r : DeckReader) : (new r).Stands :=
  ⟨⟨r, .reading⟩, Standing.sound_reading, rfl⟩

theorem Stands.of_refines {α : Type} {x : RecordStateM α} {y : RecordM α} (h : x.Refines y)
    {s : RecordState} (hs : s.Stands) : (Run.state (x s)).Stands := by
  obtain ⟨t, ht, rfl⟩ := hs
  have hsame := h t ht
  generalize x t.toState = rx at hsame
  generalize y t = ry at hsame
  cases hsame with
  | ok a ht' => exact ⟨_, ht', rfl⟩
  | error e ht' => exact ⟨_, ht', rfl⟩

theorem Stands.after {s : RecordState} (hs : s.Stands) (call : RecordCall) :
    (call.after s).Stands := by
  cases call with
  | string default => exact hs.of_refines (RecordStateM.string_refines default)
  | requiredString what => exact hs.of_refines (RecordStateM.requiredString_refines what)
  | number τ default => exact hs.of_refines (RecordStateM.number_refines default)
  | requiredNumber τ what => exact hs.of_refines (RecordStateM.requiredNumber_refines what)
  | numbers τ σ mark slots => exact hs.of_refines (RecordStateM.numbers_refines mark slots)
  | skip n => exact hs.of_refines (RecordStateM.skip_refines n)

theorem Stands.afterAll {s : RecordState} (hs : s.Stands) (calls : List RecordCall) :
    (RecordCall.afterAll calls s).Stands := by
  induction calls generalizing s with
  | nil => exact hs
  | cons call calls ih => exact ih (hs.after call)

/-- The account is in order. -/
structure Balanced (s : RecordState) : Prop where
  value : s.pendingValue ≠ none → 0 < s.pendingDefaults
  bounded : s.pendingDefaults ≤ 2 ^ 24
  terminated : s.terminated = true → s.pendingDefaults = 0 ∧ s.pendingValue = none

theorem Stands.balanced {s : RecordState} (hs : s.Stands) : s.Balanced := by
  obtain ⟨⟨r, standing⟩, hsound, rfl⟩ := hs
  cases standing with
  | reading => exact ⟨fun h => absurd rfl h, Nat.zero_le _, fun _ => ⟨rfl, rfl⟩⟩
  | owing count value =>
    obtain ⟨hpos, hle⟩ := hsound _ _ rfl
    exact ⟨fun _ => hpos, hle, fun h => by cases h⟩
  | ended => exact ⟨fun h => absurd rfl h, Nat.zero_le _, fun _ => ⟨rfl, rfl⟩⟩

/-- Nothing is read of this record any more, and every field of it is left out. -/
structure LeavesOut (s : RecordState) : Prop where
  after : ∀ call : RecordCall, call.after s = s
  string : ∀ default, RecordStateM.string default s = .ok (.missing default) s
  requiredString : ∀ what, RecordStateM.requiredString what s =
    .error (s.reader.error (.malformed (.required what))) s
  number : ∀ {τ : Type} [DeckNumber τ] (default : τ),
    RecordStateM.number default s = .ok (.missing default) s
  requiredNumber : ∀ (τ : Type) [DeckNumber τ] (what : String), RecordStateM.requiredNumber τ what s =
    .error (s.reader.error (.malformed (.required what))) s
  numbers : ∀ {τ σ : Type} [DeckNumber τ] (mark : τ → σ) (slots : List σ),
    RecordStateM.numbers mark slots s = .ok (0, slots) s
  skip : ∀ n, RecordStateM.skip n s = .ok 0 s

theorem leavesOut_of_terminated {s : RecordState} (h : s.terminated = true) : s.LeavesOut := by
  obtain ⟨r, count, value, terminated⟩ := s
  obtain rfl : terminated = true := h
  have hskip (n : Nat) : RecordStateM.skip n ⟨r, count, value, true⟩ = .ok 0 ⟨r, count, value, true⟩ := by
    rw [RecordStateM.skip, RecordStateM.skipFrom]
    simp
  refine ⟨fun call => ?_, fun _ => rfl, fun _ => rfl, fun _ => rfl, fun _ _ _ => rfl,
    fun _ _ => rfl, hskip⟩
  cases call with
  | skip n =>
    rw [RecordCall.after, hskip]
    rfl
  | _ => rfl

/-- Whatever is called on a record, and whether or not the calls succeed, its account is in order. Once
the slash was read the record stays as it is, and every field of it is left out. -/
theorem calls_account (r : DeckReader) (calls : List RecordCall) :
    (RecordCall.afterAll calls (new r)).Balanced ∧
      ((RecordCall.afterAll calls (new r)).terminated = true →
        (RecordCall.afterAll calls (new r)).LeavesOut) :=
  ⟨((stands_new r).afterAll calls).balanced, leavesOut_of_terminated⟩

/-- A call that fails at a name and then items that are passed, up to the middle of a repetition and
past the slash. -/
theorem calls_account_passed :
    let s (n : Nat) := RecordCall.afterAll [.number Float 0.5, .skip n]
      (new (.ofString "B 1* 4*7 / c\n"))
    (s 3).pendingDefaults = 2 ∧ (s 3).pendingValue = some "7" ∧ (s 3).Balanced ∧
      (s 9).terminated = true ∧ (s 9).LeavesOut := by
  intro s
  have howed : (s 3).pendingDefaults = 2 := by decide +kernel
  have hvalue : (s 3).pendingValue = some "7" := by decide +kernel
  have hended : (s 9).terminated = true := by decide +kernel
  obtain ⟨hbalanced, -⟩ := calls_account (.ofString "B 1* 4*7 / c\n") [.number Float 0.5, .skip 3]
  obtain ⟨-, hleaves⟩ := calls_account (.ofString "B 1* 4*7 / c\n") [.number Float 0.5, .skip 9]
  exact ⟨howed, hvalue, hbalanced, hended, hleaves hended⟩

end RecordState

end ReservoirDeck
