import ReservoirDeck.Proofs.Reading.Run

/-!
The loops over the items of a record, one token at a time: what each does with a terminator, a value
and a default marker that come next.
-/

namespace ReservoirDeck

variable {τ σ : Type} [DeckNumber τ] {mark : τ → σ} {slots : List σ} {r r' : DeckReader} {t : Token}

theorem ReadM.token_of_none (h : r.token? = (none, r')) :
    ReadM.token r = .error (r'.error .unexpectedEnd) r' := by
  rw [token, Run.bind_modifyGet_eq, h]
  rfl

theorem ReadM.token_of_some (h : r.token? = (some t, r')) :
    ReadM.token r = .ok t r' := by
  rw [token, Run.bind_modifyGet_eq, h]
  rfl

@[simp] theorem fillSlots_nil (mark : τ → σ) (r : DeckReader) :
    fillSlots mark [] r = (⟨[], 0, .full 0⟩, r) := by
  rw [fillSlots]
  rfl

theorem fillSlots_terminator (hs : slots ≠ []) (h : r.token? = (some t, r'))
    (ht : t.isTerminator = true) :
    fillSlots mark slots r = (⟨slots, 0, .terminated⟩, r'.skipLine) := by
  rw [fillSlots, if_neg (by simpa using hs)]
  split <;> rename_i heq <;> rw [h] at heq <;> cases heq
  simp [ht]

theorem fillSlots_none (hs : slots ≠ []) (h : r.token? = (none, r')) :
    fillSlots mark slots r = SlotRun.fail slots .unexpectedEnd r' := by
  rw [fillSlots, if_neg (by simpa using hs)]
  split <;> rename_i heq <;> rw [h] at heq <;> cases heq
  rfl

theorem fillSlots_item (hs : slots ≠ []) (h : r.token? = (some t, r'))
    (ht : t.isTerminator = false) : fillSlots mark slots r =
      match t.item? τ with
      | some (.value v) =>
        ((fillSlots mark slots.tail r').1.after [mark v], (fillSlots mark slots.tail r').2)
      | some (.defaults k) =>
        if slots.length < k then (⟨slots, slots.length, .full (k - slots.length)⟩, r')
        else
          ((fillSlots mark (slots.drop k) r').1.after (slots.take k),
            (fillSlots mark (slots.drop k) r').2)
      | some (.repeated k v) =>
        if slots.length < k then SlotRun.fail slots (.unreadable t.text) r'
        else
          ((fillSlots mark (slots.drop k) r').1.after (List.replicate k (mark v)),
            (fillSlots mark (slots.drop k) r').2)
      | none => SlotRun.fail slots (.unreadable t.text) r' := by
  have hterminator : ¬ t.isTerminator = true := by simp [ht]
  rw [fillSlots, if_neg (by simpa using hs)]
  split <;> rename_i heq <;> rw [h] at heq <;> cases heq
  exact if_neg hterminator

theorem fillSlots_value {v : τ} (hs : slots ≠ []) (h : r.token? = (some t, r'))
    (ht : t.isTerminator = false) (hv : t.item? τ = some (.value v)) :
    fillSlots mark slots r =
      ((fillSlots mark slots.tail r').1.after [mark v], (fillSlots mark slots.tail r').2) := by
  rw [fillSlots_item hs h ht, hv]

theorem fillSlots_default (hs : slots ≠ []) (h : r.token? = (some t, r'))
    (ht : t.isTerminator = false) (hv : t.item? τ = some (.defaults 1)) :
    fillSlots mark slots r =
      ((fillSlots mark slots.tail r').1.after (slots.take 1), (fillSlots mark slots.tail r').2) := by
  have hlen : ¬ slots.length < 1 := by
    have := List.length_pos_iff.mpr hs
    omega
  rw [fillSlots_item hs h ht, hv]
  dsimp only
  rw [if_neg hlen, List.drop_one]

theorem length_fillSlots (mark : τ → σ) (slots : List σ) (r : DeckReader) :
    (fillSlots mark slots r).1.slots.length = slots.length := by
  have hpos : ∀ slots : List σ, ¬ slots.isEmpty = true → 0 < slots.length :=
    fun slots h => List.length_pos_iff.mpr (by simpa using h)
  fun_induction fillSlots mark slots r with
  | case1 slots r hempty => simp [List.isEmpty_iff.mp hempty]
  | case2 => rfl
  | case3 => rfl
  | case4 slots r hne t r' ht _ hend v hv run r'' hrun ih =>
    have := hpos slots hne
    rw [hrun] at ih
    simp only [SlotRun.after, List.length_append, List.length_singleton, ih, List.length_tail]
    omega
  | case5 => rfl
  | case6 slots r hne t r' ht _ hend k hk hle run r'' hrun ih =>
    rw [hrun] at ih
    simp only [SlotRun.after, List.length_append, List.length_take, ih, List.length_drop]
    omega
  | case7 => rfl
  | case8 slots r hne t r' ht _ hend k v hk hle run r'' hrun ih =>
    rw [hrun] at ih
    simp only [SlotRun.after, List.length_append, List.length_replicate, ih, List.length_drop]
    omega
  | case9 => rfl

theorem countOfChars?_pos {cs : List Char} {k : Nat} (h : countOfChars? cs = some k) : 1 ≤ k := by
  simp only [countOfChars?, Option.filter_eq_some_iff, decide_eq_true_eq] at h
  exact h.2.1

theorem Item.ofText?_count_pos {s : String} :
    (∀ k, (Item.ofText? s : Option (Item τ)) = some (.defaults k) → 1 ≤ k) ∧
      ∀ k v, (Item.ofText? s : Option (Item τ)) = some (.repeated k v) → 1 ≤ k := by
  rw [Item.ofText?]
  split
  · simp
  · simp
  · simp only [Option.map_eq_some_iff, reduceCtorEq, and_false, exists_false, false_implies,
      implies_true, and_true, Item.defaults.injEq]
    rintro k ⟨k, hk, rfl⟩
    exact countOfChars?_pos hk
  · simp only [Option.bind_eq_bind, Option.bind_eq_some_iff, Option.pure_def, Option.some.injEq,
      reduceCtorEq, and_false, exists_false, false_implies, implies_true, true_and,
      Item.repeated.injEq]
    rintro k v ⟨k, hk, x, -, rfl, -⟩
    exact countOfChars?_pos hk

theorem Token.item?_count_pos (t : Token) : (∀ k, t.item? τ = some (.defaults k) → 1 ≤ k) ∧
    ∀ k v, t.item? τ = some (.repeated k v) → 1 ≤ k := by
  rw [Token.item?]
  split
  · simp
  · exact Item.ofText?_count_pos

theorem RecordM.itemExtent_pos (t : Token) : 1 ≤ (itemExtent t).1 := by
  unfold itemExtent
  split
  · next k hk => exact t.item?_count_pos.1 k hk
  · next k v hk => exact t.item?_count_pos.2 k v hk
  · exact Nat.le_refl 1

/-- A first token that is no terminator is read into at least one slot. -/
theorem visited_fillSlots (hs : slots ≠ [])
    (ht : ∀ t r', r.token? = (some t, r') → t.isTerminator = false)
    (hok : ∀ e, (fillSlots mark slots r).1.stop ≠ .failed e) :
    (fillSlots mark slots r).1.visited ≠ 0 := by
  have hpos := List.length_pos_iff.mpr hs
  revert hok
  fun_cases fillSlots mark slots r with
  | case1 hempty => exact absurd (List.isEmpty_iff.mp hempty) hs
  | case2 => exact fun hok => absurd rfl (hok _)
  | case3 hne t r' h _ hend => exact absurd hend (by simp [ht t r' h])
  | case4 => simp [SlotRun.after]
  | case5 => exact fun _ => Nat.ne_of_gt hpos
  | case6 hne t r' h' _ hend k hk hle run r'' hrun =>
    intro _
    have := t.item?_count_pos.1 k hk
    simp only [SlotRun.after, List.length_take]
    omega
  | case7 => exact fun hok => absurd rfl (hok _)
  | case8 hne t r' h' _ hend k v hk hle run r'' hrun =>
    intro _
    have := t.item?_count_pos.2 k v hk
    simp only [SlotRun.after, List.length_replicate]
    omega
  | case9 => exact fun hok => absurd rfl (hok _)

theorem readValues_terminator (h : r.token? = (some t, r')) (ht : t.isTerminator = true) :
    readValues τ r = .ok [] r'.skipLine := by
  rw [readValues]
  split <;> rename_i heq <;> rw [h] at heq <;> cases heq
  simp [ht]

theorem readValues_value {v : τ} {vs : List τ} {r'' : DeckReader} (h : r.token? = (some t, r'))
    (ht : t.isTerminator = false) (hv : t.item? τ = some (.value v))
    (hvs : readValues τ r' = .ok vs r'') : readValues τ r = .ok (v :: vs) r'' := by
  rw [readValues]
  split <;> rename_i heq <;> rw [h] at heq <;> cases heq
  simp [ht, hv, hvs]

theorem RecordM.skipNext_zero (r : DeckReader) : skipNext 0 r = .ok (0, .reading) r := by
  rw [skipNext]
  rfl

theorem RecordM.skipNext_none {n : Nat} (hn : n ≠ 0) (h : r.token? = (none, r')) :
    skipNext n r = .error (r'.error .unexpectedEnd) r' := by
  rw [skipNext, if_neg hn]
  split <;> rename_i heq <;> rw [h] at heq <;> cases heq
  rfl

theorem RecordM.skipNext_terminator {n : Nat} (hn : n ≠ 0) (h : r.token? = (some t, r'))
    (ht : t.isTerminator = true) : skipNext n r = .ok (0, .ended) r'.skipLine := by
  rw [skipNext, if_neg hn]
  split <;> rename_i heq <;> rw [h] at heq <;> cases heq
  simp [ht]

theorem RecordM.skipNext_item {n : Nat} (hn : n ≠ 0) (h : r.token? = (some t, r'))
    (ht : t.isTerminator = false) : skipNext n r =
      if n < (itemExtent t).1 then .ok (n, .owing ((itemExtent t).1 - n) (itemExtent t).2) r'
      else
        match skipNext (n - (itemExtent t).1) r' with
        | .ok (skipped, standing) r'' => .ok ((itemExtent t).1 + skipped, standing) r''
        | .error e r'' => .error e r'' := by
  have hterminator : ¬ t.isTerminator = true := by simp [ht]
  rw [skipNext, if_neg hn]
  split <;> rename_i heq <;> rw [h] at heq <;> cases heq
  exact if_neg hterminator

theorem RecordM.skipNext_default {n : Nat} (hn : n ≠ 0) (h : r.token? = (some t, r'))
    (ht : t.isTerminator = false) (hv : t.item? Float = some (.defaults n)) :
    skipNext n r = .ok (n, .reading) r' := by
  have hextent : itemExtent t = (n, none) := by rw [itemExtent, hv]
  rw [skipNext_item hn h ht, hextent]
  dsimp only
  rw [if_neg (Nat.lt_irrefl n), Nat.sub_self, skipNext_zero]
  rfl

theorem RecordM.skipToTerminator_none (h : r.token? = (none, r')) :
    skipToTerminator r = .error (r'.error .unexpectedEnd) r' := by
  rw [skipToTerminator]
  split <;> rename_i heq <;> rw [h] at heq <;> cases heq
  rfl

theorem RecordM.skipToTerminator_item (h : r.token? = (some t, r')) (ht : t.isTerminator = false) :
    skipToTerminator r = skipToTerminator r' := by
  rw [skipToTerminator]
  split <;> rename_i heq <;> rw [h] at heq <;> cases heq
  simp [ht]

theorem RecordM.skipToTerminator_terminator (h : r.token? = (some t, r'))
    (ht : t.isTerminator = true) : skipToTerminator r = .ok () r'.skipLine := by
  rw [skipToTerminator]
  split <;> rename_i heq <;> rw [h] at heq <;> cases heq
  simp [ht]

namespace RecordM

def pay (mark : τ → σ) (slots : List σ) : Option String → RecordM (List σ)
  | none => pure slots
  | some text =>
    if slots = [] then pure []
    else
      match DeckNumber.ofText? text with
      | some v => pure (List.replicate slots.length (mark v))
      | none => fail (.unreadable text)

/-- Owed fields first; what is left is filled from the tokens ahead. -/
theorem numbers_eq (mark : τ → σ) (slots : List σ) : numbers mark slots = (do
    match (← get).standing with
    | .ended => return (0, slots)
    | .reading => fillNext mark slots
    | .owing count value =>
      let front ← pay mark (slots.take count) value
      setStanding (.owe (count - min count slots.length) value)
      if min count slots.length = slots.length then return (min count slots.length, front)
      else
        let rest ← fillNext mark (slots.drop (min count slots.length))
        return (min count slots.length + rest.1, front ++ rest.2)) := by
  funext ⟨r, standing⟩
  unfold numbers pay
  rw [Run.bind_get_eq, Run.bind_get_eq]
  cases standing with
  | ended => rfl
  | reading => rfl
  | owing count value =>
    have hlen : (slots.take count).length = min count slots.length := List.length_take
    have hnil : slots.take count = [] ↔ min count slots.length = 0 := by
      rw [← hlen, List.length_eq_zero_iff]
    dsimp only
    cases value with
    | none =>
      have htake : slots.take count = slots.take (min count slots.length) :=
        List.take_eq_take_min
      rw [htake]
    | some text =>
      dsimp only
      rw [hlen]
      by_cases hpaid : min count slots.length = 0
      · rw [if_pos (hnil.mpr hpaid), if_pos hpaid]
      · rw [if_neg (hpaid ∘ hnil.mp), if_neg hpaid]
        cases (DeckNumber.ofText? text : Option τ) <;> rfl

theorem pay_cases (mark : τ → σ) (slots : List σ) (value : Option String) :
    (∃ front, front.length = slots.length ∧ pay mark slots value = pure front) ∨
      ∃ cause, pay mark slots value = fail cause := by
  cases value with
  | none => exact .inl ⟨slots, rfl, rfl⟩
  | some text =>
    rw [pay]
    split
    · next hs => exact .inl ⟨[], by rw [hs], rfl⟩
    · cases (DeckNumber.ofText? text : Option τ) with
      | none => exact .inr ⟨_, rfl⟩
      | some v => exact .inl ⟨_, List.length_replicate, rfl⟩

end RecordM

end ReservoirDeck
