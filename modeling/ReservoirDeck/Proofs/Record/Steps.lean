import ReservoirDeck.Proofs.Reading.Items

/-!
The calls of a record, one token at a time. A call first takes what is owed; then it looks at the next
token. An item that stands for several fields is owed in full, and the call is made again.
-/

namespace ReservoirDeck

theorem Standing.owing_eq_owe {count : Nat} (h : 1 ≤ count) {value : Option String} :
    Standing.owing count value = .owe count value := by
  rw [owe, if_neg (Nat.ne_of_gt h)]

theorem Standing.owe_ne_ended (count : Nat) (value : Option String) :
    Standing.owe count value ≠ .ended := by
  unfold owe
  split <;> simp

namespace RecordM

variable {τ σ : Type} [DeckNumber τ] {mark : τ → σ} {slots : List σ} {r r' : DeckReader} {t : Token}

section Names

variable (default : String)

theorem name_none (h : r.token? = (none, r')) :
    name default ⟨r, .reading⟩ = .error (r'.error .unexpectedEnd) ⟨r', .reading⟩ := by
  have htoken : ofRead ReadM.token ⟨r, .reading⟩ =
      .error (r'.error .unexpectedEnd) ⟨r', .reading⟩ := by
    rw [ofRead, ReadM.token_of_none h]
  unfold name
  rw [Run.bind_get_eq]
  exact Run.bind_of_error _ htoken

theorem name_terminator (h : r.token? = (some t, r')) (ht : t.isTerminator = true) :
    name default ⟨r, .reading⟩ = .ok (.missing default) ⟨r'.skipLine, .ended⟩ := by
  have htoken : ofRead ReadM.token ⟨r, .reading⟩ = .ok t ⟨r', .reading⟩ := by
    rw [ofRead, ReadM.token_of_some h]
  unfold name
  rw [Run.bind_get_eq]
  dsimp only
  rw [Run.bind_of_ok _ htoken, if_pos ht]
  rfl

theorem name_item (h : r.token? = (some t, r')) (ht : t.isTerminator = false) :
    name default ⟨r, .reading⟩ = match t.quoting with
      | .unterminated => .error (r'.error (.malformed (.openQuote t.text))) ⟨r', .reading⟩
      | .quoted => .ok (.given t.text) ⟨r', .reading⟩
      | .bare =>
        match defaultCount? t.text with
        | some count => name default ⟨r', .owing count none⟩
        | none => .ok (.given t.text) ⟨r', .reading⟩ := by
  have hterminator : ¬ t.isTerminator = true := by simp [ht]
  have htoken : ofRead ReadM.token ⟨r, .reading⟩ = .ok t ⟨r', .reading⟩ := by
    rw [ofRead, ReadM.token_of_some h]
  conv =>
    lhs
    unfold name
  rw [Run.bind_get_eq]
  dsimp only
  rw [Run.bind_of_ok _ htoken, if_neg hterminator]
  cases t.quoting with
  | bare => cases defaultCount? t.text <;> rfl
  | _ => rfl

end Names

theorem fillNext_nil (mark : τ → σ) (s : RecordReader) :
    fillNext mark [] s = .ok (0, []) ⟨s.reader, .reading⟩ := by
  rw [fillNext, fillSlots_nil]
  rfl

/-- Slots that were visited earlier come in front. -/
def visited (front : List σ) (rest : Nat × List σ) : Nat × List σ :=
  (front.length + rest.1, front ++ rest.2)

theorem visited_nil : visited ([] : List σ) = id := by
  funext ⟨n, rest⟩
  simp [visited]

theorem visited_append (front next : List σ) (rest : Nat × List σ) :
    visited front (visited next rest) = visited (front ++ next) rest := by
  simp [visited, Nat.add_assoc]

theorem numbers_nil (mark : τ → σ) (r : DeckReader) (count : Nat) (value : Option String) :
    numbers mark [] ⟨r, .owe count value⟩ = .ok (0, []) ⟨r, .owe count value⟩ := by
  unfold Standing.owe
  split
  · exact fillNext_nil mark ⟨r, .reading⟩
  · next hcount =>
    have hpay : pay mark ([] : List σ) value = pure [] := by cases value <;> rfl
    have howe : Standing.owe (count - min count 0) value = .owing count value := by
      rw [Nat.min_zero, Nat.sub_zero, ← Standing.owing_eq_owe (Nat.pos_of_ne_zero hcount)]
    rw [numbers_eq, Run.bind_get_eq]
    dsimp only
    rw [List.take_nil, hpay, Run.bind_pure_eq, List.length_nil, howe, if_pos (Nat.min_zero count),
      Nat.min_zero]
    rfl

/-- Owed fields first; the slots that are left are read like all others. -/
theorem numbers_of_pay {count : Nat} {value : Option String} {front : List σ}
    (hlen : front.length = (slots.take count).length)
    (hpay : pay mark (slots.take count) value = pure front) (r : DeckReader) :
    numbers mark slots ⟨r, .owing count value⟩ =
      (visited front <$> numbers mark (slots.drop count))
        ⟨r, .owe (count - slots.length) value⟩ := by
  rw [List.length_take] at hlen
  rw [numbers_eq, Run.bind_get_eq]
  dsimp only
  rw [hpay, ← hlen]
  change (if front.length = slots.length then pure (front.length, front) else do
      let rest ← fillNext mark (slots.drop front.length)
      return (visited front rest)) ⟨r, .owe (count - front.length) value⟩ = _
  rcases Nat.lt_or_ge count slots.length with hlt | hle
  · have hcount : front.length = count := by omega
    rw [if_neg (by omega), hcount, Nat.sub_self, Nat.sub_eq_zero_of_le (Nat.le_of_lt hlt),
      map_eq_pure_bind]
    rfl
  · have hcount : front.length = slots.length := by omega
    rw [if_pos hcount, hcount, List.drop_eq_nil_of_le hle,
      Run.map_of_ok _ (numbers_nil mark r _ value), visited, hcount, List.append_nil]
    rfl

theorem numbers_of_pay_fail {count : Nat} {value : Option String} {cause : Cause}
    (hpay : pay mark (slots.take count) value = fail cause) (r : DeckReader) :
    numbers mark slots ⟨r, .owing count value⟩ =
      .error (r.error cause) ⟨r, .owing count value⟩ := by
  rw [numbers_eq, Run.bind_get_eq]
  dsimp only
  rw [hpay]
  rfl

theorem numbers_owing (mark : τ → σ) (slots : List σ) (r : DeckReader) (count : Nat) :
    numbers mark slots ⟨r, .owing count none⟩ =
      (visited (slots.take count) <$> numbers mark (slots.drop count))
        ⟨r, .owe (count - slots.length) none⟩ :=
  numbers_of_pay rfl rfl r

theorem numbers_owe (mark : τ → σ) (slots : List σ) (r : DeckReader) (count : Nat) :
    numbers mark slots ⟨r, .owe count none⟩ =
      (visited (slots.take count) <$> numbers mark (slots.drop count))
        ⟨r, .owe (count - slots.length) none⟩ := by
  cases count with
  | zero => rw [List.take_zero, visited_nil, id_map, Nat.zero_sub, List.drop_zero]
  | succ count => exact numbers_owing mark slots r (count + 1)

/-- What is owed beyond the first `a` slots stays owed while those are visited. -/
theorem numbers_owe_add {a : Nat} (h : a < slots.length) (m : Nat) (mark : τ → σ) (r : DeckReader) :
    numbers mark slots ⟨r, .owe (a + m) none⟩ =
      (visited (slots.take a) <$> numbers mark (slots.drop a)) ⟨r, .owe m none⟩ := by
  have hrest := Run.map_congr (visited (slots.take a)) (numbers_owe mark (slots.drop a) r m)
  have hleft : m - (slots.drop a).length = a + m - slots.length := by
    rw [List.length_drop]
    omega
  have hfront : (fun rest => visited (slots.take a) (visited ((slots.drop a).take m) rest)) =
      visited (slots.take (a + m)) := by
    funext rest
    rw [visited_append, ← List.take_add]
  rw [numbers_owe, hrest, Run.map_map_eq, hfront, hleft, List.drop_drop]

theorem numbers_owe_of_le {count : Nat} (h : slots.length ≤ count) (mark : τ → σ) (r : DeckReader) :
    numbers mark slots ⟨r, .owe count none⟩ =
      .ok (slots.length, slots) ⟨r, .owe (count - slots.length) none⟩ := by
  rw [numbers_owe, List.drop_eq_nil_of_le h, List.take_of_length_le h,
    Run.map_of_ok _ (numbers_nil mark r _ none), visited, List.append_nil]
  rfl

/-- How a record stands after its slots were filled. -/
def ofSlotRun (run : SlotRun σ) (r : DeckReader) :
    EStateM.Result DeckError RecordReader (Nat × List σ) :=
  match run.stop with
  | .full overflow => .ok (run.visited, run.slots) ⟨r, .owe overflow none⟩
  | .terminated => .ok (run.visited, run.slots) ⟨r, .ended⟩
  | .failed e => .error e ⟨r, .reading⟩

theorem ofSlotRun_after (mark : τ → σ) (front slots : List σ) (r : DeckReader) :
    ofSlotRun ((fillSlots mark slots r).1.after front) (fillSlots mark slots r).2 =
      (visited front <$> numbers mark slots) ⟨r, .reading⟩ := by
  have hnumbers : numbers mark slots ⟨r, .reading⟩ =
      ofSlotRun (fillSlots mark slots r).1 (fillSlots mark slots r).2 := rfl
  generalize fillSlots mark slots r = x at hnumbers ⊢
  obtain ⟨⟨slots', visited, stop⟩, r'⟩ := x
  cases stop with
  | failed e => exact (Run.map_of_error _ hnumbers).symm
  | _ =>
    rw [Run.map_of_ok _ hnumbers]
    rfl

theorem numbers_none (hs : slots ≠ []) (h : r.token? = (none, r')) :
    numbers mark slots ⟨r, .reading⟩ = .error (r'.error .unexpectedEnd) ⟨r', .reading⟩ := by
  change ofSlotRun (fillSlots mark slots r).1 (fillSlots mark slots r).2 = _
  rw [fillSlots_none hs h]
  rfl

theorem numbers_terminator (hs : slots ≠ []) (h : r.token? = (some t, r'))
    (ht : t.isTerminator = true) :
    numbers mark slots ⟨r, .reading⟩ = .ok (0, slots) ⟨r'.skipLine, .ended⟩ := by
  change ofSlotRun (fillSlots mark slots r).1 (fillSlots mark slots r).2 = _
  rw [fillSlots_terminator hs h ht]
  rfl

theorem numbers_item (hs : slots ≠ []) (h : r.token? = (some t, r')) (ht : t.isTerminator = false) :
    numbers mark slots ⟨r, .reading⟩ = match t.item? τ with
      | some (.value v) => (visited [mark v] <$> numbers mark slots.tail) ⟨r', .reading⟩
      | some (.defaults k) => numbers mark slots ⟨r', .owing k none⟩
      | some (.repeated k v) =>
        if slots.length < k then .error (r'.error (.unreadable t.text)) ⟨r', .reading⟩
        else
          (visited (List.replicate k (mark v)) <$> numbers mark (slots.drop k)) ⟨r', .reading⟩
      | none => .error (r'.error (.unreadable t.text)) ⟨r', .reading⟩ := by
  change ofSlotRun (fillSlots mark slots r).1 (fillSlots mark slots r).2 = _
  rw [fillSlots_item hs h ht]
  cases t.item? τ with
  | none => rfl
  | some i =>
    cases i with
    | value v => exact ofSlotRun_after mark [mark v] slots.tail r'
    | defaults k =>
      dsimp only
      rw [numbers_owing]
      split
      · next hlt =>
        rw [List.take_of_length_le (Nat.le_of_lt hlt), List.drop_eq_nil_of_le (Nat.le_of_lt hlt),
          Run.map_of_ok _ (numbers_nil mark r' _ none), visited, List.append_nil]
        rfl
      · next hle =>
        rw [Nat.sub_eq_zero_of_le (Nat.le_of_not_lt hle)]
        exact ofSlotRun_after mark (slots.take k) (slots.drop k) r'
    | repeated k v =>
      dsimp only
      split
      · rfl
      · exact ofSlotRun_after mark (List.replicate k (mark v)) (slots.drop k) r'

theorem skip_reading (n : Nat) (r : DeckReader) :
    skip n ⟨r, .reading⟩ = match skipNext n r with
      | .ok result r' => .ok result.1 ⟨r', result.2⟩
      | .error e r' => .error e ⟨r', .reading⟩ := by
  change (ofRead (skipNext n) >>= _) _ = _
  cases hnext : skipNext n r with
  | ok result r' =>
    have hread : ofRead (skipNext n) ⟨r, .reading⟩ = .ok result ⟨r', .reading⟩ := by
      rw [ofRead, hnext]
    rw [Run.bind_of_ok _ hread]
    rfl
  | error e r' =>
    have hread : ofRead (skipNext n) ⟨r, .reading⟩ = .error e ⟨r', .reading⟩ := by
      rw [ofRead, hnext]
    rw [Run.bind_of_error _ hread]

theorem skip_zero (r : DeckReader) (count : Nat) (value : Option String) :
    skip 0 ⟨r, .owe count value⟩ = .ok 0 ⟨r, .owe count value⟩ := by
  unfold Standing.owe
  split
  · have hnext : ofRead (skipNext 0) ⟨r, .reading⟩ = .ok (0, .reading) ⟨r, .reading⟩ := by
      rw [ofRead, skipNext_zero]
    change (ofRead (skipNext 0) >>= _) _ = _
    rw [Run.bind_of_ok _ hnext]
    rfl
  · next hcount =>
    have howe : Standing.owe (count - min count 0) value = .owing count value := by
      rw [Nat.min_zero, Nat.sub_zero, ← Standing.owing_eq_owe (Nat.pos_of_ne_zero hcount)]
    unfold skip
    rw [Run.bind_get_eq]
    dsimp only
    rw [howe, if_pos (Nat.min_zero count)]
    rfl

theorem skip_owing (n : Nat) (r : DeckReader) (count : Nat) (value : Option String) :
    skip n ⟨r, .owing count value⟩ =
      ((min count n + ·) <$> skip (n - count)) ⟨r, .owe (count - n) value⟩ := by
  have hskip : skip n ⟨r, .owing count value⟩ = (if min count n = n then pure n else do
      let result ← ofRead (skipNext (n - min count n))
      setStanding result.2
      return min count n + result.1) ⟨r, .owe (count - min count n) value⟩ := rfl
  rw [hskip]
  rcases Nat.lt_or_ge count n with hlt | hle
  · have hmin : min count n = count := by omega
    have hsub : count - n = 0 := by omega
    have hrest := skip_reading (n - count) r
    rw [hmin, hsub, Nat.sub_self, if_neg (by omega)]
    change (ofRead (skipNext (n - count)) >>= _) ⟨r, .reading⟩ =
      ((count + ·) <$> skip (n - count)) ⟨r, .reading⟩
    cases hnext : skipNext (n - count) r with
    | ok result r' =>
      have hread : ofRead (skipNext (n - count)) ⟨r, .reading⟩ = .ok result ⟨r', .reading⟩ := by
        rw [ofRead, hnext]
      rw [hnext] at hrest
      rw [Run.bind_of_ok _ hread, Run.map_of_ok _ hrest]
      rfl
    | error e r' =>
      have hread : ofRead (skipNext (n - count)) ⟨r, .reading⟩ = .error e ⟨r', .reading⟩ := by
        rw [ofRead, hnext]
      rw [hnext] at hrest
      rw [Run.bind_of_error _ hread, Run.map_of_error _ hrest]
  · have hmin : min count n = n := by omega
    rw [hmin, if_pos rfl, Nat.sub_eq_zero_of_le hle, Run.map_of_ok _ (skip_zero r _ value)]
    rfl

theorem skip_none {n : Nat} (hn : n ≠ 0) (h : r.token? = (none, r')) :
    skip n ⟨r, .reading⟩ = .error (r'.error .unexpectedEnd) ⟨r', .reading⟩ := by
  rw [skip_reading, skipNext_none hn h]

theorem skip_terminator {n : Nat} (hn : n ≠ 0) (h : r.token? = (some t, r'))
    (ht : t.isTerminator = true) : skip n ⟨r, .reading⟩ = .ok 0 ⟨r'.skipLine, .ended⟩ := by
  rw [skip_reading, skipNext_terminator hn h ht]

theorem skip_item {n : Nat} (hn : n ≠ 0) (h : r.token? = (some t, r'))
    (ht : t.isTerminator = false) :
    skip n ⟨r, .reading⟩ = skip n ⟨r', .owing (itemExtent t).1 (itemExtent t).2⟩ := by
  rw [skip_reading, skipNext_item hn h ht, skip_owing]
  generalize itemExtent t = extent
  obtain ⟨count, value⟩ := extent
  dsimp only
  rcases Nat.lt_or_ge n count with hlt | hle
  · rw [if_pos hlt, Nat.min_eq_right (by omega), Nat.sub_eq_zero_of_le (Nat.le_of_lt hlt),
      Run.map_of_ok _ (skip_zero r' _ value), Standing.owing_eq_owe (by omega)]
    rfl
  · have hrest := skip_reading (n - count) r'
    rw [if_neg (Nat.not_lt_of_le hle), Nat.min_eq_left hle, Nat.sub_eq_zero_of_le hle]
    change _ = ((count + ·) <$> skip (n - count)) ⟨r', .reading⟩
    cases hnext : skipNext (n - count) r' with
    | ok result r'' =>
      rw [hnext] at hrest
      rw [Run.map_of_ok _ hrest]
    | error e r'' =>
      rw [hnext] at hrest
      rw [Run.map_of_error _ hrest]

theorem skip_owe (n : Nat) (r : DeckReader) (count : Nat) (value : Option String) :
    skip n ⟨r, .owe count value⟩ =
      ((min count n + ·) <$> skip (n - count)) ⟨r, .owe (count - n) value⟩ := by
  cases count with
  | zero =>
    have hid : (fun k => min 0 n + k) = id := by
      funext k
      rw [Nat.zero_min, Nat.zero_add, id]
    rw [hid, id_map, Nat.zero_sub, Nat.sub_zero]
  | succ count => exact skip_owing n r (count + 1) value

theorem skip_owe_of_le {n count : Nat} (h : n ≤ count) (r : DeckReader) (value : Option String) :
    skip n ⟨r, .owe count value⟩ = .ok n ⟨r, .owe (count - n) value⟩ := by
  rw [skip_owe, Nat.sub_eq_zero_of_le h, Run.map_of_ok _ (skip_zero r _ value), Nat.min_eq_right h]
  rfl

/-- What is owed beyond the first `a` items stays owed while those are passed. -/
theorem skip_owe_add {n a : Nat} (h : a < n) (m : Nat) (r : DeckReader) (value : Option String) :
    skip n ⟨r, .owe (a + m) value⟩ = ((a + ·) <$> skip (n - a)) ⟨r, .owe m value⟩ := by
  have hrest := Run.map_congr (a + ·) (skip_owe (n - a) r m value)
  have hadd : (fun k => a + (min m (n - a) + k)) = (min (a + m) n + ·) := by
    funext k
    omega
  have hleft : m - (n - a) = a + m - n := by omega
  rw [skip_owe, hrest, Run.map_map_eq, hadd, hleft, Nat.sub_sub]

end RecordM

end ReservoirDeck
