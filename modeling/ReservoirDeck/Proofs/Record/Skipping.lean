import ReservoirDeck.Proofs.Record.Steps

/-!
Passing over fields. Items are counted as they are where numbers are read, so that as many fields are
passed as would have been read, to the same place and with the same fields owed. Fields that are passed
in two calls are passed in one.
-/

namespace ReservoirDeck

namespace RecordM

variable {σ : Type} {mark : Float → σ} {r r' : DeckReader} {s s' : RecordReader} {n : Nat}

/-- Two calls, and how many fields they passed together. -/
def skipBoth (n m : Nat) : RecordM Nat := do
  let passed ← skip n
  let more ← skip m
  return passed + more

theorem skipBoth_of_ok {k : Nat} (h : skip n s = .ok k s') (m : Nat) :
    skipBoth n m s = ((k + ·) <$> skip m) s' := by
  rw [skipBoth, Run.bind_of_ok _ h, map_eq_pure_bind]

theorem skipBoth_of_error {e : DeckError} (h : skip n s = .error e s') (m : Nat) :
    skipBoth n m s = .error e s' :=
  Run.bind_of_error _ h

/-- Fields that the first call passes in front are passed in front of both. -/
theorem skipBoth_of_map {k n' : Nat} (h : skip n s = ((k + ·) <$> skip n') s') (m : Nat) :
    skipBoth n m s = ((k + ·) <$> skipBoth n' m) s' := by
  cases hrest : skip n' s' with
  | ok passed s'' =>
    have hadd : (fun more => k + (passed + more)) = (k + passed + ·) := by
      funext more
      omega
    rw [Run.map_of_ok _ hrest] at h
    rw [skipBoth_of_ok h, Run.map_congr _ (skipBoth_of_ok hrest m), Run.map_map_eq, hadd]
  | error e s'' =>
    rw [Run.map_of_error _ hrest] at h
    rw [skipBoth_of_error h, Run.map_of_error _ (skipBoth_of_error hrest m)]

theorem skip_owing_eq (n : Nat) (r : DeckReader) (count : Nat) (value : Option String) :
    skip n ⟨r, .owing count value⟩ = skip n ⟨r, .owe count value⟩ := by
  rw [skip_owing, skip_owe]

theorem skipBoth_owe (hread : ∀ n m, skipBoth n m ⟨r, .reading⟩ = skip (n + m) ⟨r, .reading⟩)
    (n m count : Nat) (value : Option String) :
    skipBoth n m ⟨r, .owe count value⟩ = skip (n + m) ⟨r, .owe count value⟩ := by
  rcases Nat.lt_or_ge count n with hlt | hle
  · have hrest : n - count + m = n + m - count := by omega
    have hnone : count - n = 0 := by omega
    have hnone' : count - (n + m) = 0 := by omega
    have hfirst := skip_owe n r count value
    have hwhole := skip_owe (n + m) r count value
    rw [Nat.min_eq_left (by omega), hnone] at hfirst
    rw [Nat.min_eq_left (by omega), hnone'] at hwhole
    rw [skipBoth_of_map hfirst, hwhole, ← hrest]
    exact Run.map_congr _ (hread (n - count) m)
  -- The first call is paid in full, and the second goes on with what is owed then.
  · have hsub : count - n - m = count - (n + m) := by omega
    have hrest : m - (count - n) = n + m - count := by omega
    have hadd : (fun k => n + (min (count - n) m + k)) = (min count (n + m) + ·) := by
      funext k
      omega
    rw [skipBoth_of_ok (skip_owe_of_le hle r value), Run.map_congr _ (skip_owe m r _ value),
      Run.map_map_eq, skip_owe (n + m), hsub, hrest, hadd]

theorem skipBoth_reading (n m : Nat) (r : DeckReader) :
    skipBoth n m ⟨r, .reading⟩ = skip (n + m) ⟨r, .reading⟩ := by
  induction hr : r.remaining using Nat.strongRecOn generalizing r n m with
  | _ size ih =>
  by_cases hn : n = 0
  · have hid : (fun k => 0 + k) = id := by
      funext k
      exact Nat.zero_add k
    have hzero : skip 0 ⟨r, .reading⟩ = .ok 0 ⟨r, .reading⟩ := skip_zero r 0 none
    rw [hn, skipBoth_of_ok hzero, hid, id_map, Nat.zero_add]
  have hnm : n + m ≠ 0 := by omega
  rcases htoken : r.token? with ⟨_ | t, r'⟩
  · rw [skipBoth_of_error (skip_none hn htoken), skip_none hnm htoken]
  by_cases ht : t.isTerminator = true
  · rw [skipBoth_of_ok (skip_terminator hn htoken ht), skip_terminator hnm htoken ht]
    rfl
  have hitem : t.isTerminator = false := by simpa using ht
  have hlt : r'.remaining < size := hr ▸ DeckReader.token?_lt htoken
  have hpos := itemExtent_pos t
  have hboth : skipBoth n m ⟨r, .reading⟩ =
      skipBoth n m ⟨r', .owing (itemExtent t).1 (itemExtent t).2⟩ :=
    Run.bind_of_eq _ (skip_item hn htoken hitem)
  rw [hboth, skip_item hnm htoken hitem, Standing.owing_eq_owe hpos]
  exact skipBoth_owe (fun n m => ih _ hlt n m r' rfl) n m _ _

theorem skipBoth_eq (n m : Nat) (s : RecordReader) : skipBoth n m s = skip (n + m) s := by
  obtain ⟨r, standing⟩ := s
  cases standing with
  | ended => rfl
  | reading => exact skipBoth_reading n m r
  | owing count value =>
    have hboth : skipBoth n m ⟨r, .owing count value⟩ = skipBoth n m ⟨r, .owe count value⟩ :=
      Run.bind_of_eq _ (skip_owing_eq n r count value)
    rw [hboth, skip_owing_eq]
    exact skipBoth_owe (fun n m => skipBoth_reading n m r) n m count value

/-- Wherever numbers are read into slots, as many fields can be passed, and to the same end. -/
def SkipsAsNumbers (mark : Float → σ) (s : RecordReader) : Prop :=
  ∀ ⦃slots visits slots' s'⦄, numbers mark slots s = .ok (visits, slots') s' →
    skip slots.length s = .ok visits s'

theorem SkipsAsNumbers.owing (hread : SkipsAsNumbers mark ⟨r, .reading⟩) (count : Nat)
    (value : Option String) : SkipsAsNumbers mark ⟨r, .owing count value⟩ := by
  intro slots visits slots' s' h
  rcases pay_cases mark (slots.take count) value with ⟨front, hlen, hpay⟩ | ⟨cause, hpay⟩
  · rw [numbers_of_pay hlen hpay] at h
    obtain ⟨⟨more, rest⟩, hrest, heq⟩ := Run.map_eq_ok.mp h
    obtain ⟨rfl, rfl⟩ := Prod.mk.inj heq
    rw [List.length_take] at hlen
    have hskip : skip (slots.length - count) ⟨r, .owe (count - slots.length) value⟩ =
        .ok more s' := by
      rcases Nat.lt_or_ge count slots.length with hlt | hle
      · rw [Nat.sub_eq_zero_of_le (Nat.le_of_lt hlt)] at hrest ⊢
        rw [← List.length_drop]
        exact hread hrest
      · rw [List.drop_eq_nil_of_le hle, numbers_nil] at hrest
        cases hrest
        rw [Nat.sub_eq_zero_of_le hle, skip_zero]
    rw [skip_owing, Run.map_of_ok _ hskip, hlen]
  · rw [numbers_of_pay_fail hpay] at h
    cases h

/-- An item that fits is passed, and as many fields less are left to pass. -/
theorem skip_of_fits {t : Token} (hfits : (itemExtent t).1 ≤ n) (h : r.token? = (some t, r'))
    (ht : t.isTerminator = false) : skip n ⟨r, .reading⟩ =
      (((itemExtent t).1 + ·) <$> skip (n - (itemExtent t).1)) ⟨r', .reading⟩ := by
  have hpos := itemExtent_pos t
  rw [skip_item (by omega) h ht, skip_owing, Nat.min_eq_left hfits, Nat.sub_eq_zero_of_le hfits]
  rfl

theorem skipsAsNumbers_reading (mark : Float → σ) (r : DeckReader) :
    SkipsAsNumbers mark ⟨r, .reading⟩ := by
  induction hr : r.remaining using Nat.strongRecOn generalizing r with
  | _ size ih =>
  intro slots visits slots' s' h
  by_cases hs : slots = []
  · have hnil : numbers mark ([] : List σ) ⟨r, .reading⟩ = .ok (0, []) ⟨r, .reading⟩ :=
      numbers_nil mark r 0 none
    rw [hs, hnil] at h
    cases h
    rw [hs]
    exact skip_zero r 0 none
  have hn : slots.length ≠ 0 := List.length_eq_zero_iff.not.mpr hs
  rcases htoken : r.token? with ⟨_ | t, r'⟩
  · rw [numbers_none hs htoken] at h
    cases h
  by_cases ht : t.isTerminator = true
  · rw [numbers_terminator hs htoken ht] at h
    cases h
    exact skip_terminator hn htoken ht
  have hitem : t.isTerminator = false := by simpa using ht
  have hrest : SkipsAsNumbers mark ⟨r', .reading⟩ :=
    ih _ (hr ▸ DeckReader.token?_lt htoken) r' rfl
  rw [numbers_item hs htoken hitem] at h
  split at h
  · next v hv =>
    have hextent : (itemExtent t).1 = 1 := by rw [itemExtent, hv]
    obtain ⟨⟨more, rest⟩, hmore, heq⟩ := Run.map_eq_ok.mp h
    obtain ⟨rfl, rfl⟩ := Prod.mk.inj heq
    have hskip := hrest hmore
    rw [List.length_tail] at hskip
    rw [skip_of_fits (by omega) htoken hitem, hextent, Run.map_of_ok _ hskip, List.length_singleton]
  · next k hk =>
    have hextent : itemExtent t = (k, none) := by rw [itemExtent, hk]
    rw [skip_item hn htoken hitem, hextent]
    exact hrest.owing k none h
  · next k v hk =>
    have hextent : (itemExtent t).1 = k := by rw [itemExtent, hk]
    split at h
    · cases h
    next hfits =>
    obtain ⟨⟨more, rest⟩, hmore, heq⟩ := Run.map_eq_ok.mp h
    obtain ⟨rfl, rfl⟩ := Prod.mk.inj heq
    have hskip := hrest hmore
    rw [List.length_drop] at hskip
    rw [skip_of_fits (by omega) htoken hitem, hextent, Run.map_of_ok _ hskip, List.length_replicate]
  · cases h

theorem skipsAsNumbers (mark : Float → σ) (s : RecordReader) : SkipsAsNumbers mark s := by
  obtain ⟨r, standing⟩ := s
  cases standing with
  | ended =>
    intro slots visits slots' s' h
    cases h
    rfl
  | reading => exact skipsAsNumbers_reading mark r
  | owing count value => exact (skipsAsNumbers_reading mark r).owing count value

/-- Passing fields counts them as reading reals does, whatever is owed. Where `n` slots are filled, `n`
fields can be passed, and are as many as the slots that were visited; and it makes no difference in how
many calls they are passed. The record is left in the same state, also after an error. -/
theorem skip_counts (mark : Float → σ) (s : RecordReader) (n m : Nat) :
    (∀ slots visits slots' s', slots.length = n →
        numbers mark slots s = .ok (visits, slots') s' → skip n s = .ok visits s') ∧
      (do let passed ← skip n
          let more ← skip m
          return passed + more) s = skip (n + m) s := by
  refine ⟨?_, skipBoth_eq n m s⟩
  rintro slots visits slots' s' rfl h
  exact skipsAsNumbers mark s h

/-- Two fields are owed with a value, and the last slot is the first of four that are left out. -/
theorem skip_counts_owed :
    ∃ visits slots' s', numbers id (List.replicate 9 (0 : Float))
        ⟨.ofString "2* 3*7 -- c\n 9 4* / d\nC", .owing 2 (some "5")⟩ = .ok (visits, slots') s' ∧
      skip 9 ⟨.ofString "2* 3*7 -- c\n 9 4* / d\nC", .owing 2 (some "5")⟩ = .ok visits s' ∧
      (do let passed ← skip 5
          let more ← skip 4
          return passed + more) ⟨.ofString "2* 3*7 -- c\n 9 4* / d\nC", .owing 2 (some "5")⟩ =
        .ok visits s' := by
  have hok : (Run.answer (numbers id (List.replicate 9 (0 : Float))
      ⟨.ofString "2* 3*7 -- c\n 9 4* / d\nC", .owing 2 (some "5")⟩)).isOk = true := by
    decide +kernel
  obtain ⟨⟨visits, slots'⟩, s', hnumbers⟩ := Run.exists_of_isOk hok
  obtain ⟨hskip, -⟩ := skip_counts id
    ⟨.ofString "2* 3*7 -- c\n 9 4* / d\nC", .owing 2 (some "5")⟩ 9 0
  obtain ⟨-, hboth⟩ := skip_counts (id : Float → Float)
    ⟨.ofString "2* 3*7 -- c\n 9 4* / d\nC", .owing 2 (some "5")⟩ 5 4
  have hnine := hskip _ visits slots' s' List.length_replicate hnumbers
  exact ⟨visits, slots', s', hnumbers, hnine, hboth.trans hnine⟩

end RecordM

end ReservoirDeck
