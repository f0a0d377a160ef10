import ReservoirDeck.Proofs.Record.Steps

/-!
Numeric fields in one run or in two. The second run goes on where the first one stopped: fields that are
left out beyond the first run are owed to the second. Only a repetition may not reach from one run into
the next.
-/

namespace ReservoirDeck

variable {τ σ : Type} [DeckNumber τ]

theorem Token.isTerminator_of_repeated {t : Token} {k : Nat} {v : τ}
    (h : t.item? τ = some (.repeated k v)) : t.isTerminator = false := by
  by_contra hslash
  rw [Bool.not_eq_false, isTerminator, Bool.and_eq_true, beq_iff_eq, beq_iff_eq] at hslash
  have hsplit : splitStar "/" = none := by decide
  rw [item?, hslash.2, Item.ofText?, hsplit] at h
  split at h
  · cases h
  · obtain ⟨x, -, hx⟩ := Option.map_eq_some_iff.mp h
    cases hx

namespace RecordM

variable {mark : τ → σ} {a b : List σ} {r r' : DeckReader} {s s' : RecordReader}
  {i k count : Nat} {value : Option String} {t : Token} {place : DeckReader}

/-- Two runs, one after the other: how many slots were visited, and all slots. -/
def numbersBoth (mark : τ → σ) (a b : List σ) : RecordM (Nat × List σ) := do
  let first ← numbers mark a
  let second ← numbers mark b
  return (first.1 + second.1, first.2 ++ second.2)

/-- After `i` of the slots comes a repetition that starts in them and ends beyond the last. -/
structure Overruns (mark : τ → σ) (slots : List σ) (s : RecordReader) (i k : Nat) (t : Token)
    (place : DeckReader) : Prop where
  before : ∃ front r, numbers mark (slots.take i) s = .ok (i, front) ⟨r, .reading⟩ ∧
    r.token? = (some t, place)
  item : ∃ v, t.item? τ = some (.repeated k v)
  starts : i < slots.length
  ends : slots.length < i + k

/-- Two runs are one, or the first fails at a repetition that overruns it. -/
def Splits (mark : τ → σ) (a b : List σ) (s : RecordReader) : Prop :=
  numbersBoth mark a b s = numbers mark (a ++ b) s ∨
    ∃ i k t place, Overruns mark a s i k t place ∧
      numbers mark a s = .error (place.error (.unreadable t.text)) ⟨place, .reading⟩

theorem numbersBoth_of_ok {x : Nat × List σ} (h : numbers mark a s = .ok x s') (b : List σ) :
    numbersBoth mark a b s = ((fun y => (x.1 + y.1, x.2 ++ y.2)) <$> numbers mark b) s' := by
  rw [numbersBoth, Run.bind_of_ok _ h, map_eq_pure_bind]

theorem numbersBoth_of_error {e : DeckError} (h : numbers mark a s = .error e s') (b : List σ) :
    numbersBoth mark a b s = .error e s' :=
  Run.bind_of_error _ h

theorem numbersBoth_of_map {front x : List σ}
    (h : numbers mark a s = (visited front <$> numbers mark x) s') (b : List σ) :
    numbersBoth mark a b s = (visited front <$> numbersBoth mark x b) s' := by
  cases hx : numbers mark x s' with
  | ok y s'' =>
    rw [Run.map_of_ok _ hx] at h
    rw [numbersBoth_of_ok h, Run.map_congr _ (numbersBoth_of_ok hx b), Run.map_map_eq]
    simp only [visited, Nat.add_assoc, List.append_assoc]
  | error e s'' =>
    rw [Run.map_of_error _ hx] at h
    rw [numbersBoth_of_error h, Run.map_of_error _ (numbersBoth_of_error hx b)]

theorem Splits.after (p front : List σ) {x : List σ} (hlen : front.length = p.length)
    (hstep : ∀ x, numbers mark (p ++ x) s = (visited front <$> numbers mark x) s')
    (h : Splits mark x b s') : Splits mark (p ++ x) b s := by
  rcases h with heq | ⟨i, k, t, place, ⟨⟨front', r, hbefore, htoken⟩, hitem, hstarts, hends⟩, herror⟩
  · left
    rw [numbersBoth_of_map (hstep x), Run.map_congr _ heq, List.append_assoc, hstep]
  · right
    refine ⟨p.length + i, k, t, place, ⟨⟨front ++ front', r, ?_, htoken⟩, hitem, ?_, ?_⟩, ?_⟩
    · rw [List.take_length_add_append, hstep, Run.map_of_ok _ hbefore, visited, hlen]
    · rw [List.length_append]
      omega
    · rw [List.length_append]
      omega
    · rw [hstep, Run.map_of_error _ herror]

/-- What is owed is paid in this way, slot by slot. -/
structure Pays (mark : τ → σ) (value : Option String) (paid : List σ → List σ) : Prop where
  pay_eq : ∀ slots, pay mark slots value = pure (paid slots)
  length_eq : ∀ slots, (paid slots).length = slots.length
  append_eq : ∀ x y, paid (x ++ y) = paid x ++ paid y

theorem pays_none (mark : τ → σ) : Pays mark none id :=
  ⟨fun _ => rfl, fun _ => rfl, fun _ _ => rfl⟩

theorem pays_or_fails (mark : τ → σ) (value : Option String) :
    (∃ paid, Pays mark value paid) ∨
      ∃ cause, ∀ slots, slots ≠ [] → pay mark slots value = fail cause := by
  cases value with
  | none => exact .inl ⟨id, pays_none mark⟩
  | some text =>
    cases htext : (DeckNumber.ofText? text : Option τ) with
    | none =>
      refine .inr ⟨.unreadable text, fun slots hs => ?_⟩
      simp only [pay, if_neg hs, htext]
    | some v =>
      refine .inl ⟨fun slots => List.replicate slots.length (mark v), ⟨fun slots => ?_,
        fun slots => List.length_replicate, fun x y => ?_⟩⟩
      · by_cases hs : slots = []
        · simp only [pay, hs, if_true, List.length_nil, List.replicate_zero]
        · simp only [pay, if_neg hs, htext]
      · rw [List.length_append, List.replicate_append_replicate]

section Payable

variable {paid : List σ → List σ} (hpays : Pays mark value paid)
include hpays

theorem numbers_owe_paid (slots : List σ) (r : DeckReader) (count : Nat) :
    numbers mark slots ⟨r, .owe count value⟩ =
      (visited (paid (slots.take count)) <$> numbers mark (slots.drop count))
        ⟨r, .owe (count - slots.length) value⟩ := by
  cases count with
  | zero =>
    have hnil : paid [] = [] := List.length_eq_zero_iff.mp (hpays.length_eq [])
    rw [List.take_zero, hnil, visited_nil, id_map, Nat.zero_sub, List.drop_zero]
  | succ count => exact numbers_of_pay (hpays.length_eq _) (hpays.pay_eq _) r

theorem numbers_append_paid (p x : List σ) (r : DeckReader) :
    numbers mark (p ++ x) ⟨r, .owe p.length value⟩ =
      (visited (paid p) <$> numbers mark x) ⟨r, .reading⟩ := by
  rw [numbers_owe_paid hpays, List.length_append, Nat.sub_eq_zero_of_le (Nat.le_add_right _ _),
    List.take_left, List.drop_left]
  rfl

theorem numbersBoth_paid (hle : a.length ≤ count) (b : List σ) (r : DeckReader) :
    numbersBoth mark a b ⟨r, .owe count value⟩ = numbers mark (a ++ b) ⟨r, .owe count value⟩ := by
  have hfirst := numbers_owe_paid hpays a r count
  rw [List.drop_eq_nil_of_le hle, List.take_of_length_le hle,
    Run.map_of_ok _ (numbers_nil mark r _ value)] at hfirst
  have hfront : (fun y : Nat × List σ => ((visited (paid a) (0, [])).1 + y.1,
      (visited (paid a) (0, [])).2 ++ y.2)) = visited (paid a) := by
    funext y
    simp only [visited, Nat.add_zero, List.append_nil]
  have hsecond := Run.map_congr (visited (paid a))
    (numbers_owe_paid hpays b r (count - a.length))
  rw [numbersBoth_of_ok hfirst, hfront, hsecond, Run.map_map_eq]
  simp only [visited_append]
  rw [numbers_owe_paid hpays, List.take_append, List.take_of_length_le hle, hpays.append_eq,
    List.drop_append, List.drop_eq_nil_of_le hle, List.nil_append, List.length_append, Nat.sub_sub]

end Payable

theorem numbersBoth_nil (h : numbers mark [] s = .ok (0, []) s') (b : List σ) :
    numbersBoth mark [] b s = numbers mark b s' := by
  have hid : (fun y : Nat × List σ => (0 + y.1, [] ++ y.2)) = id := by
    funext y
    simp only [Nat.zero_add, List.nil_append, id]
  rw [numbersBoth_of_ok h, hid, id_map]

theorem splits_owe (hread : ∀ a, Splits mark a b ⟨r, .reading⟩) (a : List σ) (count : Nat)
    (value : Option String) : Splits mark a b ⟨r, .owe count value⟩ := by
  cases count with
  | zero => exact hread a
  | succ count =>
  rcases pays_or_fails mark value with ⟨paid, hpays⟩ | ⟨cause, hpay⟩
  · rcases Nat.lt_or_ge (count + 1) a.length with hlt | hle
    · have htake : (a.take (count + 1)).length = count + 1 := by
        rw [List.length_take]
        omega
      have hstep := fun x => numbers_append_paid hpays (a.take (count + 1)) x r
      rw [htake] at hstep
      rw [← List.take_append_drop (count + 1) a]
      exact Splits.after _ _ (hpays.length_eq _) hstep (hread _)
    · exact .inl (numbersBoth_paid hpays hle b r)
  · by_cases ha : a = []
    · subst ha
      exact .inl (numbersBoth_nil (numbers_nil mark r _ value) b)
    · have hfail : ∀ x, numbers mark (a ++ x) ⟨r, .owe (count + 1) value⟩ =
          .error (r.error cause) ⟨r, .owe (count + 1) value⟩ := by
        intro x
        refine numbers_of_pay_fail (hpay _ ?_) r
        simp [ha]
      have hfirst := hfail []
      rw [List.append_nil] at hfirst
      left
      rw [numbersBoth_of_error hfirst, hfail]

section Ahead

variable (h : r.token? = (some t, r')) (ht : t.isTerminator = false) (ha : a ≠ [])
  (hrest : ∀ a, Splits mark a b ⟨r', .reading⟩)
include h ht ha hrest

theorem splits_value {v : τ} (hi : t.item? τ = some (.value v)) : Splits mark a b ⟨r, .reading⟩ := by
  obtain ⟨slot, rest, rfl⟩ := List.exists_cons_of_ne_nil ha
  refine Splits.after [slot] [mark v] rfl (fun x => ?_) (hrest rest)
  rw [numbers_item (by simp) h ht, hi]
  rfl

/-- The first run may end within a default marker: the second run then begins with what is owed. -/
theorem splits_defaults (hi : t.item? τ = some (.defaults k)) : Splits mark a b ⟨r, .reading⟩ := by
  have hk := t.item?_count_pos.1 k hi
  have hmarker : ∀ slots : List σ, slots ≠ [] →
      numbers mark slots ⟨r, .reading⟩ = numbers mark slots ⟨r', .owe k none⟩ := by
    intro slots hs
    rw [numbers_item hs h ht, hi, ← Standing.owing_eq_owe hk]
  rcases Nat.lt_or_ge a.length k with hlt | hle
  · have hboth : numbersBoth mark a b ⟨r, .reading⟩ = numbersBoth mark a b ⟨r', .owe k none⟩ :=
      Run.bind_of_eq _ (hmarker a ha)
    left
    rw [hboth, hmarker (a ++ b) (by simp [ha])]
    exact numbersBoth_paid (pays_none mark) (Nat.le_of_lt hlt) b r'
  · have htake : (a.take k).length = k := List.length_take_of_le hle
    have hne : a.take k ≠ [] := List.length_pos_iff.mp (by omega)
    have hstep := fun x => numbers_append_paid (pays_none mark) (a.take k) x r'
    rw [htake] at hstep
    rw [← List.take_append_drop k a]
    refine Splits.after _ (a.take k) rfl (fun x => ?_) (hrest (a.drop k))
    rw [hmarker _ (by simp [hne])]
    exact hstep x

theorem splits_repeated {v : τ} (hi : t.item? τ = some (.repeated k v)) :
    Splits mark a b ⟨r, .reading⟩ := by
  have hk := t.item?_count_pos.2 k v hi
  rcases Nat.lt_or_ge a.length k with hlt | hle
  · have hnil : numbers mark (a.take 0) ⟨r, .reading⟩ = .ok (0, []) ⟨r, .reading⟩ :=
      numbers_nil mark r 0 none
    right
    refine ⟨0, k, t, r', ⟨⟨[], r, hnil, h⟩, ⟨v, hi⟩, List.length_pos_iff.mpr ha, by omega⟩, ?_⟩
    rw [numbers_item ha h ht, hi]
    exact if_pos hlt
  · have htake : (a.take k).length = k := List.length_take_of_le hle
    have hne : a.take k ≠ [] := List.length_pos_iff.mp (by omega)
    rw [← List.take_append_drop k a]
    refine Splits.after _ (List.replicate k (mark v)) ?_ (fun x => ?_) (hrest (a.drop k))
    · rw [List.length_replicate, htake]
    · rw [numbers_item (by simp [hne]) h ht, hi]
      dsimp only
      rw [List.length_append, htake, if_neg (by omega), List.drop_left' htake]

end Ahead

theorem splits_reading (mark : τ → σ) (a b : List σ) (r : DeckReader) :
    Splits mark a b ⟨r, .reading⟩ := by
  induction hr : r.remaining using Nat.strongRecOn generalizing r a with
  | _ size ih =>
  by_cases ha : a = []
  · subst ha
    exact .inl (numbersBoth_nil (numbers_nil mark r 0 none) b)
  have hab : a ++ b ≠ [] := by simp [ha]
  rcases htoken : r.token? with ⟨_ | t, r'⟩
  · left
    rw [numbersBoth_of_error (numbers_none ha htoken), numbers_none hab htoken]
  by_cases ht : t.isTerminator = true
  · left
    rw [numbersBoth_of_ok (numbers_terminator ha htoken ht), numbers_terminator hab htoken ht]
    rfl
  have hitem : t.isTerminator = false := by simpa using ht
  have hrest : ∀ a, Splits mark a b ⟨r', .reading⟩ := fun a =>
    ih _ (hr ▸ DeckReader.token?_lt htoken) a r' rfl
  cases hi : t.item? τ with
  | none =>
    have herror : ∀ slots : List σ, slots ≠ [] → numbers mark slots ⟨r, .reading⟩ =
        .error (r'.error (.unreadable t.text)) ⟨r', .reading⟩ := by
      intro slots hs
      rw [numbers_item hs htoken hitem, hi]
    left
    rw [numbersBoth_of_error (herror a ha), herror _ hab]
  | some i =>
    cases i with
    | value v => exact splits_value htoken hitem ha hrest hi
    | defaults k => exact splits_defaults htoken hitem ha hrest hi
    | repeated k v => exact splits_repeated htoken hitem ha hrest hi

theorem splits (mark : τ → σ) (a b : List σ) (s : RecordReader) : Splits mark a b s := by
  obtain ⟨r, standing⟩ := s
  cases standing with
  | ended => exact .inl rfl
  | reading => exact splits_reading mark a b r
  | owing count value =>
    cases count with
    | succ count => exact splits_owe (fun a => splits_reading mark a b r) a (count + 1) value
    | zero =>
      -- Nothing is owed, whatever its value.
      have hpay : pay mark ([] : List σ) value = pure [] := by cases value <;> rfl
      refine Splits.after [] [] rfl (fun x => ?_) (splits_reading mark a b r)
      rw [numbers_of_pay rfl hpay, Nat.zero_sub]
      rfl

/-- Where one run over all slots succeeds, the repetition ends within them. -/
theorem Overruns.le_length {x : Nat × List σ} (h : Overruns mark a s i k t place)
    (hok : numbers mark (a ++ b) s = .ok x s') : i + k ≤ (a ++ b).length := by
  obtain ⟨⟨front, r, hbefore, htoken⟩, ⟨v, hitem⟩, hstarts, hends⟩ := h
  have hslots : a.take i ++ (a.drop i ++ b) = a ++ b := by
    rw [← List.append_assoc, List.take_append_drop]
  rcases splits mark (a.take i) (a.drop i ++ b) s with heq | ⟨_, _, _, _, -, herror⟩
  · have hne : a.drop i ++ b ≠ [] := by
      have hdrop : a.drop i ≠ [] := by
        rw [ne_eq, List.drop_eq_nil_iff]
        omega
      simp [hdrop]
    rw [numbersBoth_of_ok hbefore, hslots, hok] at heq
    obtain ⟨y, hrest, -⟩ := Run.map_eq_ok.mp heq
    rw [numbers_item hne htoken (Token.isTerminator_of_repeated hitem), hitem] at hrest
    dsimp only at hrest
    split at hrest
    · cases hrest
    next hfits =>
    rw [List.length_append, List.length_drop] at hfits
    rw [List.length_append]
    omega
  · rw [hbefore] at herror
    cases herror

/-- Numeric fields are read alike in one run and in two. Two runs that succeed are one: the visits add
up, and the slots and the state reached are the same, whatever is owed at the start and at the end of the
first. If only one run over all slots succeeds, the first of the two is overrun by a repetition, which is
then no value that can be read. -/
theorem numbers_split (mark : τ → σ) (a b : List σ) (s : RecordReader) :
    (∀ n a' s₁ m b' s₂, numbers mark a s = .ok (n, a') s₁ → numbers mark b s₁ = .ok (m, b') s₂ →
        numbers mark (a ++ b) s = .ok (n + m, a' ++ b') s₂) ∧
      ∀ x s' e s'', numbers mark (a ++ b) s = .ok x s' → numbersBoth mark a b s = .error e s'' →
        ∃ i k t place, Overruns mark a s i k t place ∧ i + k ≤ (a ++ b).length ∧
          e = place.error (.unreadable t.text) ∧ e.code = .unreadableValue := by
  have hsplits := splits mark a b s
  constructor
  · intro n a' s₁ m b' s₂ hfirst hsecond
    rcases hsplits with heq | ⟨_, _, _, _, -, herror⟩
    · rw [← heq, numbersBoth_of_ok hfirst, Run.map_of_ok _ hsecond]
    · rw [hfirst] at herror
      cases herror
  · intro x s' e s'' hwhole hboth
    rcases hsplits with heq | ⟨i, k, t, place, hoverruns, herror⟩
    · rw [heq, hwhole] at hboth
      cases hboth
    · rw [numbersBoth_of_error herror] at hboth
      cases hboth
      exact ⟨i, k, t, place, hoverruns, hoverruns.le_length hwhole, rfl, rfl⟩

/-- A marker from the third of four slots on may be split, but not the repetition before it. -/
theorem numbers_split_repeated :
    (∃ n a' s₁ m b' s₂,
      numbers some [none, none, none, (none : Option Int32)] ⟨.ofString "5 2*7 3* / d", .reading⟩ =
          .ok (n, a') s₁ ∧
        numbers some [none, (none : Option Int32)] s₁ = .ok (m, b') s₂ ∧
        numbers some [none, none, none, none, none, (none : Option Int32)]
          ⟨.ofString "5 2*7 3* / d", .reading⟩ = .ok (n + m, a' ++ b') s₂) ∧
      ∃ x s' e s'',
        numbers some [none, none, (none : Option Int32)] ⟨.ofString "5 2*7 3* / d", .reading⟩ =
            .ok x s' ∧
          numbersBoth some [none, none] [(none : Option Int32)] ⟨.ofString "5 2*7 3* / d", .reading⟩ =
            .error e s'' ∧ e.code = .unreadableValue := by
  constructor
  · have hok : (Run.answer (numbersBoth some [none, none, none, (none : Option Int32)]
        [none, none] ⟨.ofString "5 2*7 3* / d", .reading⟩)).isOk = true := by decide +kernel
    obtain ⟨x, s', hboth⟩ := Run.exists_of_isOk hok
    obtain ⟨⟨n, a'⟩, s₁, hfirst, hrest⟩ := Run.bind_eq_ok.mp hboth
    obtain ⟨⟨m, b'⟩, s₂, hsecond, -⟩ := Run.bind_eq_ok.mp hrest
    obtain ⟨hjoin, -⟩ := numbers_split some [none, none, none, (none : Option Int32)] [none, none]
      ⟨.ofString "5 2*7 3* / d", .reading⟩
    exact ⟨n, a', s₁, m, b', s₂, hfirst, hsecond, hjoin _ _ _ _ _ _ hfirst hsecond⟩
  · have hok : (Run.answer (numbers some [none, none, (none : Option Int32)]
        ⟨.ofString "5 2*7 3* / d", .reading⟩)).isOk = true := by decide +kernel
    have hfails : (Run.answer (numbersBoth some [none, none] [(none : Option Int32)]
        ⟨.ofString "5 2*7 3* / d", .reading⟩)).isOk = false := by decide +kernel
    obtain ⟨x, s', hwhole⟩ := Run.exists_of_isOk hok
    cases hboth : numbersBoth some [none, none] [(none : Option Int32)]
        ⟨.ofString "5 2*7 3* / d", .reading⟩ with
    | ok y s'' =>
      rw [hboth] at hfails
      cases hfails
    | error e s'' =>
      obtain ⟨-, hoverrun⟩ := numbers_split some [none, none] [(none : Option Int32)]
        ⟨.ofString "5 2*7 3* / d", .reading⟩
      obtain ⟨-, -, -, -, -, -, -, hcode⟩ := hoverrun x s' e s'' hwhole hboth
      exact ⟨x, s', e, s'', hwhole, rfl, hcode⟩

end RecordM

end ReservoirDeck
