import ReservoirDeck.Proofs.RoundTrip.Fields

/-!
The grammar of items. A text is an item in at most one way, although a number splits it at its first
star and a name looks at its last: only digits can stand in front of a star that a count ends with.
-/

namespace ReservoirDeck

/-- A count is a run of digits that stands for a number from one up to the largest count. -/
structure IsCount (run : List Char) (k : Nat) : Prop where
  ne_nil : run ≠ []
  digits : ∀ c ∈ run, c.isDigit = true
  value : Nat.ofDigitChars 10 run 0 = k
  pos : 1 ≤ k
  le : k ≤ 2 ^ 24

theorem naturalOfChars?_eq_some {cs : List Char} {n : Nat} : naturalOfChars? cs = some n ↔
    cs ≠ [] ∧ (∀ c ∈ cs, c.isDigit = true) ∧ Nat.ofDigitChars 10 cs 0 = n := by
  rw [naturalOfChars?, digitsValue_eq, ← List.all_eq_true]
  split <;> simp_all

theorem countOfChars?_eq_some {run : List Char} {k : Nat} :
    countOfChars? run = some k ↔ IsCount run k := by
  rw [countOfChars?, Option.filter_eq_some_iff, naturalOfChars?_eq_some, decide_eq_true_eq]
  constructor
  · rintro ⟨⟨hne, hdigits, hvalue⟩, hpos, hle⟩
    exact ⟨hne, hdigits, hvalue, hpos, hle⟩
  · intro h
    exact ⟨⟨h.ne_nil, h.digits, h.value⟩, h.pos, h.le⟩

theorem IsCount.star_not_mem {run : List Char} {k : Nat} (h : IsCount run k) : '*' ∉ run :=
  fun hmem => absurd (h.digits '*' hmem) (by decide)

/-- A text leaves out `k` fields: a star alone, or behind a count. -/
def IsDefaultMarker (t : String) (k : Nat) : Prop :=
  t = "*" ∧ k = 1 ∨ ∃ run, IsCount run k ∧ t.toList = run ++ ['*']

theorem IsDefaultMarker.bounds {t : String} {k : Nat} (h : IsDefaultMarker t k) :
    1 ≤ k ∧ k ≤ maxCount := by
  rcases h with ⟨-, rfl⟩ | ⟨run, hrun, -⟩
  · decide
  · exact ⟨hrun.pos, hrun.le⟩

theorem defaultCount?_eq_some {t : String} {k : Nat} :
    defaultCount? t = some k ↔ IsDefaultMarker t k := by
  constructor
  · intro h
    obtain ⟨run, ht, -, ⟨rfl, rfl⟩ | hcount⟩ := toList_of_defaultCount? h
    · exact .inl ⟨String.toList_inj.mp ht, rfl⟩
    · exact .inr ⟨run, countOfChars?_eq_some.mp hcount, ht⟩
  · rintro (⟨rfl, rfl⟩ | ⟨run, hrun, ht⟩)
    · rfl
    · exact defaultCount?_of_count (countOfChars?_eq_some.mpr hrun) ht

namespace Item

variable {τ : Type} [DeckNumber τ] {t : String} {i : Item τ}

/-- How a text spells an item. -/
inductive Spelled (t : String) : Item τ → Prop
  | value {v : τ} (hstar : '*' ∉ t.toList) (hv : DeckNumber.ofText? t = some v) : Spelled t (.value v)
  | defaults {k : Nat} (h : IsDefaultMarker t k) : Spelled t (.defaults k)
  | repeated {run : List Char} {s : String} {k : Nat} {v : τ} (hrun : IsCount run k)
      (ht : t.toList = run ++ '*' :: s.toList) (hv : DeckNumber.ofText? s = some v) :
      Spelled t (.repeated k v)

theorem spelled_of_ofText? (h : ofText? t = some i) : Spelled t i := by
  rw [ofText?] at h
  split at h
  · next hsplit =>
    obtain ⟨v, hv, rfl⟩ := Option.map_eq_some_iff.mp h
    exact .value (splitStar_eq_none.mp hsplit) hv
  · next hsplit =>
    cases h
    have ht : t = "*" := String.toList_inj.mp (splitStar_eq_some.mp hsplit).1
    exact .defaults (.inl ⟨ht, rfl⟩)
  · next run _ hsplit =>
    obtain ⟨k, hk, rfl⟩ := Option.map_eq_some_iff.mp h
    exact .defaults (.inr ⟨run, countOfChars?_eq_some.mp hk, (splitStar_eq_some.mp hsplit).1⟩)
  · next run cs _ _ hsplit =>
    obtain ⟨k, hk, h⟩ := Option.bind_eq_some_iff.mp h
    obtain ⟨v, hv, h⟩ := Option.bind_eq_some_iff.mp h
    cases h
    refine .repeated (s := String.ofList cs) (countOfChars?_eq_some.mp hk) ?_ hv
    rw [String.toList_ofList]
    exact (splitStar_eq_some.mp hsplit).1

/-- No number is spelled by nothing, so that a star at the end always leaves fields out. -/
theorem Spelled.ofText? (hempty : (DeckNumber.ofText? "" : Option τ) = none) (h : Spelled t i) :
    ofText? t = some i := by
  cases h with
  | value hstar hv => rw [Item.ofText?, splitStar_eq_none.mpr hstar, hv, Option.map_some]
  | defaults h => exact ofText?_of_defaultCount? (defaultCount?_eq_some.mpr h)
  | @repeated run s k v hrun ht hv =>
    have hcount := countOfChars?_eq_some.mpr hrun
    obtain ⟨c, cs, hs⟩ : ∃ c cs, s.toList = c :: cs := by
      refine List.exists_cons_of_ne_nil fun hnil => ?_
      rw [String.toList_eq_nil_iff.mp hnil, hempty] at hv
      cases hv
    obtain ⟨d, ds, rfl⟩ := List.exists_cons_of_ne_nil hrun.ne_nil
    rw [hs] at ht
    have hs' : String.ofList (c :: cs) = s := by rw [← hs, String.ofList_toList]
    simp [Item.ofText?, splitStar_eq_some.mpr ⟨ht, hrun.star_not_mem⟩, hcount, hs', hv]

theorem ofText?_eq_some (hempty : (DeckNumber.ofText? "" : Option τ) = none) :
    ofText? t = some i ↔ Spelled t i :=
  ⟨spelled_of_ofText?, Spelled.ofText? hempty⟩

/-- The items of one number type among texts: which text is which item, which is none, and that fields
are left out by the same texts where a name is read. -/
structure Grammar (τ : Type) [DeckNumber τ] (t : String) : Prop where
  value : ∀ v : τ, ofText? t = some (.value v) ↔ '*' ∉ t.toList ∧ DeckNumber.ofText? t = some v
  defaults : ∀ k, (ofText? t : Option (Item τ)) = some (.defaults k) ↔ IsDefaultMarker t k
  repeated : ∀ k (v : τ), ofText? t = some (.repeated k v) ↔
    ∃ run s, IsCount run k ∧ t.toList = run ++ '*' :: s.toList ∧ DeckNumber.ofText? s = some v
  none : (ofText? t : Option (Item τ)) = none ↔ ∀ i : Item τ, ¬ Spelled t i
  name : ∀ k, defaultCount? t = some k ↔ (ofText? t : Option (Item τ)) = some (.defaults k)

theorem grammar (hempty : (DeckNumber.ofText? "" : Option τ) = Option.none) (t : String) :
    Grammar τ t := by
  constructor
  · intro v
    rw [ofText?_eq_some hempty]
    constructor
    · rintro ⟨hstar, hv⟩
      exact ⟨hstar, hv⟩
    · rintro ⟨hstar, hv⟩
      exact .value hstar hv
  · intro k
    rw [ofText?_eq_some hempty]
    constructor
    · rintro (_ | h)
      exact h
    · exact .defaults
  · intro k v
    rw [ofText?_eq_some hempty]
    constructor
    · rintro (_ | _ | ⟨hrun, ht, hv⟩)
      exact ⟨_, _, hrun, ht, hv⟩
    · rintro ⟨run, s, hrun, ht, hv⟩
      exact .repeated hrun ht hv
  · rw [Option.eq_none_iff_forall_ne_some]
    exact forall_congr' fun i => not_congr (ofText?_eq_some hempty)
  · intro k
    rw [ofText?_eq_some hempty, defaultCount?_eq_some]
    constructor
    · exact .defaults
    · rintro (_ | h)
      exact h

end Item

/-- Every text is at most one item, and the one that its stars and digits say, for both number types. -/
theorem item_grammar (t : String) : Item.Grammar Float t ∧ Item.Grammar Int32 t :=
  ⟨Item.grammar (by decide) t, Item.grammar (by decide) t⟩

end ReservoirDeck
