import ReservoirDeck.Proofs.Reading.Expansion
import ReservoirDeck.Proofs.Reading.Loops

/-!
Records in which every field is given. Reading their values to the slash, and filling slots of which
there are more than enough, are one: both go over the same items to the same place.
-/

namespace ReservoirDeck

open Item (expand)

variable {τ σ : Type} [DeckNumber τ] {mark : τ → σ} {slots : List σ} {items : List (Item τ)}
  {i : Item τ} {r r' e d : DeckReader} {t : Token} {vs front : List τ}

theorem readValues_none (h : r.token? = (none, r')) :
    readValues τ r = .error (r'.error .unexpectedEnd) r' := by
  rw [readValues_eq, Run.bind_of_error _ (ReadM.item_of_none h)]

theorem readValues_item (h : r.token? = (some t, r')) (ht : t.isTerminator = false) :
    readValues τ r = match t.item? τ with
      | some (.value v) => (([v] ++ ·) <$> readValues τ) r'
      | some (.repeated k v) => ((List.replicate k v ++ ·) <$> readValues τ) r'
      | _ => .error (r'.error (.unreadable t.text)) r' := by
  conv_lhs => rw [readValues_eq]
  rw [Run.bind_of_ok _ (ReadM.item_of_some h (by simp [ht]))]
  dsimp only
  rw [show ({ t with start := 0 } : Token).item? τ = t.item? τ from rfl]
  cases t.item? τ with
  | none => rfl
  | some i => cases i <;> rfl

theorem readValues_of_given (h : r.token? = (some t, r')) (ht : t.isTerminator = false)
    (hi : t.item? τ = some i) (hgiven : i.entries = front.map some) :
    readValues τ r = ((front ++ ·) <$> readValues τ) r' := by
  have hsome : ∀ {us : List τ}, us.map some = front.map some → us = front :=
    (List.map_inj_right fun _ _ => Option.some.inj).mp
  have hpos := Token.length_entries_pos hi
  rw [readValues_item h ht, hi]
  cases i with
  | value v =>
    obtain rfl : [v] = front := hsome hgiven
    rfl
  | defaults k =>
    have hnone : none ∈ front.map some := by
      rw [← hgiven, Item.entries, List.mem_replicate]
      rw [Item.length_entries_defaults] at hpos
      exact ⟨by omega, rfl⟩
    simp at hnone
  | repeated k v =>
    obtain rfl : List.replicate k v = front := hsome (by rw [List.map_replicate]; exact hgiven)
    rfl

/-- The values of a record are its entries, and all of them are given. -/
theorem readValues_eq_ok : readValues τ r = .ok vs r' ↔
    ∃ items e d, r.ReadsItems items e ∧ e.SlashAhead d ∧ expand items = vs.map some ∧
      r' = d.skipLine := by
  constructor
  · intro h
    induction hr : r.remaining using Nat.strongRecOn generalizing r vs with
    | _ n ih =>
    rcases htoken : r.token? with ⟨_ | t, r₁⟩
    · rw [readValues_none htoken] at h
      cases h
    by_cases ht : t.isTerminator = true
    · rw [readValues_terminator htoken ht] at h
      cases h
      exact ⟨[], r, r₁, .nil r, ⟨t, htoken, ht⟩, rfl, rfl⟩
    have hitem : t.isTerminator = false := by simpa using ht
    have hlt : r₁.remaining < n := hr ▸ DeckReader.token?_lt htoken
    rw [readValues_item htoken hitem] at h
    split at h
    · next v hv =>
      obtain ⟨ws, hws, rfl⟩ := Run.map_eq_ok.mp h
      obtain ⟨items, e, d, hitems, hslash, hexpand, hplace⟩ := ih _ hlt hws rfl
      refine ⟨.value v :: items, e, d, .cons htoken hitem hv hitems, hslash, ?_, hplace⟩
      rw [Item.expand_cons, hexpand, List.map_append]
      rfl
    · next k v hv =>
      obtain ⟨ws, hws, rfl⟩ := Run.map_eq_ok.mp h
      obtain ⟨items, e, d, hitems, hslash, hexpand, hplace⟩ := ih _ hlt hws rfl
      refine ⟨.repeated k v :: items, e, d, .cons htoken hitem hv hitems, hslash, ?_, hplace⟩
      rw [Item.expand_cons, hexpand, List.map_append, List.map_replicate]
      rfl
    · cases h
  · rintro ⟨items, e, d, hitems, ⟨t, htoken, ht⟩, hexpand, rfl⟩
    induction hitems generalizing vs with
    | nil r =>
      obtain rfl : vs = [] := by simpa using hexpand.symm
      exact readValues_terminator htoken ht
    | @cons r r₁ e t₁ i items h ht₁ hi hrest ih =>
      obtain ⟨front, ws, rfl, hfront, hws⟩ := List.map_eq_append_iff.mp hexpand.symm
      rw [readValues_of_given h ht₁ hi hfront.symm]
      exact Run.map_of_ok _ (ih htoken hws.symm)

omit [DeckNumber τ] in
/-- If there are more slots than entries, none of the items is cut off. -/
theorem Item.not_cutOff {n : Nat} (hroom : (expand items).length < n) (before : List (Item τ)) (k : Nat)
    (v : τ) : ¬ CutOff n items before k v := by
  rintro ⟨⟨after, rfl⟩, -, hends⟩
  rw [expand_append, expand_append, expand_cons, expand_nil, List.append_nil, List.length_append,
    List.length_append, length_entries_repeated] at hroom
  omega

theorem fillSlots_of_room (mark : τ → σ) (hitems : r.ReadsItems items e) (hslash : e.SlashAhead d)
    (hroom : (expand items).length < slots.length) : fillSlots mark slots r =
      (⟨overlay mark (expand items) slots, (expand items).length, .terminated⟩, d.skipLine) := by
  have hfilled := fillSlots_filled mark hitems hslash (Item.not_cutOff hroom)
  obtain ⟨hstop, hplace⟩ := hfilled.ended hroom
  have hslots := hfilled.slots_eq
  have hvisited := hfilled.visited_eq
  rw [Nat.min_eq_left (Nat.le_of_lt hroom)] at hvisited
  rw [← hslots, ← hvisited, ← hstop, ← hplace]

/-- Slots are left when the slash comes only if the items before it are fewer. -/
theorem exists_items_of_terminated (h : (fillSlots mark slots r).1.stop = .terminated) :
    ∃ (items : List (Item τ)) (e d : DeckReader), r.ReadsItems items e ∧ e.SlashAhead d ∧
      (expand items).length < slots.length := by
  induction hr : r.remaining using Nat.strongRecOn generalizing r slots with
  | _ n ih =>
  by_cases hs : slots = []
  · rw [hs, fillSlots_nil] at h
    cases h
  rcases htoken : r.token? with ⟨_ | t, r₁⟩
  · rw [fillSlots_none hs htoken] at h
    cases h
  by_cases ht : t.isTerminator = true
  · exact ⟨[], r, r₁, .nil r, ⟨t, htoken, ht⟩, List.length_pos_iff.mpr hs⟩
  have hitem : t.isTerminator = false := by simpa using ht
  have hlt : r₁.remaining < n := hr ▸ DeckReader.token?_lt htoken
  cases hi : t.item? τ with
  | none =>
    rw [fillSlots_item hs htoken hitem, hi] at h
    cases h
  | some i =>
    rcases Nat.lt_or_ge slots.length i.entries.length with hlong | hfits
    · cases i with
      | value v => exact absurd (Item.length_value_le hs v) (Nat.not_le_of_lt hlong)
      | defaults k =>
        rw [Item.length_entries_defaults] at hlong
        rw [fillSlots_of_long_defaults hs htoken hitem hi hlong] at h
        cases h
      | repeated k v =>
        rw [Item.length_entries_repeated] at hlong
        rw [fillSlots_of_long_repeated hs htoken hitem hi hlong] at h
        cases h
    · rw [fillSlots_of_fits htoken hitem hi hfits] at h
      obtain ⟨items, e, d, hitems, hslash, hroom⟩ := ih _ hlt h rfl
      refine ⟨i :: items, e, d, .cons htoken hitem hi hitems, hslash, ?_⟩
      rw [List.length_drop] at hroom
      rw [Item.expand_cons, List.length_append]
      omega

omit [DeckNumber τ] in
theorem overlay_empty {es : List (Option τ)} {n : Nat} (h : es.length ≤ n) :
    overlay some es (List.replicate n none) = es ++ List.replicate (n - es.length) none := by
  apply List.ext_getElem?
  intro j
  rw [getElem?_overlay, List.getElem?_replicate]
  rcases Nat.lt_or_ge j es.length with hj | hj
  · rw [if_pos (by omega), List.getElem?_append_left hj, List.getElem?_eq_getElem hj]
    cases es[j] <;> rfl
  · rw [List.getElem?_append_right hj, List.getElem?_replicate, List.getElem?_eq_none hj]
    rcases Nat.lt_or_ge j n with hn | hn
    · rw [if_pos hn, if_pos (by omega)]
      rfl
    · rw [if_neg (by omega), if_neg (by omega)]
      rfl

/-- Values are read up to the slash exactly if more empty slots than there are values take them all and
nothing else, and stay empty behind them. Both leave the same place. -/
theorem readValues_iff_fillSlots {n : Nat} (hroom : vs.length < n) (r r' : DeckReader) :
    readValues τ r = .ok vs r' ↔
      fillSlots some (List.replicate n none) r =
        (⟨vs.map some ++ List.replicate (n - vs.length) none, vs.length, .terminated⟩, r') := by
  have hslots : ∀ {items : List (Item τ)}, (expand items).length = vs.length →
      overlay some (expand items) (List.replicate n none) =
        expand items ++ List.replicate (n - vs.length) none := by
    intro items hlen
    rw [overlay_empty (by omega), hlen]
  have hlen : (List.replicate n (none : Option τ)).length = n := List.length_replicate
  rw [readValues_eq_ok]
  constructor
  · rintro ⟨items, e, d, hitems, hslash, hexpand, rfl⟩
    have hcount : (expand items).length = vs.length := by rw [hexpand, List.length_map]
    rw [fillSlots_of_room some hitems hslash (by omega), hslots hcount, hexpand, List.length_map]
  · intro hfill
    obtain ⟨items, e, d, hitems, hslash, hitemsRoom⟩ :=
      exists_items_of_terminated (congrArg (fun x => x.1.stop) hfill)
    rw [fillSlots_of_room some hitems hslash hitemsRoom] at hfill
    obtain ⟨hrun, hplace⟩ := Prod.mk.inj hfill
    obtain ⟨hfilled, hcount, -⟩ := SlotRun.mk.inj hrun
    rw [hslots hcount] at hfilled
    exact ⟨items, e, d, hitems, hslash, List.append_cancel_right hfilled, hplace.symm⟩

/-- Six slots for four values, two of which are one item. -/
theorem readValues_iff_fillSlots_repeated :
    4 < 6 ∧ ∃ place, readValues Int32 (.ofString "1 2*3 -- c\n 4 / rest\nC") = .ok [1, 3, 3, 4] place ∧
      fillSlots some (List.replicate 6 none) (.ofString "1 2*3 -- c\n 4 / rest\nC") =
        (⟨[some (1 : Int32), some 3, some 3, some 4, none, none], 4, .terminated⟩, place) := by
  have hread : ∃ place,
      readValues Int32 (.ofString "1 2*3 -- c\n 4 / rest\nC") = .ok [1, 3, 3, 4] place :=
    ⟨_, readValues_eq_ok.mpr ⟨[.value 1, .repeated 2 3, .value 4], _, _,
      .cons rfl rfl rfl (.cons rfl rfl rfl (.cons rfl rfl rfl (.nil _))), ⟨_, rfl, rfl⟩, rfl, rfl⟩⟩
  obtain ⟨place, hread⟩ := hread
  exact ⟨by decide, place, hread, (readValues_iff_fillSlots (by decide) _ _).mp hread⟩

end ReservoirDeck
