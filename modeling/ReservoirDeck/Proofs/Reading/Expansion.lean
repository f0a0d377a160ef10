import ReservoirDeck.Proofs.Reading.Items

/-!
What the items of a record stand for. Each item is so many entries, given or left out, one for each
field. Slots take the entries in order, as far as both go; only a repetition that the end of the slots
cuts off is refused.
-/

namespace ReservoirDeck

variable {τ σ : Type}

namespace Item

/-- The value of each field that an item stands for, none where the field is left out. -/
def entries : Item τ → List (Option τ)
  | .value v => [some v]
  | .defaults k => List.replicate k none
  | .repeated k v => List.replicate k (some v)

@[simp] theorem length_entries_defaults (k : Nat) :
    (defaults k : Item τ).entries.length = k :=
  List.length_replicate

@[simp] theorem length_entries_repeated (k : Nat) (v : τ) : (repeated k v).entries.length = k :=
  List.length_replicate

/-- The entries of items in a row. -/
def expand (items : List (Item τ)) : List (Option τ) :=
  items.flatMap entries

@[simp] theorem expand_nil : expand ([] : List (Item τ)) = [] := rfl

@[simp] theorem expand_cons (i : Item τ) (items : List (Item τ)) :
    expand (i :: items) = i.entries ++ expand items := rfl

@[simp] theorem expand_append (front rest : List (Item τ)) :
    expand (front ++ rest) = expand front ++ expand rest :=
  List.flatMap_append

end Item

open Item (expand)

/-- Entries put over slots, field by field. A slot whose field is left out, or has no entry, is kept. -/
def overlay (mark : τ → σ) (entries : List (Option τ)) (slots : List σ) : List σ :=
  slots.mapIdx fun j slot => entries[j]?.join.elim slot mark

section Overlay

variable (mark : τ → σ)

theorem getElem?_overlay (entries : List (Option τ)) (slots : List σ) (j : Nat) :
    (overlay mark entries slots)[j]? = slots[j]?.map fun slot => entries[j]?.join.elim slot mark :=
  List.getElem?_mapIdx

@[simp] theorem length_overlay (entries : List (Option τ)) (slots : List σ) :
    (overlay mark entries slots).length = slots.length :=
  List.length_mapIdx

theorem overlay_append {front : List (Option τ)} {slots : List σ} (h : front.length ≤ slots.length)
    (rest : List (Option τ)) : overlay mark (front ++ rest) slots =
      overlay mark front (slots.take front.length) ++ overlay mark rest (slots.drop front.length) := by
  have hlen : (overlay mark front (slots.take front.length)).length = front.length := by
    rw [length_overlay, List.length_take, Nat.min_eq_left h]
  apply List.ext_getElem?
  intro j
  rw [getElem?_overlay]
  rcases Nat.lt_or_ge j front.length with hj | hj
  · rw [List.getElem?_append_left hj, List.getElem?_append_left (by rwa [hlen]), getElem?_overlay,
      List.getElem?_take_of_lt hj]
  · rw [List.getElem?_append_right hj, List.getElem?_append_right (by rwa [hlen]), hlen,
      getElem?_overlay, List.getElem?_drop, Nat.add_sub_of_le hj]

theorem overlay_append_of_le {front : List (Option τ)} {slots : List σ}
    (h : slots.length ≤ front.length) (rest : List (Option τ)) :
    overlay mark (front ++ rest) slots = overlay mark front slots := by
  apply List.ext_getElem?
  intro j
  rw [getElem?_overlay, getElem?_overlay]
  rcases Nat.lt_or_ge j slots.length with hj | hj
  · rw [List.getElem?_append_left (Nat.lt_of_lt_of_le hj h)]
  · rw [List.getElem?_eq_none hj, Option.map_none, Option.map_none]

theorem overlay_missing (k : Nat) (slots : List σ) :
    overlay mark (List.replicate k none) slots = slots := by
  apply List.ext_getElem?
  intro j
  have hnone : (List.replicate k (none : Option τ))[j]?.join = none := by
    rw [List.getElem?_replicate]
    split <;> rfl
  rw [getElem?_overlay, hnone]
  exact Option.map_id_apply

@[simp] theorem overlay_nil (slots : List σ) : overlay mark [] slots = slots :=
  overlay_missing mark 0 slots

theorem overlay_given {k : Nat} {slots : List σ} (h : slots.length = k) (v : τ) :
    overlay mark (List.replicate k (some v)) slots = List.replicate k (mark v) := by
  subst h
  apply List.ext_getElem?
  intro j
  rw [getElem?_overlay, List.getElem?_replicate, List.getElem?_replicate]
  rcases Nat.lt_or_ge j slots.length with hj | hj
  · rw [if_pos hj, if_pos hj, List.getElem?_eq_getElem hj]
    rfl
  · rw [if_neg (Nat.not_lt_of_le hj), if_neg (Nat.not_lt_of_le hj), List.getElem?_eq_none hj]
    rfl

end Overlay

variable [DeckNumber τ] {mark : τ → σ} {slots : List σ} {items before : List (Item τ)}
  {i : Item τ} {k : Nat} {v : τ} {r r' e d : DeckReader} {t : Token}

/-- The next tokens are these items; the second place is the one after them. -/
inductive DeckReader.ReadsItems : DeckReader → List (Item τ) → DeckReader → Prop
  | nil (r : DeckReader) : ReadsItems r [] r
  | cons {r r' e : DeckReader} {t : Token} {i : Item τ} {items : List (Item τ)}
    (h : r.token? = (some t, r')) (ht : t.isTerminator = false) (hi : t.item? τ = some i)
    (hrest : ReadsItems r' items e) : ReadsItems r (i :: items) e

/-- The next token is a slash; the second place is the one after it. -/
def DeckReader.SlashAhead (e d : DeckReader) : Prop :=
  ∃ t, e.token? = (some t, d) ∧ t.isTerminator = true

theorem Token.length_entries_pos (hi : t.item? τ = some i) : 1 ≤ i.entries.length := by
  obtain ⟨hdefaults, hrepeated⟩ := t.item?_count_pos (τ := τ)
  cases i with
  | value v => exact Nat.le_refl 1
  | defaults k =>
    rw [Item.length_entries_defaults]
    exact hdefaults k hi
  | repeated k v =>
    rw [Item.length_entries_repeated]
    exact hrepeated k v hi

/-- An item that fits fills its slots, and the others are filled from the tokens after it. -/
theorem fillSlots_of_fits (h : r.token? = (some t, r')) (ht : t.isTerminator = false)
    (hi : t.item? τ = some i) (hfits : i.entries.length ≤ slots.length) :
    fillSlots mark slots r =
      ((fillSlots mark (slots.drop i.entries.length) r').1.after
          (overlay mark i.entries (slots.take i.entries.length)),
        (fillSlots mark (slots.drop i.entries.length) r').2) := by
  have hpos := Token.length_entries_pos hi
  have hs : slots ≠ [] := List.length_pos_iff.mp (by omega)
  rw [fillSlots_item hs h ht, hi]
  cases i with
  | value v =>
    have hone : overlay mark [some v] (slots.take 1) = [mark v] :=
      overlay_given mark (k := 1) (List.length_take_of_le (by omega)) v
    rw [← List.drop_one]
    change _ = (SlotRun.after (overlay mark [some v] (slots.take 1)) _, _)
    rw [hone]
    rfl
  | defaults k =>
    rw [Item.length_entries_defaults] at hfits ⊢
    dsimp only
    rw [if_neg (Nat.not_lt_of_le hfits), Item.entries, overlay_missing]
  | repeated k v =>
    rw [Item.length_entries_repeated] at hfits ⊢
    dsimp only
    rw [if_neg (Nat.not_lt_of_le hfits), Item.entries,
      overlay_given mark (List.length_take_of_le hfits)]

/-- A default marker that is too long is taken as far as the slots go. -/
theorem fillSlots_of_long_defaults (hs : slots ≠ []) (h : r.token? = (some t, r'))
    (ht : t.isTerminator = false) (hi : t.item? τ = some (.defaults k)) (hlong : slots.length < k) :
    fillSlots mark slots r = (⟨slots, slots.length, .full (k - slots.length)⟩, r') := by
  rw [fillSlots_item hs h ht, hi]
  exact if_pos hlong

theorem fillSlots_of_long_repeated (hs : slots ≠ []) (h : r.token? = (some t, r'))
    (ht : t.isTerminator = false) (hi : t.item? τ = some (.repeated k v)) (hlong : slots.length < k) :
    fillSlots mark slots r = SlotRun.fail slots (.unreadable t.text) r' := by
  rw [fillSlots_item hs h ht, hi]
  exact if_pos hlong

omit [DeckNumber τ] in
theorem Item.length_value_le (hs : slots ≠ []) (v : τ) :
    (Item.value v).entries.length ≤ slots.length :=
  List.length_pos_iff.mpr hs

/-- The end of `n` fields cuts off a repetition: it starts within them, after the items before it, and
ends beyond them. -/
structure Item.CutOff (n : Nat) (items before : List (Item τ)) (k : Nat) (v : τ) : Prop where
  among : before ++ [.repeated k v] <+: items
  starts : (expand before).length < n
  ends : n < (expand before).length + k

omit [DeckNumber τ] in
theorem Item.cutOff_cons {n : Nat} (hfits : i.entries.length ≤ n) :
    CutOff n (i :: items) (i :: before) k v ↔ CutOff (n - i.entries.length) items before k v := by
  constructor
  · rintro ⟨hamong, hstarts, hends⟩
    rw [expand_cons, List.length_append] at hstarts hends
    exact ⟨(List.prefix_cons_inj i).mp hamong, by omega, by omega⟩
  · rintro ⟨hamong, hstarts, hends⟩
    refine ⟨(List.prefix_cons_inj i).mpr hamong, ?_, ?_⟩
    · rw [expand_cons, List.length_append]
      omega
    · rw [expand_cons, List.length_append]
      omega

/-- The slots before a repetition that is cut off are filled, and it is an error behind it. -/
theorem fillSlots_cutOff (mark : τ → σ) (hitems : r.ReadsItems items e)
    (hcut : Item.CutOff slots.length items before k v) :
    ∃ m t place, r.ReadsItems before m ∧ m.token? = (some t, place) ∧
      t.item? τ = some (.repeated k v) ∧
      fillSlots mark slots r = (⟨overlay mark (expand before) slots, (expand before).length,
        .failed (place.error (.unreadable t.text))⟩, place) := by
  induction hitems generalizing slots before with
  | nil r => exact absurd (List.prefix_nil.mp hcut.among) (by simp)
  | @cons r r' e t i items h ht hi hrest ih =>
    cases before with
    | nil =>
      obtain ⟨hamong, hstarts, hends⟩ := hcut
      obtain rfl : .repeated k v = i := (List.cons_prefix_cons.mp hamong).1
      rw [Item.expand_nil, List.length_nil, Nat.zero_add] at hends
      have hs : slots ≠ [] := List.length_pos_iff.mp (Nat.zero_lt_of_lt hstarts)
      refine ⟨r, t, r', .nil r, h, hi, ?_⟩
      rw [fillSlots_of_long_repeated hs h ht hi hends, Item.expand_nil, overlay_nil]
      rfl
    | cons b before =>
      obtain rfl : b = i := (List.cons_prefix_cons.mp hcut.among).1
      have hfits : b.entries.length ≤ slots.length := by
        have hstarts := hcut.starts
        rw [Item.expand_cons, List.length_append] at hstarts
        omega
      have hlen : (slots.drop b.entries.length).length = slots.length - b.entries.length :=
        List.length_drop
      have hcut' := (Item.cutOff_cons hfits).mp hcut
      rw [← hlen] at hcut'
      obtain ⟨m, t', place, hbefore, htoken, hitem, hfill⟩ := ih hcut'
      refine ⟨m, t', place, .cons h ht hi hbefore, htoken, hitem, ?_⟩
      rw [fillSlots_of_fits h ht hi hfits, hfill, Item.expand_cons, overlay_append mark hfits]
      simp [SlotRun.after, hfits]

/-- Slots were filled from items ahead that a slash follows, and nothing was refused. Either the items
end first, and the slash and its line are passed; or the slots do, and some items are left with the
slash. `place` is where reading went to. -/
structure Filled (mark : τ → σ) (slots : List σ) (r : DeckReader) (items : List (Item τ))
    (e d : DeckReader) (run : SlotRun σ) (place : DeckReader) : Prop where
  slots_eq : run.slots = overlay mark (expand items) slots
  visited_eq : run.visited = min (expand items).length slots.length
  ended : (expand items).length < slots.length → run.stop = .terminated ∧ place = d.skipLine
  full : slots.length ≤ (expand items).length → ∃ front rest overflow,
    items = front ++ rest ∧ r.ReadsItems front place ∧ place.ReadsItems rest e ∧
      -- All items that were read start within the slots; the last of them may reach beyond.
      (∀ before i, before ++ [i] <+: front → (expand before).length < slots.length) ∧
      (expand front).length = slots.length + overflow ∧ run.stop = .full overflow

theorem Filled.not_failed {run : SlotRun σ} {place : DeckReader}
    (h : Filled mark slots r items e d run place) (error : DeckError) : run.stop ≠ .failed error := by
  rcases Nat.lt_or_ge (expand items).length slots.length with hlt | hle
  · rw [(h.ended hlt).1]
    simp
  · obtain ⟨front, rest, overflow, -, -, -, -, -, hstop⟩ := h.full hle
    rw [hstop]
    simp

theorem filled_nil (hitems : r.ReadsItems items e) :
    Filled mark [] r items e d (fillSlots mark [] r).1 (fillSlots mark [] r).2 := by
  rw [fillSlots_nil]
  refine ⟨rfl, by simp, fun h => absurd h (Nat.not_lt_zero _), fun _ => ?_⟩
  refine ⟨[], items, 0, rfl, .nil r, hitems, fun before i h => ?_, rfl, rfl⟩
  exact absurd (List.prefix_nil.mp h) (by simp)

theorem Filled.cons {run : SlotRun σ} {place : DeckReader} (h : r.token? = (some t, r'))
    (ht : t.isTerminator = false) (hi : t.item? τ = some i) (hfits : i.entries.length ≤ slots.length)
    (hrest : Filled mark (slots.drop i.entries.length) r' items e d run place) :
    Filled mark slots r (i :: items) e d
      (run.after (overlay mark i.entries (slots.take i.entries.length))) place := by
  have hpos := Token.length_entries_pos hi
  have hlen : (slots.drop i.entries.length).length = slots.length - i.entries.length :=
    List.length_drop
  have hexpand : (expand (i :: items)).length = i.entries.length + (expand items).length := by
    rw [Item.expand_cons, List.length_append]
  have hstop : (run.after (overlay mark i.entries (slots.take i.entries.length))).stop = run.stop :=
    rfl
  constructor
  · rw [Item.expand_cons, overlay_append mark hfits, ← hrest.slots_eq]
    rfl
  · change (overlay mark i.entries (slots.take i.entries.length)).length + run.visited = _
    rw [length_overlay, List.length_take, hrest.visited_eq, hlen, hexpand]
    omega
  · intro hlt
    rw [hstop]
    exact hrest.ended (by omega)
  · intro hle
    obtain ⟨front, rest, overflow, rfl, hfront, hahead, hstart, hfull, hrun⟩ :=
      hrest.full (by omega)
    refine ⟨i :: front, rest, overflow, rfl, .cons h ht hi hfront, hahead, ?_, ?_, hrun⟩
    · intro before j hbefore
      cases before with
      | nil =>
        rw [Item.expand_nil, List.length_nil]
        omega
      | cons b before =>
        obtain ⟨rfl, hbefore'⟩ := List.cons_prefix_cons.mp hbefore
        have := hstart before j hbefore'
        rw [Item.expand_cons, List.length_append]
        omega
    · rw [Item.expand_cons, List.length_append]
      omega

theorem filled_defaults (h : r.token? = (some t, r')) (ht : t.isTerminator = false)
    (hi : t.item? τ = some (.defaults k)) (hs : slots ≠ []) (hk : slots.length < k)
    (hrest : r'.ReadsItems items e) :
    Filled mark slots r (.defaults k :: items) e d (fillSlots mark slots r).1
      (fillSlots mark slots r).2 := by
  have hentries : (Item.defaults k : Item τ).entries.length = k := Item.length_entries_defaults k
  have hexpand : slots.length ≤ (expand (.defaults k :: items)).length := by
    rw [Item.expand_cons, List.length_append, hentries]
    omega
  rw [fillSlots_of_long_defaults hs h ht hi hk]
  refine ⟨?_, (Nat.min_eq_right hexpand).symm, fun hlt => absurd hexpand (Nat.not_le_of_lt hlt),
    fun _ => ?_⟩
  · rw [Item.expand_cons, overlay_append_of_le mark (by omega), Item.entries, overlay_missing]
  · refine ⟨[.defaults k], items, k - slots.length, rfl, .cons h ht hi (.nil r'), hrest, ?_, ?_, rfl⟩
    · intro before i hbefore
      have hnil : before = [] := by
        have := hbefore.length_le
        rw [List.length_append, List.length_singleton, List.length_singleton] at this
        exact List.length_eq_zero_iff.mp (by omega)
      rw [hnil, Item.expand_nil]
      exact List.length_pos_iff.mpr hs
    · rw [Item.expand_cons, Item.expand_nil, List.append_nil, hentries]
      omega

/-- Unless a repetition is cut off, slots take the entries of the items ahead. -/
theorem fillSlots_filled (mark : τ → σ) (hitems : r.ReadsItems items e) (hslash : e.SlashAhead d)
    (hcut : ∀ before k v, ¬ Item.CutOff slots.length items before k v) :
    Filled mark slots r items e d (fillSlots mark slots r).1 (fillSlots mark slots r).2 := by
  induction hitems generalizing slots with
  | nil r =>
    by_cases hs : slots = []
    · subst hs
      exact filled_nil (.nil r)
    obtain ⟨t, htoken, ht⟩ := hslash
    rw [fillSlots_terminator hs htoken ht]
    have hpos := List.length_pos_iff.mpr hs
    exact ⟨(overlay_nil mark slots).symm, (Nat.zero_min _).symm, fun _ => ⟨rfl, rfl⟩,
      fun hle => absurd hle (Nat.not_le_of_lt hpos)⟩
  | @cons r r' e t i items h ht hi hrest ih =>
    by_cases hs : slots = []
    · subst hs
      exact filled_nil (.cons h ht hi hrest)
    rcases Nat.lt_or_ge slots.length i.entries.length with hlt | hfits
    · cases i with
      | value v => exact absurd (Item.length_value_le hs v) (Nat.not_le_of_lt hlt)
      | defaults k =>
        rw [Item.length_entries_defaults] at hlt
        exact filled_defaults h ht hi hs hlt hrest
      | repeated k v =>
        rw [Item.length_entries_repeated] at hlt
        have hpos := List.length_pos_iff.mpr hs
        exact absurd ⟨⟨items, rfl⟩, hpos, by simpa using hlt⟩ (hcut [] k v)
    · have hlen : (slots.drop i.entries.length).length = slots.length - i.entries.length :=
        List.length_drop
      have hcut' : ∀ before k v,
          ¬ Item.CutOff (slots.drop i.entries.length).length items before k v := by
        intro before k v hcutoff
        rw [hlen, ← Item.cutOff_cons hfits] at hcutoff
        exact hcut _ k v hcutoff
      rw [fillSlots_of_fits h ht hi hfits]
      exact (ih hslash hcut').cons h ht hi hfits

section Agreement

variable {σ' : Type} {slots' : List σ'}

/-- Two runs filled as many slots, stopped for the same reason and at the same place. -/
def SlotRun.Agrees (x : SlotRun σ × DeckReader) (y : SlotRun σ' × DeckReader) : Prop :=
  x.1.visited = y.1.visited ∧ x.1.stop = y.1.stop ∧ x.2 = y.2

omit [DeckNumber τ] in
theorem SlotRun.Agrees.after {x : SlotRun σ × DeckReader} {y : SlotRun σ' × DeckReader}
    (h : Agrees x y) {front : List σ} {front' : List σ'} (hlen : front.length = front'.length) :
    Agrees (x.1.after front, x.2) (y.1.after front', y.2) := by
  obtain ⟨hvisited, hstop, hplace⟩ := h
  refine ⟨?_, hstop, hplace⟩
  change front.length + x.1.visited = front'.length + y.1.visited
  rw [hlen, hvisited]

theorem ne_nil_of_length_eq (hlen : slots.length = slots'.length) (hne : ¬ slots.isEmpty = true) :
    slots' ≠ [] := by
  rintro rfl
  exact hne (List.isEmpty_iff.mpr (List.length_eq_zero_iff.mp hlen))

/-- How far slots are filled does not depend on what they hold, nor on what a number becomes in them. -/
theorem fillSlots_agrees (mark : τ → σ) (mark' : τ → σ')
    (hlen : slots.length = slots'.length) (r : DeckReader) :
    SlotRun.Agrees (fillSlots mark slots r) (fillSlots mark' slots' r) := by
  fun_induction fillSlots mark slots r generalizing slots' with
  | case1 slots r hempty =>
    rw [List.isEmpty_iff.mp hempty] at hlen
    rw [List.length_eq_zero_iff.mp hlen.symm, fillSlots_nil]
    exact ⟨rfl, rfl, rfl⟩
  | case2 slots r hne r' h =>
    rw [fillSlots_none (ne_nil_of_length_eq hlen hne) h]
    exact ⟨rfl, rfl, rfl⟩
  | case3 slots r hne t r' h _ ht =>
    rw [fillSlots_terminator (ne_nil_of_length_eq hlen hne) h ht]
    exact ⟨rfl, rfl, rfl⟩
  | case4 slots r hne t r' h _ ht v hv run r'' hrun ih =>
    have hrest : SlotRun.Agrees (run, r'') (fillSlots mark' slots'.tail r') :=
      hrun ▸ ih (by simp [hlen])
    rw [fillSlots_item (ne_nil_of_length_eq hlen hne) h (by simpa using ht), hv]
    exact hrest.after rfl
  | case5 slots r hne t r' h _ ht k hk hlt =>
    rw [fillSlots_item (ne_nil_of_length_eq hlen hne) h (by simpa using ht), hk]
    dsimp only
    rw [if_pos (hlen ▸ hlt), ← hlen]
    exact ⟨rfl, rfl, rfl⟩
  | case6 slots r hne t r' h _ ht k hk hle run r'' hrun ih =>
    have hrest : SlotRun.Agrees (run, r'') (fillSlots mark' (slots'.drop k) r') :=
      hrun ▸ ih (by simp [hlen])
    rw [fillSlots_item (ne_nil_of_length_eq hlen hne) h (by simpa using ht), hk]
    dsimp only
    rw [if_neg (hlen ▸ hle)]
    exact hrest.after (by simp [hlen])
  | case7 slots r hne t r' h _ ht k v hk hlt =>
    rw [fillSlots_item (ne_nil_of_length_eq hlen hne) h (by simpa using ht), hk]
    dsimp only
    rw [if_pos (hlen ▸ hlt)]
    exact ⟨rfl, rfl, rfl⟩
  | case8 slots r hne t r' h _ ht k v hk hle run r'' hrun ih =>
    have hrest : SlotRun.Agrees (run, r'') (fillSlots mark' (slots'.drop k) r') :=
      hrun ▸ ih (by simp [hlen])
    rw [fillSlots_item (ne_nil_of_length_eq hlen hne) h (by simpa using ht), hk]
    dsimp only
    rw [if_neg (hlen ▸ hle)]
    exact hrest.after (by simp)
  | case9 slots r hne t r' h _ ht hnone =>
    rw [fillSlots_item (ne_nil_of_length_eq hlen hne) h (by simpa using ht), hnone]
    exact ⟨rfl, rfl, rfl⟩

end Agreement

/-- Slots are filled from a record as its items expand. Filling fails exactly if the end of the slots cuts
off a repetition; the slots before it are filled then, the others are as they were. Else every slot has its
entry, as far as one is given, and what does not fit of the last item is left over. What the slots hold
makes no difference to it: a number may go into a slot as it is, as `Defaulted.given`, or as `some`. -/
theorem fillSlots_expand (mark : τ → σ) (slots : List σ) (hitems : r.ReadsItems items e)
    (hslash : e.SlashAhead d) :
    ((∃ error, (fillSlots mark slots r).1.stop = .failed error ∧ error.code = .unreadableValue) ↔
        ∃ before k v, Item.CutOff slots.length items before k v) ∧
      (∀ before k v, Item.CutOff slots.length items before k v →
        (fillSlots mark slots r).1.slots = overlay mark (expand before) slots ∧
          ∃ m t, r.ReadsItems before m ∧ m.token? = (some t, (fillSlots mark slots r).2) ∧
            t.item? τ = some (.repeated k v) ∧ (fillSlots mark slots r).1.stop =
              .failed ((fillSlots mark slots r).2.error (.unreadable t.text))) ∧
      ((¬ ∃ before k v, Item.CutOff slots.length items before k v) →
        Filled mark slots r items e d (fillSlots mark slots r).1 (fillSlots mark slots r).2) ∧
      ∀ {σ' : Type} (mark' : τ → σ') (slots' : List σ'), slots.length = slots'.length →
        SlotRun.Agrees (fillSlots mark slots r) (fillSlots mark' slots' r) := by
  have hcut : ∀ before k v, Item.CutOff slots.length items before k v →
      (fillSlots mark slots r).1.slots = overlay mark (expand before) slots ∧
        ∃ m t, r.ReadsItems before m ∧ m.token? = (some t, (fillSlots mark slots r).2) ∧
          t.item? τ = some (.repeated k v) ∧ (fillSlots mark slots r).1.stop =
            .failed ((fillSlots mark slots r).2.error (.unreadable t.text)) := by
    intro before k v hcut
    obtain ⟨m, t, place, hbefore, htoken, hitem, hfill⟩ := fillSlots_cutOff mark hitems hcut
    rw [hfill]
    exact ⟨rfl, m, t, hbefore, htoken, hitem, rfl⟩
  have hfilled : (¬ ∃ before k v, Item.CutOff slots.length items before k v) →
      Filled mark slots r items e d (fillSlots mark slots r).1 (fillSlots mark slots r).2 := by
    intro hnone
    apply fillSlots_filled mark hitems hslash
    intro before k v hcut
    exact hnone ⟨before, k, v, hcut⟩
  refine ⟨⟨?_, ?_⟩, hcut, hfilled, fun mark' slots' hlen => fillSlots_agrees mark mark' hlen r⟩
  · rintro ⟨error, hfailed, -⟩
    by_contra hnone
    exact (hfilled hnone).not_failed error hfailed
  · rintro ⟨before, k, v, h⟩
    obtain ⟨-, m, t, -, -, -, hstop⟩ := hcut before k v h
    exact ⟨_, hstop, rfl⟩

/-- Six slots, the last of them left out by a marker that reaches further; and four, whose end cuts off
the repetition. -/
theorem fillSlots_expand_defaulted :
    (fillSlots Defaulted.given [.missing 1, .missing 2, .missing 3, .missing 4, .missing 5, .missing 6]
        (.ofString "7 2* 2*5 -- c\n 4* 9 / d\nC")).1.slots =
        [.given (7 : Int32), .missing 2, .missing 3, .given 5, .given 5, .missing 6] ∧
      (fillSlots Defaulted.given [.missing 1, .missing 2, .missing 3, .missing 4]
          (.ofString "7 2* 2*5 -- c\n 4* 9 / d\nC")).1.slots =
        [.given (7 : Int32), .missing 2, .missing 3, .missing 4] := by
  obtain ⟨e, d, hitems, hslash⟩ : ∃ e d, (DeckReader.ofString "7 2* 2*5 -- c\n 4* 9 / d\nC").ReadsItems
      [.value (7 : Int32), .defaults 2, .repeated 2 5, .defaults 4, .value 9] e ∧ e.SlashAhead d :=
    ⟨_, _, .cons rfl rfl rfl (.cons rfl rfl rfl (.cons rfl rfl rfl (.cons rfl rfl rfl
      (.cons rfl rfl rfl (.nil _))))), _, rfl, rfl⟩
  have hnone : ¬ ∃ before k v, Item.CutOff 6
      [.value (7 : Int32), .defaults 2, .repeated 2 5, .defaults 4, .value 9] before k v := by
    rintro ⟨before, k, v, ⟨after, hafter⟩, -, hends⟩
    rcases before with _ | ⟨_, _ | ⟨_, _ | ⟨_, _ | ⟨_, _ | ⟨_, before⟩⟩⟩⟩⟩ <;> simp at hafter
    obtain ⟨rfl, rfl, ⟨rfl, rfl⟩, -⟩ := hafter
    exact absurd hends (by decide)
  have hcut : Item.CutOff 4 [.value (7 : Int32), .defaults 2, .repeated 2 5, .defaults 4, .value 9]
      [.value 7, .defaults 2] 2 5 :=
    ⟨⟨[.defaults 4, .value 9], rfl⟩, by decide, by decide⟩
  constructor
  · obtain ⟨-, -, hfilled, -⟩ := fillSlots_expand Defaulted.given
      [.missing 1, .missing 2, .missing 3, .missing 4, .missing 5, .missing 6] hitems hslash
    rw [(hfilled hnone).slots_eq]
    decide
  · obtain ⟨-, hcutoff, -⟩ := fillSlots_expand Defaulted.given
      [.missing 1, .missing 2, .missing 3, .missing 4] hitems hslash
    rw [(hcutoff _ _ _ hcut).1]
    decide

end ReservoirDeck
