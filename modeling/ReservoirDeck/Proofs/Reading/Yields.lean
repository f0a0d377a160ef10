import ReservoirDeck.Proofs.Decimal.Characters
import ReservoirDeck.Proofs.Reading.Items
import ReservoirDeck.Proofs.Reading.Tokens
import ReservoirDeck.Proofs.RoundTrip.Fields

/-!
What the actions of a record give, whatever text they read. An owed value is always the text of a
real, so it may fill a name as well as a number.
-/

namespace ReservoirDeck

variable {α β : Type}

theorem quotableText_of_real {s : String} {x : Float} (h : realOfText? s = some x) :
    QuotableText s := by
  intro c hc
  have hreal := List.all_eq_true.mp (all_of_realOfText? h) c hc
  refine ⟨?_, ?_⟩ <;>
  · rintro rfl
    exact absurd hreal (by decide)

/-- An owed value is the text of a real. -/
def Standing.OwesReal : Standing → Prop
  | .owing _ (some text) => ∃ x, realOfText? text = some x
  | _ => True

theorem Standing.owesReal_owe (count : Nat) : (Standing.owe count none).OwesReal := by
  rw [owe]
  split <;> trivial

theorem Standing.OwesReal.owe {count : Nat} {value : Option String}
    (h : (Standing.owing count value).OwesReal) (n : Nat) : (Standing.owe n value).OwesReal := by
  rw [Standing.owe]
  split
  · trivial
  · cases value with
    | none => trivial
    | some text => exact h

/-- From every standing that owes only reals, the action gives such a value and owes only reals. -/
def RecordM.Yields (x : RecordM α) (P : α → Prop) : Prop :=
  ∀ s a s', s.standing.OwesReal → x s = .ok a s' → P a ∧ s'.standing.OwesReal

namespace RecordM

variable {P : α → Prop} {Q : β → Prop}

theorem Yields.pure {a : α} (h : P a) : Yields (pure a) P := by
  intro s a s' hs heq
  cases heq
  exact ⟨h, hs⟩

theorem Yields.bind {x : RecordM α} {f : α → RecordM β} (hx : Yields x P)
    (hf : ∀ a, P a → Yields (f a) Q) : Yields (x >>= f) Q := by
  intro s b s' hs h
  obtain ⟨a, s₁, ha, hb⟩ := Run.bind_eq_ok.mp h
  obtain ⟨hP, hs₁⟩ := hx s a s₁ hs ha
  exact hf a hP s₁ b s' hs₁ hb

theorem Yields.fail (cause : Cause) : Yields (RecordM.fail cause) P := by
  intro s a s' _ h
  cases h

theorem Yields.malformed (defect : Defect) : Yields (RecordM.malformed defect) P :=
  .fail _

theorem Yields.setStanding {standing : Standing} (h : standing.OwesReal) :
    Yields (setStanding standing) fun _ => True := by
  intro s a s' _ heq
  cases heq
  exact ⟨trivial, h⟩

theorem Yields.ofRead {x : ReadM α} (h : ∀ r a r', x r = .ok a r' → P a) : Yields (ofRead x) P := by
  intro s a s' hs heq
  rw [RecordM.ofRead] at heq
  split at heq
  · next ha =>
    cases heq
    exact ⟨h _ _ _ ha, hs⟩
  · cases heq

theorem Yields.get_bind {f : RecordReader → RecordM α}
    (h : ∀ s, s.standing.OwesReal → Yields (f s) P) : Yields (get >>= f) P :=
  fun s a s' hs heq => h s hs s a s' hs heq

theorem nameText_of_token {r r' : DeckReader} {t : Token} (h : ReadM.token r = .ok t r') :
    NameText t.text := by
  rw [ReadM.token, Run.bind_modifyGet_eq] at h
  cases ht : r.token?.1 with
  | none => simp [ht] at h
  | some t' =>
    simp only [ht, Run.pure_eq, EStateM.Result.ok.injEq] at h
    obtain ⟨rfl, -⟩ := h
    exact DeckReader.nameText_of_token? (Prod.ext ht rfl)

theorem endRecord_yields : Yields endRecord fun _ => True :=
  (Yields.ofRead (P := fun _ => True) fun _ _ _ _ => trivial).bind fun _ _ => .setStanding trivial

theorem name_yields (default : String) :
    Yields (name default) (Defaulted.Holds NameText default) := by
  refine .get_bind fun s hs => ?_
  obtain ⟨reader, standing⟩ := s
  cases standing with
  | ended => exact .pure rfl
  | owing count value =>
    refine (Yields.setStanding (hs.owe (count - 1))).bind fun _ _ => ?_
    cases value with
    | none => exact .pure rfl
    | some text =>
      obtain ⟨x, hx⟩ := hs
      exact .pure (.inl (quotableText_of_real hx))
  | reading =>
    refine (Yields.ofRead (P := fun t => NameText t.text) fun _ _ _ => nameText_of_token).bind
      fun t ht => ?_
    split
    · exact endRecord_yields.bind fun _ _ => .pure rfl
    · split
      · exact .malformed _
      · exact .pure ht
      · split
        · exact (Yields.setStanding (Standing.owesReal_owe _)).bind fun _ _ => .pure rfl
        · exact .pure ht

theorem requiredName_yields (what : String) : Yields (requiredName what) NameText := by
  refine (name_yields "").bind fun n hn => ?_
  cases n with
  | given s => exact .pure hn
  | missing s => exact .malformed _

section Numbers

variable {τ σ : Type} [DeckNumber τ]

theorem fillNext_yields (mark : τ → σ) (slots : List σ) :
    Yields (fillNext mark slots) fun _ => True := by
  intro s a s' _ h
  simp only [fillNext] at h
  split at h <;> cases h
  · exact ⟨trivial, Standing.owesReal_owe _⟩
  · exact ⟨trivial, trivial⟩

theorem pay_yields (mark : τ → σ) (slots : List σ) (value : Option String) :
    Yields (pay mark slots value) fun _ => True := by
  rcases pay_cases mark slots value with ⟨front, -, hpay⟩ | ⟨cause, hpay⟩
  · exact hpay ▸ .pure trivial
  · exact hpay ▸ .fail cause

theorem numbers_yields (mark : τ → σ) (slots : List σ) :
    Yields (numbers mark slots) fun _ => True := by
  rw [numbers_eq]
  refine .get_bind fun s hs => ?_
  obtain ⟨reader, standing⟩ := s
  cases standing with
  | ended => exact .pure trivial
  | reading => exact fillNext_yields mark slots
  | owing count value =>
    refine (pay_yields mark _ value).bind fun front _ => ?_
    refine (Yields.setStanding (hs.owe _)).bind fun _ _ => ?_
    split
    · exact .pure trivial
    · exact (fillNext_yields mark _).bind fun _ _ => .pure trivial

theorem optionalNumbers_yields (count : Nat) : Yields (optionalNumbers τ count) fun _ => True :=
  numbers_yields _ _

theorem number_yields (default : τ) :
    Yields (number default) (Defaulted.Holds (fun _ => True) default) := by
  refine (optionalNumbers_yields 1).bind fun entries _ => .pure ?_
  cases entries.2.head?.join <;> trivial

theorem requiredNumber_yields (what : String) : Yields (requiredNumber τ what) fun _ => True := by
  refine (optionalNumbers_yields 1).bind fun entries _ => ?_
  dsimp only
  split
  · exact .pure trivial
  · exact .malformed _

end Numbers

theorem splitStar_of_repeated {τ : Type} [DeckNumber τ] {s : String} {k : Nat} {v : τ}
    (h : Item.ofText? s = some (.repeated k v)) :
    ∃ count text, splitStar s = some (count, text) ∧
      DeckNumber.ofText? (String.ofList text) = some v := by
  rw [Item.ofText?] at h
  split at h
  · simp [Option.map_eq_some_iff] at h
  · cases h
  · simp [Option.map_eq_some_iff] at h
  · next count text _ _ hsplit =>
    simp only [Option.bind_eq_bind, Option.bind_eq_some_iff, Option.pure_def, Option.some.injEq,
      Item.repeated.injEq] at h
    obtain ⟨k', -, v', hv, -, rfl⟩ := h
    exact ⟨count, text, hsplit, hv⟩

theorem itemExtent_owesReal {t : Token} {count : Nat} {value : Option String}
    (h : itemExtent t = (count, value)) (n : Nat) : (Standing.owing n value).OwesReal := by
  cases value with
  | none => trivial
  | some text =>
    rw [itemExtent] at h
    split at h
    · cases h
    · next k x hitem =>
      rw [Token.item?] at hitem
      split at hitem
      · cases hitem
      · obtain ⟨count', text', hsplit, hx⟩ := splitStar_of_repeated hitem
        rw [hsplit] at h
        cases h
        exact ⟨x, hx⟩
    · cases h

theorem skipNext_owesReal {n : Nat} {r r' : DeckReader} {skipped : Nat} {standing : Standing}
    (h : skipNext n r = .ok (skipped, standing) r') : standing.OwesReal := by
  fun_induction skipNext n r generalizing skipped standing with
  | case1 =>
    cases h
    trivial
  | case2 => cases h
  | case3 =>
    cases h
    trivial
  | case4 n r hn t r₁ ht _ hend count value hextent hlt =>
    cases h
    exact itemExtent_owesReal hextent _
  | case5 n r hn t r₁ ht _ hend count value hextent hle skipped' standing' r₂ hrest ih =>
    cases h
    exact ih hrest
  | case6 => cases h

theorem skip_yields (n : Nat) : Yields (skip n) fun _ => True := by
  refine .get_bind fun s hs => ?_
  obtain ⟨reader, standing⟩ := s
  have hnext : ∀ n, Yields (ofRead (skipNext n)) fun result => result.2.OwesReal :=
    fun n => .ofRead fun r a r' h => skipNext_owesReal h
  cases standing with
  | ended => exact .pure trivial
  | reading =>
    exact (hnext n).bind fun result hresult =>
      (Yields.setStanding hresult).bind fun _ _ => .pure trivial
  | owing count value =>
    refine (Yields.setStanding (hs.owe _)).bind fun _ _ => ?_
    split
    · exact .pure trivial
    · exact (hnext _).bind fun result hresult =>
        (Yields.setStanding hresult).bind fun _ _ => .pure trivial

end RecordM

theorem Row.generateM_yields {ι : Type} {V : ι → Type} {make : (i : ι) → RecordM (V i)}
    {P : (i : ι) → V i → Prop} (h : ∀ i, RecordM.Yields (make i) (P i)) (is : List ι) :
    RecordM.Yields (Row.generateM make is) (Row.All P) := by
  induction is with
  | nil => exact .pure trivial
  | cons i is ih => exact (h i).bind fun v hv => ih.bind fun vs hvs => .pure ⟨hv, hvs⟩

theorem Row.all_of_ofEntries? {ι τ : Type} {V : ι → Type}
    {make : (i : ι) → Option τ → Option (V i)} {P : (i : ι) → V i → Prop}
    (h : ∀ i entry v, make i entry = some v → P i v) {is : List ι} {entries : List (Option τ)}
    {row : Row V is} (hrow : Row.ofEntries? make is entries = some row) : row.All P := by
  induction is generalizing entries with
  | nil =>
    cases row
    trivial
  | cons i is ih =>
    simp only [Row.ofEntries?, Option.bind_eq_bind, Option.bind_eq_some_iff, Option.pure_def,
      Option.some.injEq] at hrow
    obtain ⟨v, hv, vs, hvs, rfl⟩ := hrow
    exact ⟨h i _ v hv, ih hvs⟩

theorem RealSlot.sound_of_ofEntry? (slot : RealSlot) (entry : Option Float)
    (v : slot.Value Float) (h : slot.ofEntry? entry = some v) : slot.Sound v := by
  cases slot with
  | tagged label default scale =>
    cases h
    cases entry <;> trivial
  | index label =>
    cases h
    cases entry with
    | none =>
      change wholeNumber 0 = 0
      decide +kernel
    | some x => trivial
  | _ => trivial

theorem IntSlot.sound_of_ofEntry? (slot : IntSlot) (entry : Option Int32) (v : slot.Value)
    (h : slot.ofEntry? entry = some v) : slot.Sound v := by
  cases slot with
  | tagged label default =>
    cases h
    cases entry <;> trivial
  | needed label => trivial

theorem Field.read_yields (leader : String) (field : Field) :
    RecordM.Yields (field.read leader) field.Sound := by
  cases field with
  | name label default => exact RecordM.name_yields default
  | requiredName label what => exact RecordM.requiredName_yields what
  | answer label =>
    refine (RecordM.name_yields "NO").bind fun answer h => .pure ?_
    cases answer with
    | given s => trivial
    | missing s =>
      obtain rfl : s = "NO" := h
      change isYes "NO" = false
      decide
  | reals slots incomplete =>
    refine (RecordM.optionalNumbers_yields slots.length).bind fun entries _ => ?_
    dsimp only
    split
    · next values h => exact .pure (Row.all_of_ofEntries? RealSlot.sound_of_ofEntry? h)
    · exact .malformed _
  | ints slots incomplete =>
    refine (RecordM.optionalNumbers_yields slots.length).bind fun entries _ => ?_
    dsimp only
    split
    · next values h => exact .pure (Row.all_of_ofEntries? IntSlot.sound_of_ofEntry? h)
    · exact .malformed _
  | companions first what second =>
    refine (RecordM.requiredNumber_yields what).bind fun x _ =>
      (RecordM.number_yields (-1)).bind fun y hy => .pure ?_
    cases y with
    | given y =>
      intro hneg
      change (if y < 0 then x else y) < 0 at hneg
      change (if y < 0 then x else y) = x
      by_cases h : y < 0
      · rw [if_pos h]
      · rw [if_neg h] at hneg
        exact absurd hneg h
    | missing y =>
      obtain rfl : y = -1 := hy
      have hneg : (-1 : Float) < 0 := by decide
      change (if (-1 : Float) < 0 then x else -1) = x
      rw [if_pos hneg]
  | skipped count =>
    exact (RecordM.skip_yields count).bind fun _ _ => .pure trivial

end ReservoirDeck
