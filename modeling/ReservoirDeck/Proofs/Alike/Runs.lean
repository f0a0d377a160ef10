import ReservoirDeck.Proofs.Reading.Loops

/-!
Two runs of one action. From states that are near each other they give the same value or fail for the
same cause, and end near each other. The first run may also pass beyond what the two have in common, or
fail for a cause that is excused, and then nothing is said of the second.
-/

namespace ReservoirDeck

/-- Which states of two runs are near each other, which states of the first are past everything that
they have in common, and for which causes the first may fail without the second. -/
structure Sides (σ : Type) where
  near : σ → σ → Prop
  past : σ → Prop
  excused : Cause → Prop

namespace Sides

variable {σ τ α β : Type} {p : Sides σ}

def Passed (p : Sides σ) : EStateM.Result DeckError σ α → Prop
  | .ok _ s => p.past s
  | .error _ s => p.past s

/-- How two runs end that are alike. -/
inductive Outcome (p : Sides σ) :
    EStateM.Result DeckError σ α → EStateM.Result DeckError σ α → Prop
  | ok {a : α} {s t : σ} (h : p.near s t) : Outcome p (.ok a s) (.ok a t)
  | error {e e' : DeckError} {s t : σ} (h : p.near s t) (cause : e.cause = e'.cause)
      (keyword : e.keyword = e'.keyword) : Outcome p (.error e s) (.error e' t)
  | excused {e : DeckError} {s : σ} {second : EStateM.Result DeckError σ α}
      (h : p.excused e.cause) : Outcome p (.error e s) second
  | past {first second : EStateM.Result DeckError σ α} (h : p.Passed first) :
      Outcome p first second

theorem Outcome.of_ok {a : α} {s : σ} {second : EStateM.Result DeckError σ α}
    (h : p.Outcome (.ok a s) second) : p.past s ∨ ∃ t, second = .ok a t ∧ p.near s t := by
  cases h with
  | ok h => exact .inr ⟨_, rfl, h⟩
  | past h => exact .inl h

theorem Outcome.mono {q : Sides σ} {first second : EStateM.Result DeckError σ α}
    (h : p.Outcome first second) (hnear : ∀ s t, p.near s t → q.near s t)
    (hpast : ∀ s, p.past s → q.past s) (hexcused : ∀ cause, p.excused cause → q.excused cause) :
    q.Outcome first second := by
  cases h with
  | ok h => exact .ok (hnear _ _ h)
  | error h cause keyword => exact .error (hnear _ _ h) cause keyword
  | excused h => exact .excused (hexcused _ h)
  | past h =>
    apply Outcome.past
    cases first with
    | ok a s => exact hpast s h
    | error e s => exact hpast s h

/-- An error of the first run is one of the second, also where it is passed on. -/
theorem Outcome.of_error {q : Sides τ} {e : DeckError} {s : σ} {s' : τ}
    {second : EStateM.Result DeckError σ α} {second' : EStateM.Result DeckError τ β}
    (h : p.Outcome (.error e s) second) (hpast : p.past s → q.past s')
    (hexcused : p.excused e.cause → q.excused e.cause)
    (hsecond : ∀ e' t, second = .error e' t → p.near s t →
      ∃ t', second' = .error e' t' ∧ q.near s' t') :
    q.Outcome (.error e s') second' := by
  cases h with
  | error h cause keyword =>
    obtain ⟨t', ht', h'⟩ := hsecond _ _ rfl h
    rw [ht']
    exact .error h' cause keyword
  | excused h => exact .excused (hexcused h)
  | past h => exact .past (hpast h)

theorem Outcome.answer_eq {first second : EStateM.Result DeckError σ α}
    (h : p.Outcome first second) (hpast : ∀ s, ¬ p.past s) (hexcused : ∀ cause, ¬ p.excused cause) :
    Run.answer second = Run.answer first := by
  cases h with
  | ok h => rfl
  | error h cause keyword => rw [Run.answer, Run.answer, cause, keyword]
  | excused h => exact absurd h (hexcused _)
  | past h => cases first <;> exact absurd h (hpast _)

theorem Outcome.near_state {first second : EStateM.Result DeckError σ α}
    (h : p.Outcome first second) (hpast : ∀ s, ¬ p.past s) (hexcused : ∀ cause, ¬ p.excused cause) :
    p.near (Run.state first) (Run.state second) := by
  cases h with
  | ok h => exact h
  | error h _ _ => exact h
  | excused h => exact absurd h (hexcused _)
  | past h => cases first <;> exact absurd h (hpast _)

theorem Outcome.bind {x y : EStateM DeckError σ α} {f g : α → EStateM DeckError σ β} {s t : σ}
    (h : p.Outcome (x s) (y t)) (hpast : ∀ s, ¬ p.past s)
    (hf : ∀ a s' t', p.near s' t' → p.Outcome (f a s') (g a t')) :
    p.Outcome ((x >>= f) s) ((y >>= g) t) := by
  cases hs : x s with
  | ok a s' =>
    rw [hs] at h
    rcases h.of_ok with hs' | ⟨t', ht, hnear⟩
    · exact absurd hs' (hpast s')
    · rw [Run.bind_of_ok f hs, Run.bind_of_ok g ht]
      exact hf a s' t' hnear
  | error e s' =>
    rw [hs] at h
    rw [Run.bind_of_error f hs]
    exact h.of_error id id fun e' t' ht hnear => ⟨t', Run.bind_of_error g ht, hnear⟩

theorem Outcome.map {x y : EStateM DeckError σ α} {s t : σ} (f : α → β)
    (h : p.Outcome (x s) (y t)) (hpast : ∀ s, ¬ p.past s) :
    p.Outcome ((f <$> x) s) ((f <$> y) t) := by
  rw [map_eq_pure_bind, map_eq_pure_bind]
  exact h.bind hpast fun _ _ _ hnear => .ok hnear

/-- From this state of the first run the action is alike in both. What is past stays past. -/
structure AlikeFrom (p : Sides σ) (x : EStateM DeckError σ α) (s : σ) : Prop where
  near : ∀ t, p.near s t → p.Outcome (x s) (x t)
  past : p.past s → p.Passed (x s)

def Alike (p : Sides σ) (x : EStateM DeckError σ α) : Prop :=
  ∀ s, p.AlikeFrom x s

theorem AlikeFrom.bind {x : EStateM DeckError σ α} {f : α → EStateM DeckError σ β} {s : σ}
    (hx : p.AlikeFrom x s) (hf : ∀ a s', x s = .ok a s' → p.AlikeFrom (f a) s') :
    p.AlikeFrom (x >>= f) s where
  near t h := by
    have hout := hx.near t h
    cases hs : x s with
    | ok a s' =>
      rw [hs] at hout
      rw [Run.bind_of_ok f hs]
      rcases hout.of_ok with hpast | ⟨t', ht, h'⟩
      · exact .past ((hf a s' hs).past hpast)
      · rw [Run.bind_of_ok f ht]
        exact (hf a s' hs).near t' h'
    | error e s' =>
      rw [hs] at hout
      rw [Run.bind_of_error f hs]
      exact hout.of_error id id fun e' t' ht h' => ⟨t', Run.bind_of_error f ht, h'⟩
  past h := by
    have hout := hx.past h
    cases hs : x s with
    | ok a s' =>
      rw [hs] at hout
      rw [Run.bind_of_ok f hs]
      exact (hf a s' hs).past hout
    | error e s' =>
      rw [hs] at hout
      rw [Run.bind_of_error f hs]
      exact hout

theorem AlikeFrom.pure (a : α) (s : σ) : p.AlikeFrom (pure a) s where
  near _ h := .ok h
  past h := h

theorem AlikeFrom.map {x : EStateM DeckError σ α} {s : σ} (f : α → β) (hx : p.AlikeFrom x s) :
    p.AlikeFrom (f <$> x) s := by
  have heq : f <$> x = x >>= fun a => Pure.pure (f a) := by
    funext s
    change EStateM.map f x s = EStateM.bind x _ s
    unfold EStateM.map EStateM.bind
    cases x s <;> rfl
  rw [heq]
  exact hx.bind fun a s' _ => .pure (f a) s'

/-- An action that runs another one on a part of its state, and puts back what that leaves; `giveUp`
puts back what it leaves where it fails. -/
structure Lifts (p : Sides σ) (q : Sides τ) (x : EStateM DeckError σ α) (y : EStateM DeckError τ β)
    (part : τ → σ) (value : α → β) (put : τ → α → σ → τ) (giveUp : τ → σ → τ) : Prop where
  ok {t : τ} {a : α} {s : σ} : x (part t) = .ok a s → y t = .ok (value a) (put t a s)
  error {t : τ} {e : DeckError} {s : σ} : x (part t) = .error e s → y t = .error e (giveUp t s)
  near {t t' : τ} : q.near t t' → p.near (part t) (part t')
  past {t : τ} : q.past t → p.past (part t)
  excused {cause : Cause} : p.excused cause → q.excused cause
  put_near {t t' : τ} {a : α} {s s' : σ} : q.near t t' → p.near s s' →
    q.near (put t a s) (put t' a s')
  put_past {t : τ} {a : α} {s : σ} : p.past s → q.past (put t a s)
  giveUp_near {t t' : τ} {s s' : σ} : q.near t t' → p.near s s' →
    q.near (giveUp t s) (giveUp t' s')
  giveUp_past {t : τ} {s : σ} : p.past s → q.past (giveUp t s)

theorem Lifts.alikeFrom {q : Sides τ} {x : EStateM DeckError σ α} {y : EStateM DeckError τ β}
    {part : τ → σ} {value : α → β} {put : τ → α → σ → τ} {giveUp : τ → σ → τ}
    (h : p.Lifts q x y part value put giveUp) {t : τ} (hx : p.AlikeFrom x (part t)) :
    q.AlikeFrom y t where
  near t' hnear := by
    have hout := hx.near (part t') (h.near hnear)
    cases hs : x (part t) with
    | ok a s =>
      rw [hs] at hout
      rw [h.ok hs]
      rcases hout.of_ok with hpast | ⟨s', hs', h'⟩
      · exact .past (h.put_past hpast)
      · rw [h.ok hs']
        exact .ok (h.put_near hnear h')
    | error e s =>
      rw [hs] at hout
      rw [h.error hs]
      exact hout.of_error h.giveUp_past h.excused fun e' s' hs' h' =>
        ⟨_, h.error hs', h.giveUp_near hnear h'⟩
  past hpast := by
    have hout := hx.past (h.past hpast)
    cases hs : x (part t) with
    | ok a s =>
      rw [hs] at hout
      rw [h.ok hs]
      exact h.put_past hout
    | error e s =>
      rw [hs] at hout
      rw [h.error hs]
      exact h.giveUp_past hout

namespace Alike

theorem pure (a : α) : p.Alike (pure a) :=
  fun s => .pure a s

theorem bind {x : EStateM DeckError σ α} {f : α → EStateM DeckError σ β} (hx : p.Alike x)
    (hf : ∀ a, p.Alike (f a)) : p.Alike (x >>= f) :=
  fun s => (hx s).bind fun a s' _ => hf a s'

theorem map {x : EStateM DeckError σ α} (f : α → β) (hx : p.Alike x) : p.Alike (f <$> x) :=
  fun s => (hx s).map f

theorem discard {x : EStateM DeckError σ α} (hx : p.Alike x) : p.Alike (discard x) :=
  hx.map _

end Alike

end Sides

/-- Which places of two texts are near each other, which places of the first are past everything that
the texts have in common, and for which causes reading the first may fail alone. -/
structure Pairing where
  near : Cursor → Cursor → Prop
  past : Cursor → Prop
  excused : Cause → Prop

namespace Pairing

variable {p : Pairing} {α β σ : Type}

def readers (p : Pairing) : Sides DeckReader where
  near r s := p.near r.cursor s.cursor ∧ r.keyword = s.keyword
  past r := p.past r.cursor
  excused := p.excused

def records (p : Pairing) : Sides RecordReader where
  near r s := p.readers.near r.reader s.reader ∧ r.standing = s.standing
  past r := p.past r.reader.cursor
  excused := p.excused

/-- What the actions that look at the text have to be like for all others to be alike. -/
structure Lawful (p : Pairing) : Prop where
  past_forward {c : Cursor} (h : p.past c) (n : Nat) : p.past (c.forward n)
  item : p.readers.Alike ReadM.item
  tokenText : p.readers.Alike ReadM.tokenText
  terminator : p.readers.Alike ReadM.terminator
  skipTrivia {c d : Cursor} (h : p.near c d) : p.past c.skipTrivia ∨ p.near c.skipTrivia d.skipTrivia
  lookahead {c d : Cursor} (h : p.near c d) : p.past c.skipTrivia ∨ c.lookahead = d.lookahead ∨
    c.lookahead.endsRows = true ∧ d.lookahead.endsRows = true

theorem error_outcome {r s : DeckReader} (h : p.readers.near r s) (cause : Cause) :
    p.readers.Outcome (.error (r.error cause) r : EStateM.Result DeckError DeckReader α)
      (.error (s.error cause) s) :=
  .error h rfl h.2

theorem fail (p : Pairing) (cause : Cause) : p.readers.Alike (ReadM.fail cause : ReadM α) :=
  fun _ => ⟨fun _ h => error_outcome h cause, fun h => h⟩

theorem malformed (p : Pairing) (defect : Defect) :
    p.readers.Alike (ReadM.malformed defect : ReadM α) :=
  p.fail _

theorem inKeyword (name : String) {x : ReadM α} (hx : p.readers.Alike x) :
    p.readers.Alike (ReadM.inKeyword name x) := by
  have hlifts : p.readers.Lifts p.readers x (ReadM.inKeyword name x)
      (fun r => { r with keyword := some name }) id (fun _ _ r => { r with keyword := none })
      (fun _ r => { r with keyword := none }) :=
    { ok := fun h => by
        rw [ReadM.inKeyword, h]
        rfl
      error := fun h => by rw [ReadM.inKeyword, h]
      near := fun h => ⟨h.1, rfl⟩
      past := id
      excused := id
      put_near := fun _ h => ⟨h.1, rfl⟩
      put_past := id
      giveUp_near := fun _ h => ⟨h.1, rfl⟩
      giveUp_past := id }
  exact fun r => hlifts.alikeFrom (hx _)

/-- A loop is alike if its rounds are, and all of them but the last read something. -/
theorem iterate {step : σ → ReadM (σ ⊕ α)} (hmoves : ∀ s, ReadM.RoundProgresses (step s))
    (hstep : ∀ s, p.readers.Alike (step s)) (s : σ) :
    p.readers.Alike (ReadM.iterate step s) := by
  intro r
  fun_induction ReadM.iterate step s r with
  | case1 s r e r' hs =>
    obtain ⟨hnear, hpast⟩ := hstep s r
    have heq : ReadM.iterate step s r = .error e r' := ReadM.iterate_of_error hs
    rw [hs] at hnear hpast
    refine ⟨fun r₂ h => ?_, fun h => heq ▸ hpast h⟩
    rw [heq]
    apply (hnear r₂ h).of_error id id
    intro e' r₂' hs' h'
    rw [ReadM.iterate_of_error hs']
    exact ⟨r₂', rfl, h'⟩
  | case2 s r a r' hs =>
    obtain ⟨hnear, hpast⟩ := hstep s r
    have heq : ReadM.iterate step s r = .ok a r' := ReadM.iterate_of_done hs
    rw [hs] at hnear hpast
    refine ⟨fun r₂ h => ?_, fun h => heq ▸ hpast h⟩
    rw [heq]
    rcases (hnear r₂ h).of_ok with hpast | ⟨r₂', hs', h'⟩
    · exact .past hpast
    · rw [ReadM.iterate_of_done hs']
      exact .ok h'
  | case3 s r s' r' hs hlt ih =>
    obtain ⟨hnear, hpast⟩ := hstep s r
    rw [hs] at hnear hpast
    constructor
    · intro r₂ h
      rw [ReadM.iterate_of_next hs hlt]
      rcases (hnear r₂ h).of_ok with hpast | ⟨r₂', hs', h'⟩
      · exact .past (ih.past hpast)
      · rw [ReadM.iterate_of_next hs' (hmoves s hs')]
        exact ih.near r₂' h'
    · intro h
      rw [ReadM.iterate_of_next hs hlt]
      exact ih.past (hpast h)
  | case4 s r s' r' hs hlt => exact absurd (hmoves s hs) hlt

end Pairing

end ReservoirDeck
