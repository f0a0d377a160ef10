import Mathlib.Tactic.Common
import ReservoirDeck.Record.Reader

/-!
How actions run: what a successful run of each part says, and invariants of the loop over steps.
-/

namespace ReservoirDeck

namespace Run

variable {ε σ α β : Type} {s s' s'' : σ} {a : α} {b : β}

@[simp] theorem pure_eq (a : α) (s : σ) : (pure a : EStateM ε σ α) s = .ok a s := rfl

@[simp] theorem modifyGet_eq (f : σ → α × σ) (s : σ) :
    (modifyGet f : EStateM ε σ α) s = .ok (f s).1 (f s).2 := rfl

theorem bind_of_ok {x : EStateM ε σ α} (f : α → EStateM ε σ β) (h : x s = .ok a s') :
    (x >>= f) s = f a s' := by
  change EStateM.bind x f s = _
  simp only [EStateM.bind, h]

theorem bind_of_error {e : ε} (f : α → EStateM ε σ β) (h : x s = .error e s') :
    (x >>= f) s = .error e s' := by
  change EStateM.bind x f s = _
  simp only [EStateM.bind, h]

theorem bind_of_eq {x y : EStateM ε σ α} (f : α → EStateM ε σ β) (h : x s = y s') :
    (x >>= f) s = (y >>= f) s' := by
  change EStateM.bind x f s = EStateM.bind y f s'
  simp only [EStateM.bind, h]

@[simp] theorem bind_pure_eq (f : α → EStateM ε σ β) : ((pure a : EStateM ε σ α) >>= f) s = f a s :=
  rfl

@[simp] theorem bind_get_eq (f : σ → EStateM ε σ β) : ((get : EStateM ε σ σ) >>= f) s = f s s :=
  rfl

@[simp] theorem bind_modify_eq (g : σ → σ) (f : PUnit → EStateM ε σ β) :
    ((modify g : EStateM ε σ PUnit) >>= f) s = f ⟨⟩ (g s) := rfl

@[simp] theorem bind_modifyGet_eq (g : σ → α × σ) (f : α → EStateM ε σ β) :
    ((modifyGet g : EStateM ε σ α) >>= f) s = f (g s).1 (g s).2 := rfl

theorem bind_eq_ok {x : EStateM ε σ α} {f : α → EStateM ε σ β} :
    (x >>= f) s = .ok b s'' ↔ ∃ a s', x s = .ok a s' ∧ f a s' = .ok b s'' := by
  change EStateM.bind x f s = _ ↔ _
  constructor
  · intro h
    simp only [EStateM.bind] at h
    split at h
    · next a s' hx => exact ⟨a, s', hx, h⟩
    · cases h
  · rintro ⟨a, s', hx, hf⟩
    simp only [EStateM.bind, hx, hf]

theorem map_eq_ok {x : EStateM ε σ α} {f : α → β} :
    (f <$> x) s = .ok b s' ↔ ∃ a, x s = .ok a s' ∧ f a = b := by
  change EStateM.map f x s = _ ↔ _
  simp only [EStateM.map]
  cases x s <;> simp [and_comm]

theorem map_of_ok {x : EStateM ε σ α} (f : α → β) (h : x s = .ok a s') :
    (f <$> x) s = .ok (f a) s' := by
  change EStateM.map f x s = _
  simp only [EStateM.map, h]

theorem map_of_error {x : EStateM ε σ α} {e : ε} (f : α → β) (h : x s = .error e s') :
    (f <$> x) s = .error e s' := by
  change EStateM.map f x s = _
  simp only [EStateM.map, h]

theorem map_congr {x y : EStateM ε σ α} (f : α → β) (h : x s = y s') :
    (f <$> x) s = (f <$> y) s' := by
  change EStateM.map f x s = EStateM.map f y s'
  simp only [EStateM.map, h]

theorem map_map_eq {γ : Type} (g : β → γ) (f : α → β) (x : EStateM ε σ α) :
    (g <$> f <$> x) s = ((fun a => g (f a)) <$> x) s := by
  rw [Functor.map_map]

theorem discard_eq_ok {x : EStateM ε σ α} {u : Unit} :
    (discard x) s = .ok u s' ↔ ∃ a, x s = .ok a s' := by
  change (Function.const α PUnit.unit <$> x) s = _ ↔ _
  simp [map_eq_ok]

/-- What a run leaves, successful or not. -/
def state : EStateM.Result ε σ α → σ
  | .ok _ s => s
  | .error _ s => s

theorem state_map (x : EStateM ε σ α) (f : α → β) (s : σ) : state ((f <$> x) s) = state (x s) := by
  cases h : x s with
  | ok a s' => rw [map_of_ok f h, state, state]
  | error e s' => rw [map_of_error f h, state, state]

/-- What a run says: its value, or the cause of its error and the keyword that the error names. -/
def answer : EStateM.Result DeckError σ α → Except (Cause × Option String) α
  | .ok a _ => .ok a
  | .error e _ => .error (e.cause, e.keyword)

theorem exists_of_isOk {x : EStateM.Result DeckError σ α} (h : (answer x).isOk = true) :
    ∃ a s, x = .ok a s := by
  cases x with
  | ok a s => exact ⟨a, s, rfl⟩
  | error e s => cases h

/-- The rounds of a loop: this many go on, and the one after them yields a result or fails. -/
inductive Ends {ι : Type} (step : ι → EStateM ε σ (ι ⊕ α)) :
    (rounds : Nat) → ι → σ → EStateM.Result ε σ α → Prop
  | done {i : ι} {s s' : σ} {a : α} (h : step i s = .ok (.inr a) s') : Ends step 0 i s (.ok a s')
  | failed {i : ι} {s s' : σ} {e : ε} (h : step i s = .error e s') : Ends step 0 i s (.error e s')
  | next {n : Nat} {i i' : ι} {s s' : σ} {result : EStateM.Result ε σ α}
    (h : step i s = .ok (.inl i') s') (hrest : Ends step n i' s' result) :
    Ends step (n + 1) i s result

end Run

namespace ReadM

variable {α β σ : Type} {step : σ → ReadM (σ ⊕ α)}

@[simp] theorem fail_eq (cause : Cause) (r : DeckReader) :
    (fail cause : ReadM α) r = .error (r.error cause) r := rfl

@[simp] theorem malformed_eq (defect : Defect) (r : DeckReader) :
    (malformed defect : ReadM α) r = .error (r.error (.malformed defect)) r := rfl

theorem inKeyword_eq_ok {name : String} {body : ReadM α} {r r' : DeckReader} {a : α} :
    inKeyword name body r = .ok a r' ↔
      ∃ r₁, body { r with keyword := some name } = .ok a r₁ ∧ r' = { r₁ with keyword := none } := by
  unfold inKeyword
  cases body { r with keyword := some name } <;> simp [eq_comm]

/-- What was read leaves no more text than there was. -/
def NonGrowing (x : ReadM α) : Prop :=
  ∀ ⦃r a r'⦄, x r = .ok a r' → r'.remaining ≤ r.remaining

def Progresses (x : ReadM α) : Prop :=
  ∀ ⦃r a r'⦄, x r = .ok a r' → r'.remaining < r.remaining

/-- Something is read in this round of a loop, unless it is the last. -/
def RoundProgresses (x : ReadM (σ ⊕ α)) : Prop :=
  ∀ ⦃r s r'⦄, x r = .ok (.inl s) r' → r'.remaining < r.remaining

theorem NonGrowing.pure (a : α) : NonGrowing (pure a : ReadM α) := by
  intro r a r' h
  cases h
  exact Nat.le_refl _

theorem NonGrowing.fail (cause : Cause) : NonGrowing (fail cause : ReadM α) := by
  intro r a r' h
  cases h

theorem Progresses.round {x : ReadM (σ ⊕ α)} (hx : Progresses x) : RoundProgresses x :=
  fun _ _ _ h => hx h

theorem Progresses.bind {x : ReadM α} {f : α → ReadM β} (hx : Progresses x)
    (hf : ∀ a, NonGrowing (f a)) : Progresses (x >>= f) := by
  intro r b r'' h
  obtain ⟨a, r', hr', hr''⟩ := Run.bind_eq_ok.mp h
  have := hx hr'
  have := hf a hr''
  omega

theorem Progresses.map {x : ReadM α} (hx : Progresses x) (f : α → β) : Progresses (f <$> x) := by
  intro r b r' h
  obtain ⟨a, hr', -⟩ := Run.map_eq_ok.mp h
  exact hx hr'

theorem iterate_of_next {s s' : σ} {r r' : DeckReader} (h : step s r = .ok (.inl s') r')
    (hlt : r'.remaining < r.remaining) : iterate step s r = iterate step s' r' := by
  rw [iterate.eq_def, h]
  exact if_pos hlt

theorem iterate_of_done {s : σ} {r r' : DeckReader} {a : α} (h : step s r = .ok (.inr a) r') :
    iterate step s r = .ok a r' := by
  rw [iterate.eq_def, h]

theorem iterate_of_error {s : σ} {r r' : DeckReader} {e : DeckError} (h : step s r = .error e r') :
    iterate step s r = .error e r' := by
  rw [iterate.eq_def, h]

/-- The loop is what its rounds make it, since none but the last reads nothing. -/
theorem eq_iterate {x : σ → ReadM α} (hstep : ∀ s, x s = step s >>= Sum.elim x pure)
    (hmoves : ∀ s, RoundProgresses (step s)) (s : σ) : x s = iterate step s := by
  funext r
  fun_induction iterate step s r with
  | case1 s r e r' h =>
    rw [hstep]
    exact Run.bind_of_error _ h
  | case2 s r a r' h =>
    rw [hstep]
    exact Run.bind_of_ok _ h
  | case3 s r s' r' h hlt ih =>
    rw [hstep, Run.bind_of_ok _ h]
    exact ih
  | case4 s r s' r' h hlt => exact absurd (hmoves s h) hlt

/-- A loop whose rounds all read something never meets the end that is kept for one that reads nothing. -/
theorem iterate_eq (hmoves : ∀ s, RoundProgresses (step s)) (s : σ) :
    iterate step s = step s >>= Sum.elim (iterate step) pure := by
  funext r
  rw [iterate.eq_def]
  cases h : step s r with
  | error e r' => exact (Run.bind_of_error _ h).symm
  | ok next r' =>
    rw [Run.bind_of_ok _ h]
    cases next with
    | inr a => rfl
    | inl s' => exact if_pos (hmoves s h)

theorem iterate_ends (hmoves : ∀ s, RoundProgresses (step s)) (s : σ) (r : DeckReader) :
    ∃ n ≤ r.remaining, Run.Ends step n s r (iterate step s r) := by
  fun_induction iterate step s r with
  | case1 s r e r' h => exact ⟨0, Nat.zero_le _, .failed h⟩
  | case2 s r a r' h => exact ⟨0, Nat.zero_le _, .done h⟩
  | case3 s r s' r' h hlt ih =>
    obtain ⟨n, hn, hrest⟩ := ih
    exact ⟨n + 1, by omega, .next h hrest⟩
  | case4 s r s' r' h hlt => exact absurd (hmoves s h) hlt

/-- What holds at the start and after every round holds when the loop is left. -/
theorem iterate_invariant {I : σ → DeckReader → Prop} {Q : α → DeckReader → Prop}
    (next : ∀ s r s' r', I s r → step s r = .ok (.inl s') r' → I s' r')
    (done : ∀ s r a r', I s r → step s r = .ok (.inr a) r' → Q a r') {s : σ} {r r' : DeckReader}
    {a : α} (hs : I s r) (h : iterate step s r = .ok a r') : Q a r' := by
  fun_induction iterate step s r with
  | case1 => cases h
  | case2 s r _ _ hstep =>
    cases h
    exact done s r a r' hs hstep
  | case3 s r s' r₁ hstep hlt ih => exact ih (next s r s' r₁ hs hstep) h
  | case4 => cases h

end ReadM

end ReservoirDeck
