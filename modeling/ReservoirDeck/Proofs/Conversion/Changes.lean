import Mathlib.Data.List.Basic
import ReservoirDeck.Change

/-!
Changes entry by entry. A change of a list stops where the first change of an entry does. What comes
before that entry is changed, and what comes after it is as it was.
-/

namespace ReservoirDeck.Change

variable {ε α : Type} {f : Change ε α}

theorem each_append {before : List α} (h : ∀ a ∈ before, (f a).2 = none) (rest : List α) :
    each f (before ++ rest) =
      (before.map (fun a => (f a).1) ++ (each f rest).1, (each f rest).2) := by
  induction before with
  | nil => rfl
  | cons a before ih =>
    obtain ⟨ha, hbefore⟩ := List.forall_mem_cons.mp h
    have hfa : f a = ((f a).1, none) := Prod.ext rfl ha
    rw [List.cons_append, each, hfa, ih hbefore]
    rfl

theorem each_of_none {as : List α} (h : ∀ a ∈ as, (f a).2 = none) :
    each f as = (as.map fun a => (f a).1, none) := by
  simpa [each] using each_append h []

/-- The first entry whose change is stopped stops the change of the list. -/
theorem fault_each (as : List α) : (each f as).2 = as.findSome? fun a => (f a).2 := by
  induction as with
  | nil => rfl
  | cons a as ih =>
    rw [each, List.findSome?_cons]
    split
    · next a' hfa => rw [hfa, ← ih]
    · next a' fault hfa => rw [hfa]

theorem fault_each_eq_none {as : List α} :
    (each f as).2 = none ↔ ∀ a ∈ as, (f a).2 = none := by
  rw [fault_each, List.findSome?_eq_none_iff]

theorem each_of_some {as : List α} {fault : Fault ε} (h : (each f as).2 = some fault) :
    ∃ before a after, as = before ++ a :: after ∧ (∀ b ∈ before, (f b).2 = none) ∧
      (f a).2 = some fault ∧
      each f as = (before.map (fun b => (f b).1) ++ (f a).1 :: after, some fault) := by
  rw [fault_each] at h
  obtain ⟨before, a, after, rfl, ha, hbefore⟩ := List.findSome?_eq_some_iff.mp h
  have hfa : f a = ((f a).1, some fault) := Prod.ext rfl ha
  refine ⟨before, a, after, rfl, hbefore, ha, ?_⟩
  rw [each_append hbefore, each, hfa]

theorem result_eq_ok {outcome : α × Option (Fault ε)} {a : α} :
    result outcome = .ok a ↔ outcome = (a, none) := by
  obtain ⟨a', _ | fault⟩ := outcome <;> simp [result]

/-- Where `p` holds the change makes `g` of a value, and elsewhere it panics. -/
structure Guarded (p : α → Prop) (g : α → α) (f : Change ε α) : Prop where
  done : ∀ a, p a → f a = (g a, none)
  panics : ∀ a, ¬ p a → (f a).2 = some .panic

namespace Guarded

variable {p q : α → Prop} {g g' : α → α}

theorem fault_eq_none (h : Guarded p g f) {a : α} : (f a).2 = none ↔ p a := by
  constructor
  · intro hnone
    by_contra ha
    rw [h.panics a ha] at hnone
    cases hnone
  · intro ha
    rw [h.done a ha]

theorem atIndex (i : Nat) : Guarded (fun as => i < as.length) (fun as => as.modify i g)
    (Change.atIndex i (Change.always g) : Change ε (List α)) where
  done as h := by
    simp [Change.atIndex, Change.always, List.modify_eq_set_get g h, List.getElem?_eq_getElem h]
  panics as h := by simp [Change.atIndex, List.getElem?_eq_none (Nat.le_of_not_lt h)]

theorem each (h : Guarded p g f) :
    Guarded (fun as => ∀ a ∈ as, p a) (List.map g) (Change.each f) where
  done as has := by
    rw [each_of_none fun a ha => h.fault_eq_none.mpr (has a ha)]
    simp only [Prod.mk.injEq, and_true, List.map_inj_left]
    exact fun a ha => congrArg Prod.fst (h.done a (has a ha))
  panics as has := by
    cases hfault : (Change.each f as).2 with
    | none => exact absurd (fun a ha => h.fault_eq_none.mp (fault_each_eq_none.mp hfault a ha)) has
    | some fault =>
      -- No entry is changed without success but those that panic.
      obtain ⟨before, a, after, -, -, ha, -⟩ := each_of_some hfault
      by_cases hp : p a
      · simp [h.done a hp] at ha
      · rw [← ha, h.panics a hp]

theorem andThen {f' : Change ε α} (h : Guarded p g f) (h' : Guarded q g' f')
    (hkept : ∀ a, q (g a) ↔ q a) :
    Guarded (fun a => p a ∧ q a) (fun a => g' (g a)) (Change.andThen f f') where
  done a ha := by
    rw [Change.andThen, h.done a ha.1]
    exact h'.done _ ((hkept a).mpr ha.2)
  panics a ha := by
    by_cases hp : p a
    · rw [Change.andThen, h.done a hp]
      exact h'.panics _ (mt (hkept a).mp fun hq => ha ⟨hp, hq⟩)
    · have hfa : f a = ((f a).1, some .panic) := Prod.ext rfl (h.panics a hp)
      rw [Change.andThen, hfa]

end Guarded

end ReservoirDeck.Change
