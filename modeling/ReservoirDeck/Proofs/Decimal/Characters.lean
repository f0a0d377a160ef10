import Mathlib.Data.List.TakeWhile
import Mathlib.Data.Option.Basic
import ReservoirDeck.Item

/-!
The characters of texts that are items. None of those of a number is a quote or a line break, and a text
of more than a number splits at the first star.
-/

namespace ReservoirDeck

/-- The characters that a number may be read from. -/
def isRealChar (c : Char) : Bool :=
  c.isDigit || c ∈ ['-', '+', '.', 'e', 'E', 'd', 'D']

variable {cs : List Char}

theorem isRealChar_of_isDigit {c : Char} (h : c.isDigit = true) : isRealChar c = true := by
  simp [isRealChar, h]

theorem all_of_splitSign (h : (splitSign cs).2.all isRealChar = true) : cs.all isRealChar = true := by
  unfold splitSign at h
  split at h
  · simpa [isRealChar] using h
  · simpa [isRealChar] using h
  · exact h

theorem all_of_naturalOfChars? {n : Nat} (h : naturalOfChars? cs = some n) :
    cs.all isRealChar = true := by
  rw [naturalOfChars?] at h
  split at h
  · next hcs =>
    exact List.all_eq_true.mpr fun c hc => isRealChar_of_isDigit (List.all_eq_true.mp hcs.2 c hc)
  · cases h

theorem all_of_integerOfChars? {n : Int} (h : integerOfChars? cs = some n) :
    cs.all isRealChar = true := by
  apply all_of_splitSign
  cases hn : naturalOfChars? (splitSign cs).2 with
  | none => simp [integerOfChars?, hn] at h
  | some m => exact all_of_naturalOfChars? hn

theorem all_of_exponentOfChars? {n : Int} (h : Decimal.exponentOfChars? cs = some n) :
    cs.all isRealChar = true := by
  cases cs with
  | nil => rfl
  | cons mark cs =>
    rw [Decimal.exponentOfChars?] at h
    split at h
    · next hmark =>
      have hreal : isRealChar mark = true := by
        simp only [List.mem_cons, List.not_mem_nil, or_false] at hmark
        rcases hmark with rfl | rfl | rfl | rfl <;> rfl
      rw [List.all_cons, hreal, all_of_integerOfChars? h]
      rfl
    · cases h

theorem all_takeWhile_isDigit (cs : List Char) : (cs.takeWhile Char.isDigit).all isRealChar = true :=
  List.all_eq_true.mpr fun _ hc => isRealChar_of_isDigit (List.all_eq_true.mp List.all_takeWhile _ hc)

theorem all_of_ofChars? {d : Decimal} (h : Decimal.ofChars? cs = some d) :
    cs.all isRealChar = true := by
  rw [← List.takeWhile_append_dropWhile (p := Char.isDigit) (l := cs), List.all_append,
    all_takeWhile_isDigit]
  simp only [Decimal.ofChars?, Option.bind_eq_bind, Option.bind_eq_some_iff] at h
  obtain ⟨-, -, e, he, -⟩ := h
  split at he
  · next after hrest =>
    have htail := all_of_exponentOfChars? he
    rw [hrest, List.all_cons, ← List.takeWhile_append_dropWhile (p := Char.isDigit) (l := after),
      List.all_append, all_takeWhile_isDigit, htail]
    rfl
  · exact all_of_exponentOfChars? he

theorem all_of_realOfText? {s : String} {x : Float} (h : realOfText? s = some x) :
    s.toList.all isRealChar = true := by
  apply all_of_splitSign
  simp only [realOfText?, Option.map_eq_some_iff] at h
  obtain ⟨d, hd, -⟩ := h
  exact all_of_ofChars? hd

theorem splitStar_eq_some {s : String} {before after : List Char} :
    splitStar s = some (before, after) ↔ s.toList = before ++ '*' :: after ∧ '*' ∉ before := by
  constructor
  · intro h
    have hsplit := List.takeWhile_append_dropWhile (p := (· ≠ '*')) (l := s.toList)
    have hstop := List.head?_dropWhile_not (· ≠ '*') s.toList
    have hdrop := (congrArg (List.drop (s.toList.takeWhile (· ≠ '*')).length) hsplit).symm.trans
      List.drop_left
    unfold splitStar at h
    dsimp only at h
    rw [hdrop] at h
    cases hrest : s.toList.dropWhile (· ≠ '*') with
    | nil =>
      rw [hrest] at h
      cases h
    | cons c cs =>
      rw [hrest] at h hstop hsplit
      cases h
      obtain rfl : c = '*' := by simpa using hstop
      refine ⟨hsplit.symm, fun hmem => ?_⟩
      simpa using List.all_eq_true.mp List.all_takeWhile _ hmem
  · rintro ⟨hs, hbefore⟩
    have htake : s.toList.takeWhile (· ≠ '*') = before := by
      rw [hs, List.takeWhile_append_of_pos fun c hc => by
        simpa using ne_of_mem_of_not_mem hc hbefore]
      simp
    rw [splitStar, htake, hs, List.drop_left]

theorem splitStar_eq_none {s : String} : splitStar s = none ↔ '*' ∉ s.toList := by
  constructor
  · intro h hstar
    obtain ⟨before, after, hs, hbefore⟩ := List.eq_append_cons_of_mem hstar
    cases h.symm.trans (splitStar_eq_some.mpr ⟨hs, hbefore⟩)
  · intro hstar
    have htake : s.toList.takeWhile (· ≠ '*') = s.toList :=
      List.takeWhile_eq_self_iff.mpr fun c hc => by simpa using ne_of_mem_of_not_mem hc hstar
    simp only [splitStar, htake, List.drop_length]

end ReservoirDeck
