import Mathlib.Algebra.Field.Rat
import Mathlib.Data.List.Forall2
import ReservoirDeck.Deck.Basic
import ReservoirDeck.Proofs.Conversion.Images

/-!
Passes in deck order. A pass stops at the first keyword that cannot be converted. What it converted
before stays so, the rest is as it was, and no later pass gets any further.
-/

namespace ReservoirDeck

open Change

variable {R : Type} [Mul R] [Div R] (m : Multipliers R)

/-- What a pass that came by made of an entry. -/
inductive Entry.Passes : Entry R → Entry R → Prop
  | kept {e : Entry R} {n : Multipliers R} (h : e.converted = some n) : Passes e e
  | converted {k l : Keyword R} (h : k.convert m = .ok l) : Passes (.ofKeyword k) ⟨l, some m⟩

namespace Entry

/-- What a conversion leaves of an entry, and what stops it. -/
inductive Converts : Entry R → Entry R → Option (Fault DeckError) → Prop
  | passed {e e' : Entry R} (h : Passes m e e') : Converts e e' none
  | refused {k : Keyword R} {error : DeckError}
      (h : ∀ n, k.convertInPlace n = (k, some (.error error))) :
      Converts (.ofKeyword k) (.ofKeyword k) (some (.error error))
  | panicked {k : Keyword R} (l : Keyword R) (h : ¬ k.IsWhole) :
      Converts (.ofKeyword k) (.ofKeyword l) (some .panic)

variable {m} in
theorem convert_of_converted {e : Entry R} {n : Multipliers R} (h : e.converted = some n) :
    e.convert m = (e, none) := by
  simp [convert, h]

theorem converts (e : Entry R) : Converts m e (e.convert m).1 (e.convert m).2 := by
  obtain ⟨k, converted⟩ := e
  cases converted with
  | some n =>
    rw [convert_of_converted rfl]
    exact .passed (.kept rfl)
  | none =>
    change Converts m (.ofKeyword k) ((ofKeyword k).convert m).1 ((ofKeyword k).convert m).2
    by_cases hwhole : k.IsWhole
    · by_cases hknown : k.IsKnown
      · have hconvert : (ofKeyword k).convert m = (⟨k.image m, some m⟩, none) := by
          simp [convert, ofKeyword, Keyword.convertInPlace_of_known m hwhole hknown]
        rw [hconvert]
        exact .passed (.converted ((Keyword.convert_eq_ok m).mpr ⟨⟨hwhole, hknown⟩, rfl⟩))
      · obtain ⟨error, herror⟩ := Keyword.convertInPlace_of_not_known hknown
        have hconvert : (ofKeyword k).convert m = (ofKeyword k, some (.error error)) := by
          simp [convert, ofKeyword, herror m]
        rw [hconvert]
        exact .refused herror
    · have hpanic := Keyword.convertInPlace_of_not_whole m hwhole
      cases hout : k.convertInPlace m with
      | mk l fault =>
        rw [hout] at hpanic
        obtain rfl : fault = some .panic := hpanic
        have hconvert : (ofKeyword k).convert m = (ofKeyword l, some .panic) := by
          simp [convert, ofKeyword, hout]
        rw [hconvert]
        exact .panicked l hwhole

variable {m}

/-- Whoever passed an entry has left it converted, by this pass or by one before. -/
theorem Passes.exists_converted {e e' : Entry R} (h : Passes m e e') :
    ∃ n, e'.converted = some n := by
  cases h with
  | kept h => exact ⟨_, h⟩
  | converted => exact ⟨m, rfl⟩

theorem passes_of_convert {e : Entry R} (h : (e.convert m).2 = none) :
    Passes m e (e.convert m).1 := by
  have hconverts := e.converts m
  cases hout : e.convert m with
  | mk e' fault =>
    rw [hout] at h hconverts
    obtain rfl : fault = none := h
    cases hconverts with
    | passed hpass => exact hpass

/-- An entry that stops a pass with an error is as it was, and stops every pass. -/
theorem stops_of_convert {e : Entry R} {error : DeckError}
    (h : (e.convert m).2 = some (.error error)) : (e.convert m).1 = e ∧ e.converted = none ∧
      ∀ n, e.keyword.convertInPlace n = (e.keyword, some (.error error)) := by
  have hconverts := e.converts m
  cases hout : e.convert m with
  | mk e' fault =>
    rw [hout] at h hconverts
    obtain rfl : fault = some (.error error) := h
    cases hconverts with
    | refused hrefused => exact ⟨rfl, rfl, hrefused⟩

end Entry

namespace Deck

/-- A pass that stopped with an error: it came up to an entry that no pass can convert, and that a
conversion leaves as it is. -/
inductive Stopped (error : DeckError) : List (Entry R) → List (Entry R) → Prop
  | intro {before done : List (Entry R)} {bad : Entry R} (after : List (Entry R))
      (passed : List.Forall₂ (Entry.Passes m) before done) (unconverted : bad.converted = none)
      (fails : ∀ n, bad.keyword.convertInPlace n = (bad.keyword, some (.error error))) :
      Stopped error (before ++ bad :: after) (done ++ bad :: after)

def passes (ms : List (Multipliers R)) (d : Deck R) : Deck R :=
  ms.foldl (fun d m => (d.convertWith m).1) d

variable {m}

theorem passes_map {entries : List (Entry R)} (h : ∀ e ∈ entries, (e.convert m).2 = none) :
    List.Forall₂ (Entry.Passes m) entries (entries.map fun e => (e.convert m).1) := by
  rw [List.forall₂_map_right_iff, List.forall₂_same]
  exact fun e he => Entry.passes_of_convert (h e he)

theorem stopped_of_each {entries out : List (Entry R)} {error : DeckError}
    (h : each (Entry.convert m) entries = (out, some (.error error))) :
    Stopped m error entries out := by
  obtain ⟨before, bad, after, rfl, hbefore, hbad, heach⟩ :=
    each_of_some (f := Entry.convert m) (by rw [h])
  obtain ⟨hkept, hunconverted, hfails⟩ := Entry.stops_of_convert hbad
  obtain rfl := congrArg Prod.fst (h.symm.trans heach)
  rw [hkept]
  exact .intro after (passes_map hbefore) hunconverted hfails

theorem passes_of_each {entries out : List (Entry R)}
    (h : each (Entry.convert m) entries = (out, none)) :
    List.Forall₂ (Entry.Passes m) entries out := by
  have hnone : ∀ e ∈ entries, (e.convert m).2 = none := fault_each_eq_none.mp (by rw [h])
  obtain rfl := congrArg Prod.fst (h.symm.trans (each_of_none hnone))
  exact passes_map hnone

theorem converted_of_passed {entries done : List (Entry R)}
    (passed : List.Forall₂ (Entry.Passes m) entries done) :
    ∀ e ∈ done, ∃ n, e.converted = some n := by
  induction passed with
  | nil => simp
  | cons hpass _ ih => exact List.forall_mem_cons.mpr ⟨hpass.exists_converted, ih⟩

theorem each_converted (n : Multipliers R) {done : List (Entry R)}
    (hdone : ∀ e ∈ done, ∃ p, e.converted = some p) (rest : List (Entry R)) :
    each (Entry.convert n) (done ++ rest) =
      (done ++ (each (Entry.convert n) rest).1, (each (Entry.convert n) rest).2) := by
  have hkept : ∀ e ∈ done, e.convert n = (e, none) := by
    intro e he
    obtain ⟨p, hp⟩ := hdone e he
    exact Entry.convert_of_converted hp
  have hmap : (done.map fun e => (e.convert n).1) = done :=
    (List.map_congr_left fun e he => congrArg Prod.fst (hkept e he)).trans (List.map_id' done)
  rw [each_append (fun e he => congrArg Prod.snd (hkept e he)), hmap]

/-- A pass over what another left behind stops at the same entry, and changes nothing, also when
entries were added. -/
theorem Stopped.each_eq {error : DeckError} {entries out : List (Entry R)}
    (h : Stopped m error entries out) (n : Multipliers R) (more : List (Entry R)) :
    each (Entry.convert n) (out ++ more) = (out ++ more, some (.error error)) := by
  cases h with
  | @intro before done bad after passed unconverted fails =>
    -- What the first pass converted is passed over, up to the entry that stopped it.
    have hbad : bad.convert n = (bad, some (.error error)) := by
      obtain ⟨k, converted⟩ := bad
      obtain rfl : converted = none := unconverted
      simp [Entry.convert, fails n]
    rw [List.append_assoc, each_converted n (converted_of_passed passed)]
    simp [each, hbad]

theorem convertWith_eq_iff (n : Multipliers R) {d d' : Deck R} {fault : Option (Fault DeckError)} :
    d.convertWith n = (d', fault) ↔
      each (Entry.convert n) d.entries = (d'.entries, fault) ∧ d'.units = d.units := by
  obtain ⟨units, entries⟩ := d
  obtain ⟨units', entries'⟩ := d'
  simp only [convertWith, Prod.ext_iff, mk.injEq]
  constructor
  · rintro ⟨⟨hunits, hentries⟩, hfault⟩
    exact ⟨⟨hentries, hfault⟩, hunits.symm⟩
  · rintro ⟨⟨hentries, hfault⟩, hunits⟩
    exact ⟨⟨hunits.symm, hentries⟩, hfault⟩

theorem passes_of_fixed {d : Deck R} {fault : Option (Fault DeckError)}
    (h : ∀ n, d.convertWith n = (d, fault)) (ms : List (Multipliers R)) : d.passes ms = d := by
  induction ms with
  | nil => rfl
  | cons m ms ih =>
    change ((d.convertWith m).1).passes ms = d
    rw [h m, ih]

variable (m)

/-- A pass that fails has converted what came before the first keyword that it could not convert,
and nothing else. Later passes fail with the same error and change nothing, also after more was
pushed. A pass that does not fail leaves nothing for later ones. -/
theorem convertWith_exact (d d' : Deck R) :
    (∀ error, d.convertWith m = (d', some (.error error)) →
      Stopped m error d.entries d'.entries ∧ d'.units = d.units ∧ (∀ ms, d'.passes ms = d') ∧
        ∀ n (d'' : Deck R), d'.entries <+: d''.entries →
          d''.convertWith n = (d'', some (.error error))) ∧
    (d.convertWith m = (d', none) →
      List.Forall₂ (Entry.Passes m) d.entries d'.entries ∧ d'.units = d.units ∧
        (∀ e ∈ d'.entries, ∃ n, e.converted = some n) ∧ (∀ ms, d'.passes ms = d') ∧
        ∀ n, d'.convertWith n = (d', none)) := by
  constructor
  · intro error h
    obtain ⟨hentries, hunits⟩ := (convertWith_eq_iff m).mp h
    have hstopped := stopped_of_each hentries
    have hlater : ∀ n (d'' : Deck R), d'.entries <+: d''.entries →
        d''.convertWith n = (d'', some (.error error)) := by
      intro n d'' hprefix
      obtain ⟨more, hmore⟩ := hprefix
      apply (convertWith_eq_iff n).mpr
      rw [← hmore]
      exact ⟨hstopped.each_eq n more, rfl⟩
    exact ⟨hstopped, hunits, passes_of_fixed fun n => hlater n d' (List.prefix_refl _), hlater⟩
  · intro h
    obtain ⟨hentries, hunits⟩ := (convertWith_eq_iff m).mp h
    have hpassed := passes_of_each hentries
    have hconverted := converted_of_passed hpassed
    have hlater : ∀ n, d'.convertWith n = (d', none) := by
      intro n
      have hpass := each_converted n hconverted []
      rw [List.append_nil] at hpass
      apply (convertWith_eq_iff n).mpr
      exact ⟨by simpa [each] using hpass, rfl⟩
    exact ⟨hpassed, hunits, hconverted, passes_of_fixed hlater, hlater⟩

/-- The first time step was converted before, the second is converted by the pass, and the third
comes after a list of well targets. The control of its second target is not known, so that its first
target is not converted either. -/
theorem convertWith_exact_weltarg :
    let m : Multipliers ℚ := ⟨fun _ => 5⟩
    let targets : Keyword ℚ := .typed .weltarg
      [("P1", .cons "BHP" (.cons (.cons (.given 4) .nil) .nil)),
        ("P2", .cons "XRAT" (.cons (.cons (.given 4) .nil) .nil))]
    let error := (DeckError.ofCause (.unsupported (.control "XRAT" "P2"))).inKeyword "WELTARG"
    let d : Deck ℚ := ⟨.metric, [⟨.typed .tstep [1], some .identity⟩, .ofKeyword (.typed .tstep [2]),
      .ofKeyword targets, .ofKeyword (.typed .tstep [3])]⟩
    let d' : Deck ℚ := ⟨.metric, [⟨.typed .tstep [1], some .identity⟩,
      ⟨.typed .tstep [2 * 5], some m⟩, .ofKeyword targets, .ofKeyword (.typed .tstep [3])]⟩
    let good : Deck ℚ := ⟨.metric, [.ofKeyword (.typed .tstep [2])]⟩
    let good' : Deck ℚ := ⟨.metric, [⟨.typed .tstep [2 * 5], some m⟩]⟩
    d.convertWith m = (d', some (.error error)) ∧
      d'.convertWith .identity = (d', some (.error error)) ∧
      good.convertWith m = (good', none) ∧ good'.convertWith .identity = (good', none) := by
  intro m targets error d d' good good'
  have hd : d.convertWith m = (d', some (.error error)) := rfl
  have hgood : good.convertWith m = (good', none) := rfl
  obtain ⟨-, -, -, hlater⟩ := (convertWith_exact m d d').1 error hd
  obtain ⟨-, -, -, -, hlater'⟩ := (convertWith_exact m good good').2 hgood
  exact ⟨hd, hlater .identity d' (List.prefix_refl _), hgood, hlater' .identity⟩

end Deck

end ReservoirDeck
