import Mathlib.Data.List.Induction
import ReservoirDeck.Keyword.Gregorian
import ReservoirDeck.Proofs.Conversion.Passes
import ReservoirDeck.Proofs.Conversion.Whole

/-!
Runs of a deck: keywords are pushed and conversion passes are made in any sequence. A pass visits
entries in any order and may leave some out. Whatever the run, an entry is converted at most once,
by the first pass that can convert it, and keeps the result.
-/

namespace ReservoirDeck

open Change

namespace Entry

variable {R : Type} [Mul R] [Div R] (m : Multipliers R)

def visited (e : Entry R) : Entry R :=
  (e.convert m).1

def Panics (e : Entry R) : Prop :=
  (e.convert m).2 = some .panic

theorem visited_of_converted {e : Entry R} {n : Multipliers R} (h : e.converted = some n) :
    e.visited m = e := by
  rw [visited, convert_of_converted h]

theorem visited_cases {e : Entry R} (h : ¬ e.Panics m) : e.visited m = e ∨
    ∃ k l, e = ofKeyword k ∧ k.convert m = .ok l ∧ e.visited m = ⟨l, some m⟩ := by
  have hconverts := e.converts m
  rw [visited]
  rw [Panics] at h
  generalize (e.convert m).2 = fault at h hconverts
  generalize (e.convert m).1 = e' at hconverts
  cases hconverts with
  | passed hpass =>
    cases hpass with
    | kept => exact Or.inl rfl
    | converted hconvert => exact Or.inr ⟨_, _, rfl, hconvert, rfl⟩
  | refused => exact Or.inl rfl
  | panicked => exact absurd rfl h

theorem visited_visited {e : Entry R} (h : ¬ e.Panics m) :
    (e.visited m).visited m = e.visited m := by
  rcases visited_cases m h with hv | ⟨k, l, -, -, hv⟩
  · rw [hv, hv]
  · rw [hv, visited_of_converted m rfl]

theorem not_panics_visited {e : Entry R} (h : ¬ e.Panics m) : ¬ (e.visited m).Panics m := by
  rcases visited_cases m h with hv | ⟨k, l, -, -, hv⟩
  · rwa [hv]
  · rw [hv, Panics, convert_of_converted rfl]
    exact nofun

theorem not_panics_of_isWhole {e : Entry R} (h : e.keyword.IsWhole) : ¬ e.Panics m := by
  intro hpanics
  have hconverts := e.converts m
  rw [hpanics] at hconverts
  generalize (e.convert m).1 = e' at hconverts
  cases hconverts with
  | panicked l hwhole => exact hwhole h

theorem isWhole_visited {e : Entry R} (h : e.keyword.IsWhole) : (e.visited m).keyword.IsWhole := by
  rcases visited_cases m (not_panics_of_isWhole m h) with hv | ⟨k, l, rfl, hconvert, hv⟩
  · rwa [hv]
  · obtain ⟨-, rfl⟩ := (Keyword.convert_eq_ok m).mp hconvert
    rw [hv]
    exact (k.isWhole_image m).mpr h

end Entry

namespace Deck

section Pass

variable {R : Type} [Mul R] [Div R] (m : Multipliers R)

/-- The entries after a pass that visited these indices, in this order. -/
def passEntries (order : List Nat) (entries : List (Entry R)) : List (Entry R) :=
  order.foldl (fun entries i => entries.modify i (Entry.visited m)) entries

def pass (order : List Nat) (d : Deck R) : Deck R :=
  { d with entries := passEntries m order d.entries }

@[simp] theorem length_passEntries (order : List Nat) (entries : List (Entry R)) :
    (passEntries m order entries).length = entries.length := by
  induction order generalizing entries with
  | nil => rfl
  | cons i order ih => exact (ih _).trans (List.length_modify ..)

/-- Visits of other entries do not matter, nor does their order or number. -/
theorem getElem?_passEntries (order : List Nat) (entries : List (Entry R)) (i : Nat)
    (h : i ∈ order → ∀ e, entries[i]? = some e → ¬ e.Panics m) :
    (passEntries m order entries)[i]? =
      if i ∈ order then entries[i]?.map (Entry.visited m) else entries[i]? := by
  induction order generalizing entries with
  | nil => simp [passEntries]
  | cons j order ih =>
    change (passEntries m order (entries.modify j (Entry.visited m)))[i]? = _
    by_cases hj : i = j
    · subst hj
      have hvisited : (entries.modify i (Entry.visited m))[i]? = entries[i]?.map (Entry.visited m) := by
        simp
      rw [ih, hvisited, if_pos List.mem_cons_self]
      · cases he : entries[i]? with
        | none => simp
        | some e => simp [Entry.visited_visited m (h List.mem_cons_self e he)]
      · intro _ e hmap
        rw [hvisited] at hmap
        obtain ⟨e, he, rfl⟩ := Option.map_eq_some_iff.mp hmap
        exact Entry.not_panics_visited m (h List.mem_cons_self e he)
    · have hkept : (entries.modify j (Entry.visited m))[i]? = entries[i]? :=
        List.getElem?_modify_ne _ _ (Ne.symm hj)
      rw [ih, hkept]
      · simp [hj]
      · intro hi e he
        exact h (List.mem_cons_of_mem j hi) e (hkept ▸ he)

theorem forall_passEntries {P : Entry R → Prop} (hP : ∀ e, P e → P (e.visited m))
    (order : List Nat) {entries : List (Entry R)} (h : ∀ e ∈ entries, P e) :
    ∀ e ∈ passEntries m order entries, P e := by
  induction order generalizing entries with
  | nil => exact h
  | cons i order ih =>
    refine ih fun e he => ?_
    obtain ⟨j, hj⟩ := List.mem_iff_getElem?.mp he
    rw [List.getElem?_modify] at hj
    obtain ⟨e₀, he₀, rfl⟩ := Option.map_eq_some_iff.mp hj
    have hmem := h e₀ (List.mem_of_getElem? he₀)
    split
    · exact hP e₀ hmem
    · exact hmem

/-- What visits do not change of an entry, a pass does not change of any. -/
theorem map_passEntries {β : Type} {f : Entry R → β} {P : Entry R → Prop}
    (hP : ∀ e, P e → P (e.visited m)) (hf : ∀ e, P e → f (e.visited m) = f e)
    (order : List Nat) {entries : List (Entry R)} (h : ∀ e ∈ entries, P e) :
    (passEntries m order entries).map f = entries.map f := by
  induction order generalizing entries with
  | nil => rfl
  | cons i order ih =>
    refine (ih (forall_passEntries m hP [i] h)).trans (List.ext_getElem? fun j => ?_)
    change ((entries.modify i (Entry.visited m)).map f)[j]? = _
    rw [List.getElem?_map, List.getElem?_map, List.getElem?_modify]
    cases he : entries[j]? with
    | none => rfl
    | some e => by_cases hij : i = j <;> simp [hij, hf e (h e (List.mem_of_getElem? he))]

private theorem passEntries_range'_cons (e : Entry R) (entries : List (Entry R)) (j n : Nat) :
    passEntries m (List.range' (j + 1) n) (e :: entries) =
      e :: passEntries m (List.range' j n) entries := by
  induction n generalizing j entries with
  | zero => rfl
  | succ n ih => exact ih (entries.modify j (Entry.visited m)) (j + 1)

/-- Converting in deck order visits the entries up to the first that stops it. -/
theorem each_eq_passEntries (entries : List (Entry R)) :
    ∃ n, (each (Entry.convert m) entries).1 = passEntries m (List.range' 0 n) entries := by
  induction entries with
  | nil => exact ⟨0, rfl⟩
  | cons e entries ih =>
    cases he : e.convert m with
    | mk e' fault =>
      have hv : e.visited m = e' := congrArg Prod.fst he
      cases fault with
      | some fault => exact ⟨1, by simp [each, he, passEntries, hv]⟩
      | none =>
        obtain ⟨n, hn⟩ := ih
        refine ⟨n + 1, ?_⟩
        calc
          _ = e' :: (each (Entry.convert m) entries).1 := by simp [each, he]
          _ = passEntries m (List.range' (0 + 1) n) (e.visited m :: entries) := by
            rw [hv, hn, passEntries_range'_cons]
          _ = _ := rfl

theorem convertWith_eq_pass (d : Deck R) : ∃ order, (d.convertWith m).1 = d.pass m order := by
  obtain ⟨n, hn⟩ := each_eq_passEntries m d.entries
  exact ⟨List.range' 0 n, by simp [convertWith, pass, hn]⟩

end Pass

inductive Action
  | push (k : Keyword Float)
  /-- A pass with the multipliers of the unit system of the deck. -/
  | convert (order : List Nat)
  | convertWith (m : Multipliers Float) (order : List Nat)

namespace Action

def apply (d : Deck Float) : Action → Deck Float
  | .push k => d.push k
  | .convert order => d.pass d.units.multipliers order
  | .convertWith m order => d.pass m order

def pushed? : Action → Option (Keyword Float)
  | .push k => some k
  | _ => none

/-- The multipliers of a pass over a deck in these units. -/
def multipliers? (units : UnitSystem) : Action → Option (Multipliers Float)
  | .push _ => none
  | .convert _ => some units.multipliers
  | .convertWith m _ => some m

def order : Action → List Nat
  | .push _ => []
  | .convert order => order
  | .convertWith _ order => order

def Returns (d : Deck Float) (a : Action) : Prop :=
  ∀ m, a.multipliers? d.units = some m → ∀ i ∈ a.order, ∀ e, d.entries[i]? = some e → ¬ e.Panics m

end Action

def run (d : Deck Float) (actions : List Action) : Deck Float :=
  actions.foldl Action.apply d

/-- Every call of the run returns. -/
def Returns (d : Deck Float) (actions : List Action) : Prop :=
  ∀ before a, before ++ [a] <+: actions → a.Returns (d.run before)

/-- The keywords that a run has started with or pushed, as they came. -/
def originals (d : Deck Float) (actions : List Action) : List (Keyword Float) :=
  d.keywords ++ actions.filterMap Action.pushed?

/-- One action of the run converted the original of the entry, and no state after it has changed
the entry. -/
def ConvertedOnce (d : Deck Float) (actions : List Action) (i : Nat) (k : Keyword Float)
    (e : Entry Float) : Prop :=
  ∃ before action after m, actions = before ++ action :: after ∧
    action.multipliers? d.units = some m ∧
    (d.run before).entries[i]? = some (.ofKeyword k) ∧
    k.convert m = .ok e.keyword ∧ e.converted = some m ∧
    ∀ later, later <+: after → (d.run (before ++ action :: later)).entries[i]? = some e

/-- Every original has its entry, which holds the original or its one conversion. -/
def Accounted (d : Deck Float) (actions : List Action) : Prop :=
  (d.run actions).entries.length = (d.originals actions).length ∧
    ∀ i k, (d.originals actions)[i]? = some k →
      ∃ e, (d.run actions).entries[i]? = some e ∧
        (e = .ofKeyword k ∨ ConvertedOnce d actions i k e)

variable {d : Deck Float} {actions : List Action}

theorem run_append (as bs : List Action) : d.run (as ++ bs) = (d.run as).run bs :=
  List.foldl_append ..

theorem run_concat (a : Action) : d.run (actions ++ [a]) = a.apply (d.run actions) :=
  run_append actions [a]

@[simp] theorem units_run (d : Deck Float) (actions : List Action) :
    (d.run actions).units = d.units := by
  induction actions generalizing d with
  | nil => rfl
  | cons a actions ih =>
    refine (ih (a.apply d)).trans ?_
    cases a <;> rfl

theorem Action.apply_of_multipliers {a : Action} {m : Multipliers Float}
    (h : a.multipliers? d.units = some m) : a.apply d = d.pass m a.order := by
  cases a with
  | push k => cases h
  | convert order | convertWith n order =>
    cases h
    rfl

theorem returns_concat {a : Action} :
    d.Returns (actions ++ [a]) ↔ d.Returns actions ∧ a.Returns (d.run actions) := by
  constructor
  · intro h
    exact ⟨fun before b hb => h before b (hb.trans (List.prefix_append ..)), h actions a List.prefix_rfl⟩
  · rintro ⟨h, ha⟩ before b hb
    rcases List.prefix_concat_iff.mp hb with hlast | hb
    · obtain ⟨rfl, hba⟩ := List.append_inj' hlast rfl
      obtain rfl := List.singleton_inj.mp hba
      exact ha
    · exact h before b hb

theorem ConvertedOnce.concat {i : Nat} {k : Keyword Float} {e : Entry Float}
    (h : ConvertedOnce d actions i k e) (a : Action)
    (kept : (d.run (actions ++ [a])).entries[i]? = some e) :
    ConvertedOnce d (actions ++ [a]) i k e := by
  obtain ⟨before, action, after, m, rfl, hm, hb, hk, hc, hl⟩ := h
  refine ⟨before, action, after ++ [a], m, by simp, hm, hb, hk, hc, ?_⟩
  intro later hlater
  rcases List.prefix_concat_iff.mp hlater with rfl | hlater
  · simpa using kept
  · exact hl later hlater

/-- Pushing gives the new original an entry, and leaves the others alone. -/
theorem Accounted.push (h : Accounted d actions) (k : Keyword Float) :
    Accounted d (actions ++ [.push k]) := by
  obtain ⟨hlen, hentries⟩ := h
  have hrun : (d.run (actions ++ [.push k])).entries = (d.run actions).entries ++ [.ofKeyword k] := by
    rw [run_concat]
    rfl
  have horig : d.originals (actions ++ [.push k]) = d.originals actions ++ [k] := by
    simp [originals, Action.pushed?]
  refine ⟨by simp [hrun, horig, hlen], ?_⟩
  intro i l hl
  rw [horig] at hl
  by_cases hi : i < (d.originals actions).length
  · rw [List.getElem?_append_left hi] at hl
    obtain ⟨e, he, hcases⟩ := hentries i l hl
    have hkept : (d.run (actions ++ [.push k])).entries[i]? = some e := by
      rw [hrun, List.getElem?_append_left (hlen ▸ hi), he]
    exact ⟨e, hkept, hcases.imp_right (·.concat _ hkept)⟩
  · have hlast := (List.getElem?_eq_some_iff.mp hl).1
    obtain rfl : i = (d.originals actions).length := by
      simp only [List.length_append, List.length_singleton] at hlast
      omega
    obtain rfl : k = l := by simpa using hl
    exact ⟨.ofKeyword k, by simp [hrun, ← hlen], Or.inl rfl⟩

/-- A pass keeps what is converted, and converts an entry that is not if it visits it. -/
theorem Accounted.pass (h : Accounted d actions) {a : Action} {m : Multipliers Float}
    (hm : a.multipliers? d.units = some m) (hreturns : a.Returns (d.run actions)) :
    Accounted d (actions ++ [a]) := by
  obtain ⟨hlen, hentries⟩ := h
  have hm' : a.multipliers? (d.run actions).units = some m := by simpa using hm
  have hrun : (d.run (actions ++ [a])).entries = passEntries m a.order (d.run actions).entries := by
    rw [run_concat, Action.apply_of_multipliers hm']
    rfl
  have horig : d.originals (actions ++ [a]) = d.originals actions := by
    cases a with
    | push k => cases hm
    | convert | convertWith => simp [originals, Action.pushed?]
  refine ⟨by simp [hrun, horig, hlen], ?_⟩
  intro i k hk
  obtain ⟨e, he, hcases⟩ := hentries i k (horig ▸ hk)
  have hentry : (d.run (actions ++ [a])).entries[i]? =
      some (if i ∈ a.order then e.visited m else e) := by
    rw [hrun, getElem?_passEntries m a.order _ i (hreturns m hm' i), he]
    split <;> rfl
  rcases hcases with rfl | hconv
  · by_cases hi : i ∈ a.order
    · rw [if_pos hi] at hentry
      rcases Entry.visited_cases m (hreturns m hm' i hi _ he) with hv | ⟨k', l, hk', hl, hv⟩
      · exact ⟨.ofKeyword k, by rw [hentry, hv], Or.inl rfl⟩
      · obtain rfl : k = k' := congrArg Entry.keyword hk'
        rw [hv] at hentry
        refine ⟨⟨l, some m⟩, hentry, Or.inr ⟨actions, a, [], m, rfl, hm, he, hl, rfl, ?_⟩⟩
        intro later hlater
        rwa [List.prefix_nil.mp hlater]
    · exact ⟨.ofKeyword k, by simpa [hi] using hentry, Or.inl rfl⟩
  · obtain ⟨-, -, -, n, -, -, -, -, hn, -⟩ := id hconv
    rw [Entry.visited_of_converted m hn, ite_self] at hentry
    exact ⟨e, hentry, Or.inr (hconv.concat a hentry)⟩

/-- In every state of a run from unconverted entries, all originals are accounted for. -/
theorem accounted_of_unconverted (hd : ∀ e ∈ d.entries, e.converted = none)
    {actions : List Action} (h : d.Returns actions) : Accounted d actions := by
  induction actions using List.reverseRecOn with
  | nil =>
    refine ⟨by simp [run, originals, keywords], ?_⟩
    intro i k hk
    simp only [originals, keywords, List.filterMap_nil, List.append_nil, List.getElem?_map,
      Option.map_eq_some_iff] at hk
    obtain ⟨e, he, rfl⟩ := hk
    refine ⟨e, he, Or.inl ?_⟩
    simp [Entry.ofKeyword, ← hd e (List.mem_of_getElem? he)]
  | append_singleton actions a ih =>
    obtain ⟨hactions, ha⟩ := returns_concat.mp h
    cases a with
    | push k => exact (ih hactions).push k
    | convert order => exact (ih hactions).pass rfl ha
    | convertWith m order => exact (ih hactions).pass rfl ha

theorem returns_of_isWhole (hd : ∀ e ∈ d.entries, e.keyword.IsWhole)
    (hpushed : ∀ k, Action.push k ∈ actions → k.IsWhole) :
    (∀ e ∈ (d.run actions).entries, e.keyword.IsWhole) ∧ d.Returns actions := by
  induction actions using List.reverseRecOn with
  | nil => exact ⟨hd, fun before a h => by simp at h⟩
  | append_singleton actions a ih =>
    obtain ⟨hwhole, hreturns⟩ := ih fun k hk => hpushed k (List.mem_append_left _ hk)
    refine ⟨?_, returns_concat.mpr ⟨hreturns, ?_⟩⟩
    · rw [run_concat]
      cases a with
      | push k =>
        intro e he
        rcases List.mem_append.mp he with he | hlast
        · exact hwhole e he
        · rw [List.mem_singleton.mp hlast]
          exact hpushed k (by simp)
      | convert order | convertWith m order =>
        exact forall_passEntries (P := fun e => e.keyword.IsWhole) _
          (fun e => Entry.isWhole_visited _) order hwhole
    · intro m hm i hi e he
      exact Entry.not_panics_of_isWhole m (hwhole e (List.mem_of_getElem? he))

/-- A deck as it was made or read, before anything is done with it. -/
def IsStart [Calendar] (d : Deck Float) : Prop :=
  (∃ units, d = empty units) ∨ ∃ text, parse text = .ok d

theorem IsStart.unconverted [Calendar] (h : d.IsStart) : ∀ e ∈ d.entries, e.converted = none := by
  rcases h with ⟨units, rfl⟩ | ⟨text, htext⟩
  · simp [empty]
  · exact unconverted_of_parse htext

theorem IsStart.isWhole [Calendar] (h : d.IsStart) : ∀ e ∈ d.entries, e.keyword.IsWhole := by
  rcases h with ⟨units, rfl⟩ | ⟨text, htext⟩
  · simp [empty]
  · exact isWhole_of_parse htext

/-- Whatever is done with a deck, no keyword of it is lost or doubled, and none is converted more
than once, as long as the calls return. They do if no keyword was pushed that lacks a part of its
tables. -/
theorem converted_at_most_once [Calendar] (d : Deck Float) (hd : d.IsStart) (actions : List Action) :
    (d.Returns actions → Accounted d actions) ∧
      ((∀ k, Action.push k ∈ actions → k.IsWhole) → d.Returns actions) :=
  ⟨accounted_of_unconverted hd.unconverted, fun hpushed => (returns_of_isWhole hd.isWhole hpushed).2⟩

/-- A time step and a list of well targets are pushed, and a pass visits both. The list stops it,
because the control of its second target is not known. The step is visited again with other
multipliers, and another that follows is visited by no pass. -/
theorem converted_at_most_once_weltarg :
    let targets : Keyword Float := .typed .weltarg
      [("P1", .cons "BHP" (.cons (.cons (.given 4) .nil) .nil)),
        ("P2", .cons "XRAT" (.cons (.cons (.given 4) .nil) .nil))]
    let actions : List Action := [.push (.typed .tstep [1]), .push targets, .convert [1, 0],
      .convertWith .identity [0], .push (.typed .tstep [2])]
    (empty .metric).IsStart ∧
      (empty .metric).originals actions = [.typed .tstep [1], targets, .typed .tstep [2]] ∧
      Accounted (empty .metric) actions := by
  intro targets actions
  have hd : (empty .metric).IsStart := Or.inl ⟨.metric, rfl⟩
  obtain ⟨haccounted, hreturns⟩ := converted_at_most_once _ hd actions
  refine ⟨hd, rfl, haccounted (hreturns fun k hk => ?_)⟩
  have hcases : k = .typed .tstep [1] ∨ k = targets ∨ k = .typed .tstep [2] := by
    simpa [actions] using hk
  rcases hcases with rfl | rfl | rfl <;> trivial

end Deck

end ReservoirDeck
