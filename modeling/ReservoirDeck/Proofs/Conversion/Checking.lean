import Mathlib.Logic.Relation
import ReservoirDeck.Keyword.Gregorian
import ReservoirDeck.Proofs.Conversion.Runs
import ReservoirDeck.Proofs.Table.Access

/-!
Conversions under the check of a deck. The check looks at the saturations of the last water and gas
functions, and a conversion scales nothing of these tables but the capillary pressures. So the check
says the same before and after any conversions, whether they failed or not.
-/

namespace ReservoirDeck

namespace RegionTable

section Scaling

variable {R : Type} [Mul R] (t : RegionTable R) {c j : Nat} (h : j ≠ c) (factor : R)
include h

/-- Nothing that is seen of one column changes when another is scaled. -/
theorem map_column_scaleColumn {β : Type} (g : Option (List R) → β) :
    ((t.scaleColumn j factor).regions.map fun region => g region[c]?) =
      t.regions.map fun region => g region[c]? := by
  unfold scaleColumn
  rw [List.map_map]
  apply List.map_congr_left
  intro region _
  rw [Function.comp_apply, List.getElem?_modify_ne _ _ h]

theorem firstOf_scaleColumn : (t.scaleColumn j factor).firstOf c = t.firstOf c :=
  t.map_column_scaleColumn h factor (·.bind List.head?)

theorem lastOf_scaleColumn : (t.scaleColumn j factor).lastOf c = t.lastOf c :=
  t.map_column_scaleColumn h factor (·.bind List.getLast?)

end Scaling

theorem Sound.scaleColumn {columns : Nat} {t : RegionTable Float} (h : t.Sound columns) (j : Nat)
    (factor : Float) : (t.scaleColumn j factor).Sound columns := by
  obtain ⟨hcolumns, hne, hregions⟩ := h
  refine ⟨hcolumns, ?_, isRegion_scaleColumn hregions factor j⟩
  simpa [RegionTable.scaleColumn] using hne

end RegionTable

namespace Keyword

variable {R : Type}

theorem body?_typed (kind : Kind) (body : kind.layout.Body R) :
    (typed kind body).body? kind = some body := by
  simp [body?]

theorem body?_of_ne {kind other : Kind} (h : other ≠ kind) (body : other.layout.Body R) :
    (typed other body).body? kind = none := by
  simp [body?, h]

theorem eq_typed_of_body? {k : Keyword R} {kind : Kind} {body : kind.layout.Body R}
    (h : k.body? kind = some body) : k = typed kind body := by
  cases k with
  | ignored => cases h
  | typed other body' =>
    by_cases hkind : other = kind
    · subst hkind
      rw [body?_typed] at h
      rw [Option.some.inj h]
    · rw [body?_of_ne hkind] at h
      cases h

theorem read_of_body? [Calendar] {name : String} {r r' : DeckReader} {k : Keyword Float}
    (h : Keyword.read name r = .ok k r') {kind : Kind} {body : kind.layout.Body Float}
    (hbody : k.body? kind = some body) : ∃ r₁ r₂, kind.layout.read r₁ = .ok body r₂ := by
  cases hname : Kind.ofName? name with
  | some other =>
    obtain ⟨body', r₁, r₂, rfl, hread⟩ := read_eq_typed hname h
    cases eq_typed_of_body? hbody
    exact ⟨r₁, r₂, hread⟩
  | none =>
    obtain ⟨s, r₁, r₂, rfl, -, -⟩ := read_eq_ignored hname h
    cases hbody

theorem body?_image [Mul R] [Div R] (m : Multipliers R) (k : Keyword R) (kind : Kind) :
    (k.image m).body? kind = (k.body? kind).map (kind.layout.image m) := by
  cases k with
  | ignored => rfl
  | typed other body =>
    by_cases hkind : other = kind
    · subst hkind
      rw [image, body?_typed, body?_typed, Option.map_some]
    · rw [image, body?_of_ne hkind, body?_of_ne hkind, Option.map_none]

end Keyword

theorem Entry.visited_of_isWhole {R : Type} [Mul R] [Div R] (m : Multipliers R) {e : Entry R}
    (h : e.keyword.IsWhole) :
    e.visited m = e ∨ e.converted = none ∧ e.visited m = ⟨e.keyword.image m, some m⟩ := by
  rcases visited_cases m (not_panics_of_isWhole m h) with hv | ⟨k, l, rfl, hconvert, hv⟩
  · exact Or.inl hv
  · obtain ⟨-, rfl⟩ := (Keyword.convert_eq_ok m).mp hconvert
    exact Or.inr ⟨rfl, hv⟩

/-- The entry of a keyword that was read, before or after its one conversion. -/
def Entry.IsRead [Calendar] (e : Entry Float) : Prop :=
  ∃ name r k r', Keyword.read name r = .ok k r' ∧
    (e = .ofKeyword k ∨ ∃ m, e = ⟨k.image m, some m⟩)

namespace Entry.IsRead

variable [Calendar] {e : Entry Float} (h : e.IsRead)
include h

theorem isWhole : e.keyword.IsWhole := by
  obtain ⟨name, r, k, r', hread, rfl | ⟨m, rfl⟩⟩ := h
  · exact Keyword.isWhole_of_read hread
  · exact (k.isWhole_image m).mpr (Keyword.isWhole_of_read hread)

theorem visited (m : Multipliers Float) : (e.visited m).IsRead := by
  rcases visited_of_isWhole m h.isWhole with hv | ⟨hc, hv⟩
  · rwa [hv]
  · obtain ⟨name, r, k, r', hread, rfl | ⟨n, rfl⟩⟩ := h
    · exact ⟨name, r, k, r', hread, Or.inr ⟨m, hv⟩⟩
    · cases hc

/-- What holds of every body that can be read, and is kept by every conversion of one, holds of the
body of the entry. -/
theorem of_body? (kind : Kind) {P : kind.layout.Body Float → Prop}
    (hread : ∀ r body r', kind.layout.read r = .ok body r' → P body)
    (hP : ∀ m a, P a → P (kind.layout.image m a)) {body : kind.layout.Body Float}
    (hbody : e.keyword.body? kind = some body) : P body := by
  obtain ⟨name, r, k, r', hk, rfl | ⟨m, rfl⟩⟩ := h
  · obtain ⟨r₁, r₂, hlayout⟩ := Keyword.read_of_body? hk hbody
    exact hread r₁ body r₂ hlayout
  · rw [Keyword.body?_image] at hbody
    obtain ⟨a, ha, rfl⟩ := Option.map_eq_some_iff.mp hbody
    obtain ⟨r₁, r₂, hlayout⟩ := Keyword.read_of_body? hk ha
    exact hP m a (hread r₁ a r₂ hlayout)

end Entry.IsRead

namespace Deck

/-- One conversion, complete or stopped by an error: in deck order, or a pass in any other. -/
inductive Conversion (d : Deck Float) : Deck Float → Prop
  | convert : Conversion d d.convert.1
  | convertWith (m : Multipliers Float) : Conversion d (d.convertWith m).1
  | pass (m : Multipliers Float) (order : List Nat) : Conversion d (d.pass m order)

/-- Any number of conversions. -/
abbrev Conversions : Deck Float → Deck Float → Prop :=
  Relation.ReflTransGen Conversion

/-- Decks that are made of keywords that were read, at any stage of their conversion. -/
inductive Obtained [Calendar] : Deck Float → Prop
  | empty (units : UnitSystem) : Obtained (empty units)
  | parse {text : String} {d : Deck Float} (h : parse text = .ok d) : Obtained d
  | push {d : Deck Float} {name : String} {k : Keyword Float} {r r' : DeckReader}
      (hd : Obtained d) (h : Keyword.read name r = .ok k r') : Obtained (d.push k)
  | convert {d d' : Deck Float} (hd : Obtained d) (h : Conversion d d') : Obtained d'

variable {d d' : Deck Float}

theorem Conversion.exists_pass (h : Conversion d d') : ∃ m order, d' = d.pass m order := by
  cases h with
  | convert =>
    obtain ⟨order, horder⟩ := d.convertWith_eq_pass d.units.multipliers
    exact ⟨_, order, horder⟩
  | convertWith m =>
    obtain ⟨order, horder⟩ := d.convertWith_eq_pass m
    exact ⟨m, order, horder⟩
  | pass m order => exact ⟨m, order, rfl⟩

theorem Obtained.isRead [Calendar] (hd : d.Obtained) : ∀ e ∈ d.entries, e.IsRead := by
  induction hd with
  | empty => simp [Deck.empty]
  | parse h =>
    exact forall_entries_of_parse (fun name r k r' hread => ⟨name, r, k, r', hread, Or.inl rfl⟩) h
  | push _ h ih =>
    intro e he
    rcases List.mem_append.mp he with he | hlast
    · exact ih e he
    · exact ⟨_, _, _, _, h, Or.inl (List.mem_singleton.mp hlast)⟩
  | convert _ h ih =>
    obtain ⟨m, order, rfl⟩ := h.exists_pass
    exact forall_passEntries m (fun e he => he.visited m) order ih

theorem Obtained.conversions [Calendar] (hd : d.Obtained) (h : Conversions d d') : d'.Obtained := by
  induction h with
  | refl => exact hd
  | tail _ hstep ih => exact ih.convert hstep

theorem map_ofKind {β : Type} (kind : Kind) (g : kind.layout.Body Float → β) (d : Deck Float) :
    (d.ofKind kind).map g =
      (d.entries.map fun e => (e.keyword.body? kind).map g).filterMap id := by
  simp [ofKind, keywords, List.map_filterMap, List.filterMap_map]

/-- What no conversion of a body changes is not changed by conversions of the deck. -/
theorem map_ofKind_of_conversions [Calendar] {β : Type} (kind : Kind) {g : kind.layout.Body Float → β}
    (hg : ∀ m a, g (kind.layout.image m a) = g a) (hd : d.Obtained) (h : Conversions d d') :
    (d'.ofKind kind).map g = (d.ofKind kind).map g := by
  induction h with
  | refl => rfl
  | tail hbefore hstep ih =>
    obtain ⟨m, order, rfl⟩ := hstep.exists_pass
    rw [← ih, map_ofKind, map_ofKind]
    congr 1
    refine map_passEntries m (P := Entry.IsRead) (fun e he => he.visited m) (fun e he => ?_) order
      (hd.conversions hbefore).isRead
    rcases Entry.visited_of_isWhole m he.isWhole with hv | ⟨-, hv⟩
    · rw [hv]
    · rw [hv, Keyword.body?_image, Option.map_map]
      exact congrArg (fun f => Option.map f _) (funext (hg m))

section Check

/-- The tables that the check takes its saturations of, if they are the last. -/
def waterTables (d : Deck Float) : List (RegionTable Float) :=
  d.ofKind .swof

def gasTables (d : Deck Float) : List (RegionTable Float) :=
  d.ofKind .sgof

theorem conflict?_eq (d : Deck Float) : d.conflict? = do
    let waters ← (d.waterTables.map fun t => t.firstOf 0).getLast?
    let gases ← (d.gasTables.map fun t => t.lastOf 0).getLast?
    let conflict ← checkEndPoints 1 waters gases
    return (DeckError.ofCause (.inconsistent conflict)).inKeyword Kind.sgof.name := by
  rw [List.getLast?_map, List.getLast?_map]
  change (d.waterTables.getLast?.bind fun swof => d.gasTables.getLast?.bind fun sgof => _) = _
  cases d.waterTables.getLast? with
  | none => rfl
  | some swof => cases d.gasTables.getLast? <;> rfl

variable {d d' : Deck Float}

theorem conflict?_of_conversions [Calendar] (hd : d.Obtained) (h : Conversions d d') :
    d'.conflict? = d.conflict? := by
  have hwater : (d'.waterTables.map fun t => t.firstOf 0) =
      d.waterTables.map fun t => t.firstOf 0 :=
    map_ofKind_of_conversions .swof (fun m a => RegionTable.firstOf_scaleColumn a (by decide) _) hd h
  have hgas : (d'.gasTables.map fun t => t.lastOf 0) = d.gasTables.map fun t => t.lastOf 0 :=
    map_ofKind_of_conversions .sgof (fun m a => RegionTable.lastOf_scaleColumn a (by decide) _) hd h
  rw [conflict?_eq, conflict?_eq, hwater, hgas]

theorem Obtained.sound [Calendar] (hd : d.Obtained) :
    ∀ t ∈ d.waterTables ++ d.gasTables, RegionTable.Sound 4 t := by
  have hread : ∀ r t r', ReadM.regionTable 4 r = .ok t r' → RegionTable.Sound 4 t :=
    fun r t r' h => ReadM.regionTable_sound (by decide) h
  intro t ht
  rcases List.mem_append.mp ht with hwater | hgas
  · obtain ⟨k, hk, hbody⟩ := List.mem_filterMap.mp hwater
    obtain ⟨e, he, rfl⟩ := List.mem_map.mp hk
    exact (hd.isRead e he).of_body? .swof hread (fun m a ha => ha.scaleColumn 3 _) hbody
  · obtain ⟨k, hk, hbody⟩ := List.mem_filterMap.mp hgas
    obtain ⟨e, he, rfl⟩ := List.mem_map.mp hk
    exact (hd.isRead e he).of_body? .sgof hread (fun m a ha => ha.scaleColumn 3 _) hbody

/-- Conversions do not change what the check says of a deck, whatever their multipliers and however
far they got. Before and after them, each table that the check may look at has all of its four
columns, so that no access of the check or of a conversion is out of range. -/
theorem conflict?_conversions [Calendar] (hd : d.Obtained) (h : Conversions d d') :
    d'.conflict? = d.conflict? ∧
      ∀ t ∈ d'.waterTables ++ d'.gasTables, t.InRange 4 ∧
        ∀ factor, t.scaleColumn? 3 factor = some (t.scaleColumn 3 factor) := by
  refine ⟨conflict?_of_conversions hd h, fun t ht => ?_⟩
  obtain ⟨-, -, hregions⟩ := (hd.conversions h).sound t ht
  exact ⟨RegionTable.inRange (by decide) hregions,
    fun factor => RegionTable.scaleColumn?_eq hregions factor (by decide)⟩

/-- A water function, a target that stops the conversion in metric units, and a gas function. -/
theorem conflict?_conversions_stopped : ∃ water target gas r₁ r₂ r₃,
    Keyword.read "SWOF" (.ofString "0.2 0 1 0.1\n0.8 1 0 0 /") = .ok water r₁ ∧
      Keyword.read "WELTARG" (.ofString "P1 XRAT 4 /\n/") = .ok target r₂ ∧
      Keyword.read "SGOF" (.ofString "0 0 1 0.3\n0.8 1 0 0.1 /") = .ok gas r₃ ∧
      let d := (((empty .metric).push water).push target).push gas
      let d' := (d.convert.1.convertWith .identity).1
      d.Obtained ∧ Conversions d d' ∧ d'.conflict? = d.conflict? := by
  have hwater : (Run.answer (Keyword.read "SWOF"
      (.ofString "0.2 0 1 0.1\n0.8 1 0 0 /"))).isOk = true := by
    decide +kernel
  have htarget : (Run.answer (Keyword.read "WELTARG" (.ofString "P1 XRAT 4 /\n/"))).isOk = true := by
    decide +kernel
  have hgas : (Run.answer (Keyword.read "SGOF"
      (.ofString "0 0 1 0.3\n0.8 1 0 0.1 /"))).isOk = true := by
    decide +kernel
  obtain ⟨water, r₁, hwater⟩ := Run.exists_of_isOk hwater
  obtain ⟨target, r₂, htarget⟩ := Run.exists_of_isOk htarget
  obtain ⟨gas, r₃, hgas⟩ := Run.exists_of_isOk hgas
  refine ⟨water, target, gas, r₁, r₂, r₃, hwater, htarget, hgas, ?_⟩
  intro d d'
  have hd : d.Obtained := (((Obtained.empty .metric).push hwater).push htarget).push hgas
  have h : Conversions d d' := (Relation.ReflTransGen.single .convert).tail (.convertWith .identity)
  exact ⟨hd, h, (conflict?_conversions hd h).1⟩

end Check

end Deck

end ReservoirDeck
