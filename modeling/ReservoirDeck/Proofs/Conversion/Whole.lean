import ReservoirDeck.Proofs.Conversion.Images
import ReservoirDeck.Proofs.Reading.Deck
import ReservoirDeck.Proofs.Reading.Sound
import ReservoirDeck.Proofs.RoundTrip.Decks

/-!
Keywords that were read. Their tables have all columns that a conversion looks for, so that no
conversion of them panics.
-/

namespace ReservoirDeck

/-- The columns that are converted are columns of the table. -/
def Layout.convertsColumns : Layout → Bool
  | .table columns units => units.all (·.1 < columns)
  | _ => true

theorem Kind.convertsColumns_layout (kind : Kind) : kind.layout.convertsColumns = true := by
  cases kind <;> decide

theorem RegionTable.hasColumn_of_isRegion {columns c : Nat} {t : RegionTable Float}
    (h : ∀ region ∈ t.regions, ∃ k, IsRegion columns k region) (hc : c < columns) :
    t.HasColumn c := by
  intro region hmem
  obtain ⟨k, hregion⟩ := h region hmem
  rwa [hregion.width]

theorem Layout.isWhole_of_sound [Calendar] {layout : Layout} {body : layout.Body Float}
    (hw : layout.isWritable = true) (hc : layout.convertsColumns = true)
    (h : layout.Sound body) : layout.IsWhole body := by
  cases layout with
  | table columns units =>
    obtain ⟨-, -, hregions⟩ := h
    intro u hu
    exact RegionTable.hasColumn_of_isRegion
      (fun region hmem => (hregions region hmem).imp fun k hk => hk.2)
      (by simpa using List.all_eq_true.mp hc u hu)
  | pvt =>
    intro rows hrows row hrow hnil
    have hlength := ((h.2 rows hrows).2 row hrow).1
    simp [hnil] at hlength
  | depth layout =>
    obtain ⟨-, -, hregions, -⟩ := h
    have hkept : layout.kept ≠ [] := by
      have hhead := (isOrdered_of_isWritable hw).1
      intro hnil
      simp [hnil] at hhead
    exact RegionTable.hasColumn_of_isRegion
      (fun region hmem => (hregions region hmem).imp fun k hk => hk.2)
      (List.length_pos_iff.mpr hkept)
  | record | named | rows | title | startDate | dates | steps => trivial

theorem Keyword.isWhole_of_read [Calendar] {name : String} {r r' : DeckReader} {k : Keyword Float}
    (h : Keyword.read name r = .ok k r') : k.IsWhole := by
  cases hname : Kind.ofName? name with
  | some kind =>
    obtain ⟨body, r₁, r₂, rfl, hread⟩ := read_eq_typed hname h
    exact Layout.isWhole_of_sound kind.isWritable_layout kind.convertsColumns_layout
      (Layout.read_sound kind.isWritable_layout hread)
  | none =>
    obtain ⟨s, r₁, r₂, rfl, -, -⟩ := read_eq_ignored hname h
    trivial

theorem Deck.isWhole_of_parse [Calendar] {text : String} {d : Deck Float} (h : parse text = .ok d) :
    ∀ e ∈ d.entries, e.keyword.IsWhole :=
  forall_entries_of_parse (fun _ _ _ _ hread => Keyword.isWhole_of_read hread) h

end ReservoirDeck
