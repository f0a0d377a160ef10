import ReservoirDeck.Keyword.Basic
import ReservoirDeck.Keyword.Gregorian
import ReservoirDeck.Proofs.Reading.Sound

/-!
Keywords read back. The text of a keyword that was read is read as that keyword again, whatever
keyword follows.
-/

namespace ReservoirDeck

theorem Kind.isWritable_layout (kind : Kind) : kind.layout.isWritable = true := by
  cases kind <;> decide

theorem Kind.name_of_ofName? {name : String} {kind : Kind} (h : Kind.ofName? name = some kind) :
    kind.name = name := by
  simpa using List.find?_some h

namespace Keyword

variable {k : Keyword Float} {name : String} {r r' : DeckReader}

theorem read_eq_typed [Calendar] {kind : Kind} (hname : Kind.ofName? name = some kind)
    (h : Keyword.read name r = .ok k r') :
    ∃ (body : kind.layout.Body Float) (r₁ r₂ : DeckReader), k = .typed kind body ∧
      kind.layout.read r₁ = .ok body r₂ := by
  rw [Keyword.read, hname] at h
  obtain ⟨r₂, hread, -⟩ := ReadM.inKeyword_eq_ok.mp h
  obtain ⟨body, hbody, hk⟩ := Run.map_eq_ok.mp hread
  exact ⟨body, _, r₂, hk.symm, hbody⟩

end Keyword

end ReservoirDeck
