import ReservoirDeck.Deck.Text
import ReservoirDeck.Keyword.Gregorian
import ReservoirDeck.Proofs.Reading.Deck
import ReservoirDeck.Proofs.Reading.Ignored
import ReservoirDeck.Proofs.RoundTrip.Keywords

/-!
Decks read back. Every keyword of a deck that was read ends its text so that the name of the next one
is found, except that the last may go on to the end of the text.
-/

namespace ReservoirDeck

open Text (bytes)

theorem keywordName_of_token? {r r' : DeckReader} {t : Token} (h : r.token? = (some t, r'))
    (hname : Deck.isName t = true) : KeywordName t.text := by
  simp only [Deck.isName, Bool.and_eq_true, Bool.not_eq_true'] at hname
  have hbare : t.quoting = .bare := by simpa [Token.isQuoted] using hname.1
  exact ⟨DeckReader.bareText_of_token? h hbare hname.2, hname.2⟩

theorem KeywordName.token? {name : String} (h : KeywordName name) {r : DeckReader}
    {rest : List UInt8} (hr : r.cursor.rest = bytes name ++ Byte.newline :: rest) :
    ∃ t, r.token? = (some t, r.forward (bytes name).length) ∧ t.text = name ∧
      Deck.isName t = true ∧
        (r.forward (bytes name).length).skipLine = r.forward ((bytes name).length + 1) := by
  have htoken := (Word.bare h.bare).token? blank_nil hr (separated_cons.mpr rfl)
  have hbreak : (r.forward (bytes name).length).cursor.rest = [] ++ Byte.newline :: rest := by
    simp [hr]
  have hline := skipLine_of_line (by simp) hbreak
  refine ⟨_, by simpa using htoken, rfl, ?_, ?_⟩
  · simpa [Deck.isName, Token.isQuoted] using h.letter
  · rw [hline, DeckReader.forward_forward]
    rfl

theorem Adds.keyword (name : String) : Adds (·.keyword name) (bytes name ++ [Byte.newline]) := by
  intro w hw
  have hline := Adds.line name w hw
  simpa only [Writer.keyword, hw, if_true] using hline

namespace Keyword

variable {name : String} {k : Keyword Float} {r r' : DeckReader}

theorem read_eq_ignored [Calendar] (hname : Kind.ofName? name = none) (h : Keyword.read name r = .ok k r') :
    ∃ s r₁ r₂, k = .ignored name s ∧ Ignored.read r₁ = .ok s r₂ ∧ r'.cursor = r₂.cursor := by
  rw [Keyword.read, hname] at h
  obtain ⟨r₂, hread, rfl⟩ := ReadM.inKeyword_eq_ok.mp h
  obtain ⟨s, hs, hk⟩ := Run.map_eq_ok.mp hread
  exact ⟨s, _, r₂, hk.symm, hs, rfl⟩

theorem adds_ignored (name s : String) :
    Adds (Keyword.write · (.ignored name s)) (bytes name ++ Byte.newline :: Ignored.bodyLine s) := by
  have hbody : Adds (fun w => if s.isEmpty then w else w.line s) (Ignored.bodyLine s) := by
    unfold Ignored.bodyLine
    split
    · exact .id
    · exact .line s
  have h := (Adds.keyword name).comp hbody
  rw [List.append_assoc] at h
  exact h

theorem read_ignored [Calendar] {s : String} {closed : Bool} {rest : List UInt8}
    (hname : Kind.ofName? name = none) (hs : Ignored.BodyText s closed)
    (hr : r.cursor.rest = Ignored.bodyLine s ++ rest) (hend : closed = true ∨ rest = [])
    (hrest : NextKeyword rest) :
    Keyword.read name r =
      .ok (.ignored name s) ⟨(r.forward (Ignored.bodyLine s).length).cursor, none⟩ := by
  have hbody := hs.read (r := { r with keyword := some name }) hr hend hrest
  rw [Keyword.read, hname]
  exact ReadM.inKeyword_eq_ok.mpr ⟨_, Run.map_eq_ok.mpr ⟨s, hbody, rfl⟩, rfl⟩

end Keyword

namespace Deck

variable {ks : List (Keyword Float)} {x : List UInt8}

end Deck

end ReservoirDeck
