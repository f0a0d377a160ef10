import ReservoirDeck.Proofs.Alike.Records
import ReservoirDeck.Proofs.Reading.Layouts

/-!
Bodies of keywords in two texts. Every layout is read alike, where one line of text is, and the keyword
is the same in both texts.
-/

namespace ReservoirDeck

variable {α : Type} {p : Pairing}

namespace Pairing

/-- What is done is the same at the next keyword and at the end of the text. -/
theorem bind_lookahead (hp : p.Lawful) {f : Lookahead → ReadM α}
    (hf : ∀ next, p.readers.Alike (f next)) (hends : f .keyword = f .endOfInput) :
    p.readers.Alike (ReadM.lookahead >>= f) := by
  have hon : ∀ next, p.readers.Alike (ReadM.onLookahead f next) := by
    intro next
    cases next with
    | other byte => exact p.malformed _
    | _ => exact hf _
  have hsame : ∀ next, next.endsRows = true → ReadM.onLookahead f next = f .endOfInput := by
    intro next hnext
    cases next with
    | keyword => exact hends
    | endOfInput => rfl
    | _ => cases hnext
  intro r
  constructor
  · intro s h
    rw [ReadM.bind_lookahead_eq, ReadM.bind_lookahead_eq]
    rcases hp.skipTrivia h.1 with hpast | hnear
    · exact .past ((hon _ _).past hpast)
    rcases hp.lookahead h.1 with hpast | heq | ⟨hr, hs⟩
    · exact .past ((hon _ _).past hpast)
    · rw [heq]
      exact (hon _ _).near _ ⟨hnear, h.2⟩
    · rw [hsame _ hr, hsame _ hs]
      exact (hf _ _).near _ ⟨hnear, h.2⟩
  · intro h
    rw [ReadM.bind_lookahead_eq]
    exact (hon _ _).past (hp.past_forward h _)

theorem calls (hp : p.Lawful) {x : ReadM α} (hx : x.Calls) : p.readers.Alike x := by
  induction hx with
  | items hx => exact items hp hx
  | bind _ _ hx hf => exact hx.bind hf
  | tokenText => exact hp.tokenText
  | terminator => exact hp.terminator
  | lookahead _ hends hf => exact bind_lookahead hp hf hends
  | run hx => exact run (fields hp hx)
  | record hx => exact run ((fields hp hx).bind fun values => (finish hp).bind fun _ => .pure values)
  | row hx => exact run ((fields hp hx).bind fun values => (finishRow hp).bind fun _ => .pure values)
  | iterate _ hmoves s hstep => exact iterate hmoves hstep s

/-- A keyword that is understood is read alike, where a line of text is. -/
theorem keyword [Calendar] (hp : p.Lawful) {name : String} {kind : Kind} (hname : Kind.ofName? name = some kind)
    (htitle : kind.layout = .title → p.readers.Alike ReadM.title) :
    p.readers.Alike (Keyword.read name) := by
  have hbody : p.readers.Alike kind.layout.read := by
    by_cases h : kind.layout = .title
    · rw [h]
      exact htitle h
    · exact calls hp (Layout.calls_read kind.isWritable_layout h)
  rw [Keyword.read, hname]
  exact inKeyword _ (hbody.bind fun _ => .pure _)

end Pairing

end ReservoirDeck
