import ReservoirDeck.Layout.Record
import ReservoirDeck.Proofs.RoundTrip.Slots

/-!
Names read back. A name is written quoted unless it holds an apostrophe, so it must not need quotes
then.
-/

namespace ReservoirDeck

/-- A name that is read back as it was written. -/
def NameText (s : String) : Prop :=
  QuotableText s ∨ '\'' ∈ s.toList ∧ BareText s

theorem nameToken_of_quotable {s : String} (h : QuotableText s) : nameToken s = "'" ++ s ++ "'" := by
  have hs : '\'' ∉ s.toList := fun hmem => (h _ hmem).1 rfl
  simp [nameToken, hs]

theorem nameToken_of_bare {s : String} (hmem : '\'' ∈ s.toList) (h : BareText s) :
    nameToken s = s := by
  simp [nameToken, hmem, h.2]

theorem defaultCount?_of_quote {s : String} (hmem : '\'' ∈ s.toList) : defaultCount? s = none := by
  have hrev : '\'' ∈ s.toList.reverse := List.mem_reverse.mpr hmem
  unfold defaultCount?
  split
  · next h => simp [h] at hrev
  · next count _ h =>
    have hcount : '\'' ∈ count.reverse := by simpa [h] using hrev
    have hdigits : ¬ count.reverse.all Char.isDigit = true := by
      intro hall
      exact absurd (List.all_eq_true.mp hall _ hcount) (by decide)
    rw [countOfChars?, naturalOfChars?, if_neg fun h => hdigits h.2]
    rfl
  · rfl

theorem defaultCount?_default : defaultCount? "1*" = some 1 := by
  decide

theorem NameText.word {s : String} (h : NameText s) :
    ∃ q, Word (nameToken s) s q ∧ q ≠ .unterminated ∧ (q = .bare → '\'' ∈ s.toList) := by
  rcases h with h | ⟨hmem, h⟩
  · rw [nameToken_of_quotable h]
    exact ⟨.quoted, .quoted h, by simp, by simp⟩
  · rw [nameToken_of_bare hmem h]
    exact ⟨.bare, .bare h, by simp, fun _ => hmem⟩

theorem NameText.isTerminator {s : String} {q : Quoting} (hq : q = .bare → '\'' ∈ s.toList)
    (start : Nat) : Token.isTerminator ⟨s, q, start⟩ = false := by
  by_cases hbare : q = .bare
  · have hs : s ≠ "/" := by
      rintro rfl
      exact absurd (hq hbare) (by decide)
    simp [Token.isTerminator, hs]
  · simp [Token.isTerminator, hbare]

theorem Word.token {w t : String} {q : Quoting} (h : Word w t q) {r : DeckReader}
    {z rest : List UInt8} (hz : Spells [w] z) (hr : r.cursor.rest = z ++ rest)
    (hrest : Separated rest) :
    ∃ start, ReadM.token r = .ok ⟨t, q, start⟩ (r.forward z.length) := by
  obtain ⟨start, htoken⟩ := hz.token? h hr hrest
  refine ⟨start, ?_⟩
  rw [ReadM.token, Run.bind_modifyGet_eq, htoken]
  rfl

namespace RecordM

theorem ofRead_of_ok {α : Type} {x : ReadM α} {a : α} {r r' : DeckReader} {standing : Standing}
    (h : x r = .ok a r') : ofRead x ⟨r, standing⟩ = .ok a ⟨r', standing⟩ := by
  simp [ofRead, h]

theorem name_eq_token (default : String) {r r' : DeckReader} {t : Token}
    (h : ReadM.token r = .ok t r') (ht : t.isTerminator = false) :
    name default ⟨r, .reading⟩ =
      (match t.quoting with
      | .unterminated => malformed (.openQuote t.text)
      | .quoted => return .given t.text
      | .bare =>
        match defaultCount? t.text with
        | some count => do
          setStanding (.owe (count - 1) none)
          return .missing default
        | none => return .given t.text : RecordM (Defaulted String)) ⟨r', .reading⟩ := by
  refine (Run.bind_of_ok _ (ofRead_of_ok h)).trans ?_
  exact congrFun (if_neg (by simp [ht])) _

theorem name_reads_given (default : String) {s : String} (hs : NameText s) :
    FieldReads (name default) [nameToken s] (.given s) := by
  intro r z rest hz hr hrest
  obtain ⟨q, hword, hq, hbare⟩ := hs.word
  obtain ⟨start, htoken⟩ := hword.token hz hr (hrest (by simp))
  rw [name_eq_token default htoken (NameText.isTerminator hbare start)]
  cases q with
  | bare => simp [defaultCount?_of_quote (hbare rfl)]
  | quoted => rfl
  | unterminated => exact absurd rfl hq

theorem name_reads_missing (default : String) :
    FieldReads (name default) ["1*"] (.missing default) := by
  intro r z rest hz hr hrest
  obtain ⟨start, htoken⟩ := (Word.bare bareText_default).token hz hr (hrest (by simp))
  rw [name_eq_token default htoken (isTerminator_of_bareText bareText_default start)]
  simp only [defaultCount?_default]
  rfl

theorem requiredName_reads (what : String) {s : String} (hs : NameText s) :
    FieldReads (requiredName what) [nameToken s] s := by
  exact (name_reads_given "" hs).bind_nil (.pure s)

end RecordM

end ReservoirDeck
