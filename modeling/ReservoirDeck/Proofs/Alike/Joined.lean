import ReservoirDeck.Proofs.Alike.Lines
import ReservoirDeck.Proofs.Alike.NameLines

/-!
Two decks in one text. The first is read as it is alone, since no keyword that is understood looks
beyond the name that comes next, and reading goes on with the second as it does alone.
-/

namespace ReservoirDeck

open Text (bytes)

variable {w : List UInt8} {c d : Cursor} {r r' s : DeckReader}

namespace Pairing

/-- The end of the first text, and a place of the second where a name comes next, or nothing. What
fails at the end of the first text may go on in the second. -/
def ended (w : List UInt8) : Pairing where
  near c d := c.rest = [] ∧ d.skipTrivia.rest = w
  past _ := False
  excused cause := cause = .unexpectedEnd

end Pairing

theorem Keyword.keyword_of_read [Calendar] {name : String} {k : Keyword Float}
    (h : Keyword.read name r = .ok k r') : r'.keyword = none := by
  unfold Keyword.read at h
  cases hname : Kind.ofName? name <;> rw [hname] at h
  all_goals
    obtain ⟨_, -, rfl⟩ := ReadM.inKeyword_eq_ok.mp h
    rfl

namespace Deck

/-- Passes one keyword of a text, and keeps the unit system that was declared last. -/
def declarationStep [Calendar] (last : Option UnitSystem) :
    ReadM (Option UnitSystem ⊕ Option UnitSystem) := do
  match ← modifyGet DeckReader.token? with
  | none => return .inr last
  | some t =>
    if isName t then
      ReadM.skipLine
      match UnitSystem.ofKeyword? t.text with
      | some units => return .inl (some units)
      | none =>
        discard (Keyword.read t.text)
        return .inl last
    else ReadM.malformed (.keywordExpected t.text)

/-- A deck with more entries, in the unit system that was declared last. -/
def continued (d : Deck Float) (last : Option UnitSystem) (entries : List (Entry Float)) : Deck Float :=
  ⟨last.getD d.units, d.entries ++ entries⟩

variable {d d' : Deck Float} {before : Option (Keyword Float)} {t : Token}

theorem declarationStep_of_nameRound [Calendar] {r₁ r₂ : DeckReader} (htoken : r₁.token? = (some t, r₂))
    (hname : isName t = true) {d'' : Deck Float} (hround : NameRound d' t r₂ r' d'') :
    ∃ last new, d'' = d'.continued last new ∧
      (∀ l, ReadM.iterate declarationStep l r₁ = ReadM.iterate declarationStep (last.or l) r') ∧
        ∀ d, NameRound d t r₂ r' (d.continued last new) := by
  have hlt := hround.lt htoken
  cases hround with
  | @units units declared passed =>
    refine ⟨some units, [], by simp [continued], fun l => ?_, fun d => ?_⟩
    · apply ReadM.iterate_of_next ?_ hlt
      rw [declarationStep, Run.bind_modifyGet_eq, htoken]
      simp only [hname, if_true, ReadM.skipLine, Run.bind_modify_eq, declared, passed]
      rfl
    · have hsame : d.continued (some units) [] = { d with units } := by simp [continued]
      rw [hsame]
      exact .units declared passed
  | @keyword k undeclared body =>
    refine ⟨none, [.ofKeyword k], by simp [continued, push], fun l => ?_, fun d => ?_⟩
    · apply ReadM.iterate_of_next ?_ hlt
      rw [declarationStep, Run.bind_modifyGet_eq, htoken]
      simp only [hname, if_true, ReadM.skipLine, Run.bind_modify_eq, undeclared]
      have hpass : discard (Keyword.read t.text) r₂.skipLine = .ok () r' :=
        Run.discard_eq_ok.mpr ⟨k, body⟩
      rw [Run.bind_of_ok _ hpass]
      rfl
    · have hsame : d.continued none [.ofKeyword k] = d.push k := by simp [continued, push]
      rw [hsame]
      exact .keyword undeclared body

/-- What a start has and every round from a name keeps. -/
theorem Rounds.induction [Calendar] {P : Deck Float → DeckReader → Prop} (h : Rounds d r before d' r')
    (start : P d r) (round : ∀ {d₁ r₁ t r₂ d₂ r₃}, P d₁ r₁ → r₁.token? = (some t, r₂) →
      isName t = true → NameRound d₁ t r₂ r₃ d₂ → P d₂ r₃) : P d' r' := by
  induction h with
  | start => exact start
  | units h htoken hname hdeclared ih => exact round ih htoken hname (.units hdeclared rfl)
  | keyword h htoken hname hundeclared hread ih =>
    exact round ih htoken hname (.keyword hundeclared hread)

theorem Rounds.last [Calendar] (h : Rounds d r before d' r') :
    (d' = d ∧ r' = r) ∨ ∃ before₁ d₁ r₁ t r₂, Rounds d r before₁ d₁ r₁ ∧
      r₁.token? = (some t, r₂) ∧ isName t = true ∧ NameRound d₁ t r₂ r' d' := by
  cases h with
  | start => exact .inl ⟨rfl, rfl⟩
  | units h htoken hname hdeclared =>
    exact .inr ⟨_, _, _, _, _, h, htoken, hname, .units hdeclared rfl⟩
  | keyword h htoken hname hundeclared hread =>
    exact .inr ⟨_, _, _, _, _, h, htoken, hname, .keyword hundeclared hread⟩

theorem Rounds.keyword_eq [Calendar] (h : Rounds d r before d' r') (hr : r.keyword = none) :
    r'.keyword = none := by
  refine h.induction (P := fun _ r' => r'.keyword = none) hr ?_
  intro d₁ r₁ t r₂ d₂ r₃ hr₁ htoken hname hround
  cases hround with
  | units declared passed =>
    have hr₂ : r₂ = r₁.token?.2 := by rw [htoken]
    rw [passed, hr₂]
    exact hr₁
  | keyword undeclared body => exact Keyword.keyword_of_read body

/-- Rounds add entries and declare units in the same way to whatever deck. -/
theorem Rounds.continued [Calendar] (h : Rounds d r before d' r') :
    ∃ last new, d' = d.continued last new ∧
      (∀ l, ReadM.iterate declarationStep l r = ReadM.iterate declarationStep (last.or l) r') ∧
        ∀ d, ∃ before', Rounds d r before' (d.continued last new) r' := by
  refine h.induction (P := fun d' r' => ∃ last new, d' = d.continued last new ∧
    (∀ l, ReadM.iterate declarationStep l r = ReadM.iterate declarationStep (last.or l) r') ∧
      ∀ d, ∃ before', Rounds d r before' (d.continued last new) r') ?_ ?_
  · refine ⟨none, [], by simp [Deck.continued], fun l => rfl, fun d => ⟨none, ?_⟩⟩
    have hsame : d.continued none [] = d := by simp [Deck.continued]
    rw [hsame]
    exact .start
  · rintro d₁ r₁ t r₂ d₂ r₃ ⟨last, new, rfl, hlast, hrounds⟩ htoken hname hround
    obtain ⟨last', new', rfl, hlast', hround'⟩ := declarationStep_of_nameRound htoken hname hround
    have hjoin : ∀ d : Deck Float, (d.continued last new).continued last' new' =
        d.continued (last'.or last) (new ++ new') := by
      intro d
      cases last' <;> simp [Deck.continued]
    refine ⟨last'.or last, new ++ new', hjoin d, fun l => ?_, fun d => ?_⟩
    · rw [hlast, hlast', Option.or_assoc]
    · obtain ⟨before', hbefore⟩ := hrounds d
      rw [← hjoin]
      exact (hround' _).rounds hbefore htoken hname

/-- Rounds go on in the same way where the same bytes are ahead, after blanks and comments. -/
theorem Rounds.afterTrivia [Calendar] (h : Rounds d r before d' r')
    (hrest : SameRest r.skipTrivia s.skipTrivia) :
    ∃ before' s', Rounds d s before' d' s' ∧ SameRest r'.skipTrivia s'.skipTrivia := by
  refine h.induction (P := fun d' r' => ∃ before' s', Rounds d s before' d' s' ∧
    SameRest r'.skipTrivia s'.skipTrivia) ⟨none, s, .start, hrest⟩ ?_
  rintro d₁ r₁ t r₂ d₂ r₃ ⟨before₁, s₁, hrounds, hrest₁⟩ htoken hname hround
  obtain ⟨n, s₂, htoken', hrest₂⟩ := hrest₁.token?_some htoken
  have htext : ({ t with start := n } : Token).text = t.text := rfl
  obtain ⟨s₃, hround', hrest₃⟩ := hround.of_rest htext hrest₂.skipLine
  obtain ⟨before₃, hrounds'⟩ := hround'.rounds hrounds htoken' hname
  exact ⟨before₃, s₃, hrounds', hrest₃.skipTrivia⟩

open Pairing (lines ended)

section First

variable {y : List UInt8} (hy : y.drop (Cursor.triviaSize false y) = w)
include hy

end First

end Deck

end ReservoirDeck
