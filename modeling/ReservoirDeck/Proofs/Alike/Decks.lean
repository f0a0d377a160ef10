import ReservoirDeck.Deck.Text
import ReservoirDeck.Proofs.Alike.Ignored
import ReservoirDeck.Proofs.Alike.Layouts
import ReservoirDeck.Proofs.Reading.Termination

/-!
Decks of two texts with the same front. The rounds of reading a deck are alike, until one passes beyond
the front, or a keyword that is not understood ends on a line that goes on after the front.
-/

namespace ReservoirDeck

variable {w w' : List UInt8} {r r' s : DeckReader}

open Pairing (front)

theorem Keyword.read_alike [Calendar] (hw : SameNext w w') (hnear : (front w w').readers.near r s)
    {name : String} {k : Keyword Float} (h : Keyword.read name r = .ok k r')
    (hpast : ¬ (front w w').past r'.cursor) (hjoins : k.kind? = none → Joins w w' r'.cursor) :
    ∃ s', Keyword.read name s = .ok k s' ∧ (front w w').readers.near r' s' := by
  cases hkind : Kind.ofName? name with
  | some kind =>
    have hread := Pairing.keyword (Pairing.lawful_front hw) hkind fun _ => Pairing.front_title hw
    have hout := (hread r).near s hnear
    rw [h] at hout
    exact hout.of_ok.resolve_left hpast
  | none =>
    simp only [Keyword.read, hkind] at h ⊢
    obtain ⟨r₁, hbody, rfl⟩ := ReadM.inKeyword_eq_ok.mp h
    obtain ⟨body, r₂, hread, hk⟩ := Run.bind_eq_ok.mp hbody
    obtain ⟨rfl, rfl⟩ : Keyword.ignored name body = k ∧ r₂ = r₁ := by simpa using hk
    have hstart : (front w w').readers.near { r with keyword := some name }
        { s with keyword := some name } := ⟨hnear.1, rfl⟩
    obtain ⟨s₁, hread', hend⟩ := Ignored.read_alike hw hstart hread hpast (hjoins rfl)
    refine ⟨_, ReadM.inKeyword_eq_ok.mpr ⟨s₁, ?_, rfl⟩, hend.1, rfl⟩
    rw [Run.bind_of_ok _ hread', Run.pure_eq]

namespace Deck

/-- Rounds of reading a deck, from one state to another, with the keyword that the last of them
read. -/
inductive Rounds [Calendar] (d : Deck Float) (r : DeckReader) :
    Option (Keyword Float) → Deck Float → DeckReader → Prop
  | start : Rounds d r none d r
  | units {before : Option (Keyword Float)} {d' : Deck Float} {r₁ r₂ : DeckReader} {t : Token}
      {units : UnitSystem} (h : Rounds d r before d' r₁) (htoken : r₁.token? = (some t, r₂))
      (hname : isName t = true) (hdeclared : UnitSystem.ofKeyword? t.text = some units) :
      Rounds d r none { d' with units } r₂.skipLine
  | keyword {before : Option (Keyword Float)} {d' : Deck Float} {r₁ r₂ r₃ : DeckReader} {t : Token}
      {k : Keyword Float} (h : Rounds d r before d' r₁) (htoken : r₁.token? = (some t, r₂))
      (hname : isName t = true) (hundeclared : UnitSystem.ofKeyword? t.text = none)
      (hread : Keyword.read t.text r₂.skipLine = .ok k r₃) :
      Rounds d r (some k) (d'.push k) r₃

variable {d d' : Deck Float} {before : Option (Keyword Float)}

theorem NameRound.rounds [Calendar] {r₁ r₂ : DeckReader} {t : Token} (h : Rounds d r before d' r₁)
    (htoken : r₁.token? = (some t, r₂)) (hname : isName t = true) {d'' : Deck Float}
    (hround : NameRound d' t r₂ r' d'') : ∃ before', Rounds d r before' d'' r' := by
  cases hround with
  | units declared passed =>
    subst passed
    exact ⟨none, .units h htoken hname declared⟩
  | keyword undeclared body => exact ⟨_, .keyword h htoken hname undeclared body⟩

theorem readStep_of_nameRound [Calendar] {r₁ r₂ : DeckReader} {t : Token}
    (htoken : r₁.token? = (some t, r₂)) (hname : isName t = true) {d'' : Deck Float}
    (hround : NameRound d' t r₂ r' d'') : readStep d' r₁ = .ok (.inl d'') r' := by
  rw [readStep, Run.bind_modifyGet_eq, htoken]
  simp only [hname, if_true, ReadM.skipLine, Run.bind_modify_eq]
  cases hround with
  | units declared passed => simp only [declared, passed, Run.pure_eq]
  | keyword undeclared body =>
    simp only [undeclared]
    rw [Run.bind_of_ok _ body, Run.pure_eq]

theorem iterate_of_nameRound [Calendar] {r₁ r₂ : DeckReader} {t : Token} (htoken : r₁.token? = (some t, r₂))
    (hname : isName t = true) {d'' : Deck Float} (hround : NameRound d' t r₂ r' d'') :
    ReadM.iterate readStep d' r₁ = ReadM.iterate readStep d'' r' :=
  ReadM.iterate_of_next (readStep_of_nameRound htoken hname hround) (hround.lt htoken)

theorem Rounds.iterate [Calendar] (h : Rounds d r before d' r') :
    ReadM.iterate readStep d r = ReadM.iterate readStep d' r' := by
  induction h with
  | start => rfl
  | units h htoken hname hdeclared ih =>
    exact ih.trans (iterate_of_nameRound htoken hname (.units hdeclared rfl))
  | keyword h htoken hname hundeclared hread ih =>
    exact ih.trans (iterate_of_nameRound htoken hname (.keyword hundeclared hread))

theorem exists_rounds [Calendar] (h : ReadM.iterate readStep d r = .ok d' r') :
    ∃ before r₁, Rounds d r before d' r₁ ∧ r₁.token? = (none, r') := by
  refine ReadM.iterate_invariant (I := fun d' r' => ∃ before, Rounds d r before d' r')
    (Q := fun d' r' => ∃ before r₁, Rounds d r before d' r₁ ∧ r₁.token? = (none, r'))
    ?_ ?_ ⟨none, .start⟩ h
  · rintro d₁ r₁ d₂ r₂ ⟨before, hrounds⟩ hstep
    obtain ⟨t, r₃, htoken, hname, hround⟩ := readStep_eq_next hstep
    exact hround.rounds hrounds htoken hname
  · rintro d₁ r₁ d₂ r₂ ⟨before, hrounds⟩ hstep
    obtain ⟨htoken, rfl⟩ := readStep_eq_done hstep
    exact ⟨before, r₁, hrounds, htoken⟩

theorem Rounds.reaches [Calendar] (h : Rounds d r before d' r') : r.cursor.Reaches r'.cursor := by
  induction h with
  | start => exact .refl _
  | @units _ _ _ r₂ _ _ _ htoken _ _ ih =>
    exact ih.trans ((DeckReader.reaches_token? htoken).trans r₂.reaches_skipLine).cursor
  | @keyword _ _ _ r₂ _ _ _ _ htoken _ _ hread ih =>
    exact (ih.trans ((DeckReader.reaches_token? htoken).trans r₂.reaches_skipLine).cursor).trans
      (Keyword.reaches_of_read hread)

theorem Rounds.alike [Calendar] (hw : SameNext w w') (h : Rounds d r before d' r')
    (hnear : (front w w').readers.near r s) (hpast : ¬ (front w w').past r'.cursor)
    (hjoins : ∀ k ∈ before, k.kind? = none → Joins w w' r'.cursor) :
    ∃ s', Rounds d s before d' s' ∧ (front w w').readers.near r' s' := by
  -- A name is passed with its line, so the line on which the keyword before it ends is of the front.
  have hline : ∀ {r₁ r₂ : DeckReader} {t : Token}, r₁.token? = (some t, r₂) →
      ¬ (front w w').past r₂.skipLine.cursor →
        ¬ (front w w').past r₁.cursor ∧ ¬ (front w w').past r₂.cursor ∧ Joins w w' r₁.cursor := by
    intro r₁ r₂ t htoken hpast
    obtain ⟨n, hn⟩ := (DeckReader.reaches_token? htoken).cursor.forward
    have hpast₂ : ¬ (front w w').past r₂.cursor := fun h =>
      hpast (Pairing.front_past_forward h _)
    refine ⟨fun h => hpast₂ (hn ▸ Pairing.front_past_forward h n), hpast₂, ?_⟩
    exact joins_of_skipLine hw (n := n) (hn ▸ hpast)
  induction h with
  | start => exact ⟨s, .start, hnear⟩
  | units h htoken hname hdeclared ih =>
    obtain ⟨hpast₁, hpast₂, hjoins₁⟩ := hline htoken hpast
    obtain ⟨s₁, hrounds, hnear₁⟩ := ih hpast₁ fun _ _ _ => hjoins₁
    obtain ⟨n, s₂, hs, hnear₂⟩ := Pairing.front_token?_some hw.start hnear₁ htoken hpast₂
    exact ⟨_, .units hrounds hs hname hdeclared,
      (Pairing.front_skipLine hw.start hnear₂.1).resolve_left hpast, hnear₂.2⟩
  | @keyword _ _ _ r₂ _ _ _ h htoken hname hundeclared hread ih =>
    obtain ⟨l, hl⟩ := (Keyword.reaches_of_read hread).forward
    have hpast' : ¬ (front w w').past r₂.skipLine.cursor := fun h =>
      hpast (hl ▸ Pairing.front_past_forward h l)
    obtain ⟨hpast₁, hpast₂, hjoins₁⟩ := hline htoken hpast'
    obtain ⟨s₁, hrounds, hnear₁⟩ := ih hpast₁ fun _ _ _ => hjoins₁
    obtain ⟨n, s₂, hs, hnear₂⟩ := Pairing.front_token?_some hw.start hnear₁ htoken hpast₂
    have hnear' : (front w w').readers.near r₂.skipLine s₂.skipLine :=
      ⟨(Pairing.front_skipLine hw.start hnear₂.1).resolve_left hpast', hnear₂.2⟩
    obtain ⟨s₃, hread', hnear₃⟩ := Keyword.read_alike hw hnear' hread hpast (hjoins _ rfl)
    exact ⟨s₃, .keyword hrounds hs hname hundeclared hread', hnear₃⟩

theorem iterate_of_rest [Calendar] (h : ReadM.iterate readStep d r = .ok d' r')
    (hrest : SameRest r s) : ∃ s', ReadM.iterate readStep d s = .ok d' s' := by
  have hpast : ∀ c, ¬ (front [] []).past c := fun c => Nat.not_lt_zero _
  obtain ⟨before, r₁, hrounds, htoken⟩ := exists_rounds h
  obtain ⟨s₁, hrounds', hnear₁⟩ := hrounds.alike sameNext_nil
    (sameRest_iff.mpr hrest) (hpast _) fun _ _ _ _ _ _ => Iff.rfl
  obtain ⟨s', hs, -⟩ := Pairing.front_token?_none sameStart_nil hnear₁ htoken (hpast _)
  refine ⟨s', ?_⟩
  rw [hrounds'.iterate]
  refine ReadM.iterate_of_done ?_
  rw [readStep, Run.bind_modifyGet_eq, hs]
  rfl

/-- A round only depends on the name, and on what is ahead after its line. -/
theorem NameRound.of_rest [Calendar] {r₁ s₁ : DeckReader} {t t' : Token} (h : NameRound d t r₁ r' d')
    (ht : t'.text = t.text) (hrest : SameRest r₁.skipLine s₁.skipLine) :
    ∃ s', NameRound d t' s₁ s' d' ∧ SameRest r' s' := by
  cases h with
  | units declared passed =>
    subst passed
    exact ⟨s₁.skipLine, .units (ht ▸ declared) rfl, hrest⟩
  | keyword undeclared body =>
    obtain ⟨s', hread, hnear⟩ := Keyword.read_alike sameNext_nil (sameRest_iff.mpr hrest) body
      (Nat.not_lt_zero _) fun _ _ _ _ => Iff.rfl
    exact ⟨s', .keyword (ht ▸ undeclared) (ht ▸ hread), sameRest_iff.mp hnear⟩

theorem exists_nameRound [Calendar] {r₁ r₂ : DeckReader} {t : Token} (htoken : r.token? = (some t, r₁))
    (h : ReadM.iterate readStep d r = .ok d' r₂) :
    isName t = true ∧
      ∃ d₁ r', NameRound d t r₁ r' d₁ ∧ ReadM.iterate readStep d₁ r' = .ok d' r₂ := by
  rw [ReadM.iterate.eq_def] at h
  split at h
  · cases h
  · next d₁ r' hstep =>
    have hnone := (readStep_eq_done hstep).1
    rw [htoken] at hnone
    cases hnone
  · next d₁ r' hstep =>
    obtain ⟨t', r₁', htoken', hname, hround⟩ := readStep_eq_next hstep
    rw [htoken] at htoken'
    cases htoken'
    split at h
    · exact ⟨hname, d₁, r', hround, h⟩
    · cases h

end Deck

end ReservoirDeck
