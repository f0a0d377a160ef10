import ReservoirDeck.Deck.Text
import ReservoirDeck.Proofs.Reading.Run

/-! What one round of reading a deck can do, and what holds of every deck that was read. -/

namespace ReservoirDeck.Deck

/-- A round that was read from a name. -/
inductive NameRound [Calendar] (d : Deck Float) (t : Token) (r r' : DeckReader) : Deck Float → Prop
  | units {units : UnitSystem} (declared : UnitSystem.ofKeyword? t.text = some units)
      (passed : r' = r.skipLine) : NameRound d t r r' { d with units }
  | keyword {k : Keyword Float} (undeclared : UnitSystem.ofKeyword? t.text = none)
      (body : Keyword.read t.text r.skipLine = .ok k r') : NameRound d t r r' (d.push k)

theorem readStep_eq_next [Calendar] {d d' : Deck Float} {r r' : DeckReader}
    (h : readStep d r = .ok (.inl d') r') :
    ∃ t r₁, r.token? = (some t, r₁) ∧ isName t = true ∧ NameRound d t r₁ r' d' := by
  simp only [readStep, Run.bind_modifyGet_eq] at h
  cases ht : r.token?.1 with
  | none => simp [ht] at h
  | some t =>
    have hr : r.token? = (some t, r.token?.2) := Prod.ext ht rfl
    simp only [ht] at h
    refine ⟨t, r.token?.2, hr, ?_⟩
    by_cases hn : isName t = true
    · refine ⟨hn, ?_⟩
      simp only [hn, if_true, ReadM.skipLine, Run.bind_modify_eq] at h
      cases hu : UnitSystem.ofKeyword? t.text with
      | some units =>
        simp only [hu, Run.pure_eq, EStateM.Result.ok.injEq, Sum.inl.injEq] at h
        obtain ⟨rfl, rfl⟩ := h
        exact .units hu rfl
      | none =>
        simp only [hu, Run.bind_eq_ok, Run.pure_eq, EStateM.Result.ok.injEq, Sum.inl.injEq] at h
        obtain ⟨k, r₁, hk, rfl, rfl⟩ := h
        exact .keyword hu hk
    · simp [hn] at h

theorem readStep_eq_done [Calendar] {d d' : Deck Float} {r r' : DeckReader}
    (h : readStep d r = .ok (.inr d') r') : r.token? = (none, r') ∧ d' = d := by
  simp only [readStep, Run.bind_modifyGet_eq] at h
  cases ht : r.token?.1 with
  | none =>
    simp only [ht, Run.pure_eq, EStateM.Result.ok.injEq, Sum.inr.injEq] at h
    exact ⟨Prod.ext ht h.2, h.1.symm⟩
  | some t =>
    simp only [ht] at h
    by_cases hn : isName t = true
    · simp only [hn, if_true, ReadM.skipLine, Run.bind_modify_eq] at h
      cases hu : UnitSystem.ofKeyword? t.text with
      | some units => simp [hu] at h
      | none => simp [hu, Run.map_eq_ok] at h
    · simp [hn] at h

theorem parse_eq_ok [Calendar] {text : String} {d : Deck Float} :
    parse text = .ok d ↔
      (∃ r, readAll (DeckReader.ofString text) = .ok d r) ∧ d.conflict? = none := by
  unfold parse
  cases readAll (DeckReader.ofString text) with
  | error => simp
  | ok d' r =>
    cases hconflict : d'.conflict? with
    | none => simpa [hconflict] using fun h => h ▸ hconflict
    | some _ =>
      simp only [hconflict, reduceCtorEq, EStateM.Result.ok.injEq, false_iff]
      rintro ⟨⟨_, rfl, -⟩, hnone⟩
      simp [hnone] at hconflict

/-- What holds of every keyword that is read holds of the keywords of a deck. -/
theorem forall_entries_of_parse [Calendar] {P : Entry Float → Prop}
    (hP : ∀ name r k r', Keyword.read name r = .ok k r' → P (.ofKeyword k)) {text : String}
    {d : Deck Float} (h : parse text = .ok d) : ∀ e ∈ d.entries, P e := by
  obtain ⟨⟨r, hread⟩, -⟩ := parse_eq_ok.mp h
  refine ReadM.iterate_invariant (I := fun d _ => ∀ e ∈ d.entries, P e)
    (Q := fun d _ => ∀ e ∈ d.entries, P e) ?_ ?_ (by simp [empty]) hread
  · intro s r s' r₁ hs hstep
    obtain ⟨t, r₂, -, -, hround⟩ := readStep_eq_next hstep
    cases hround with
    | units => exact hs
    | keyword _ hbody =>
      intro e he
      simp only [Deck.push, List.mem_append, List.mem_singleton] at he
      rcases he with he | rfl
      · exact hs e he
      · exact hP _ _ _ _ hbody
  · intro s r s' r₁ hs hstep
    obtain ⟨-, rfl⟩ := readStep_eq_done hstep
    exact hs

theorem unconverted_of_parse [Calendar] {text : String} {d : Deck Float} (h : parse text = .ok d) :
    ∀ e ∈ d.entries, e.converted = none :=
  forall_entries_of_parse (fun _ _ _ _ _ => rfl) h

end ReservoirDeck.Deck
