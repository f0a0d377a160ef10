import ReservoirDeck.Keyword.Gregorian
import ReservoirDeck.Proofs.Reading.Ignored
import ReservoirDeck.Proofs.Reading.Layouts

/-!
Reading the body of a keyword. It ends ahead of where it starts and within the text, and an error names
the keyword and the place where reading stopped. Nothing but reading can have gone wrong by then.
-/

namespace ReservoirDeck

theorem Cursor.lineSize_pos {bs : List UInt8} (h : bs ≠ []) : 0 < lineSize bs := by
  cases bs with
  | nil => exact absurd rfl h
  | cons b rest =>
    unfold lineSize
    split <;> exact Nat.succ_pos _

namespace Ignored

theorem dataSize_le (seen : Bool) (bs : List UInt8) : dataSize seen bs ≤ bs.length := by
  fun_induction dataSize seen bs <;> simp <;> omega

theorem dataSize_pos (seen : Bool) {bs : List UInt8} (h : bs ≠ []) : 0 < dataSize seen bs := by
  fun_cases dataSize seen bs <;> simp at h ⊢

theorem step_progresses (stop : Nat) : ReadM.RoundProgresses (step stop) := by
  intro r stop' r' h
  obtain ⟨hsome, n, hround, -, rfl⟩ := step_eq_next.mp h
  have hne : r.cursor.skipBlanks.rest ≠ [] := by simpa [Cursor.atEnd] using hsome
  have hpos : 0 < n := by
    cases hround with
    | data _ _ => exact dataSize_pos false hne
    | _ => exact Cursor.lineSize_pos hne
  exact Nat.lt_of_lt_of_le (Cursor.remaining_forward_lt hne hpos) (Cursor.remaining_forward_le _ _)

/-- A round stops after the blanks, or passes a line or a run of data from there. -/
theorem orderly_step (stop : Nat) : (step stop).Orderly where
  reaches r := by
    have hblanks : r.Reaches (r.moveTo r.cursor.skipBlanks) :=
      ⟨⟨_, (List.takeWhile_sublist _).length_le, rfl⟩, rfl⟩
    have hline : r.Reaches (r.moveTo r.cursor.skipBlanks.skipLine) :=
      hblanks.trans (DeckReader.reaches_skipLine _)
    have hdata : r.Reaches (r.moveTo (passData r.cursor.skipBlanks)) :=
      hblanks.trans ⟨⟨_, dataSize_le false _, rfl⟩, rfl⟩
    rw [step_eq]
    generalize r.cursor.skipBlanks = c at hblanks hline hdata
    dsimp only
    split
    · exact hblanks
    split
    · exact hline
    split
    · exact hline
    · split
      · exact hline
      · exact hblanks
    · exact hdata
    · exact hdata
    · exact hblanks
  reports {r r' e} h := by
    rw [step_eq] at h
    dsimp only at h
    split at h
    · cases h
    split at h
    · cases h
    split at h
    · cases h
    · split at h <;> cases h
    · cases h
    · cases h
    · cases h
      exact ⟨rfl, trivial⟩

theorem orderly_read : Ignored.read.Orderly :=
  .bind .get fun r => (Run.Orderly.iterate orderly_step step_progresses r.pos).bind fun _ =>
    .bind .get fun _ => .pure _

end Ignored

theorem ReadM.state_inKeyword {α : Type} (name : String) (x : ReadM α) (r : DeckReader) :
    Run.state (inKeyword name x r) =
      { Run.state (x { r with keyword := some name }) with keyword := none } := by
  unfold inKeyword
  cases x { r with keyword := some name } <;> rfl

theorem ReadM.inKeyword_eq_error {α : Type} {name : String} {x : ReadM α} {r r' : DeckReader}
    {e : DeckError} : inKeyword name x r = .error e r' ↔
      ∃ r₁, x { r with keyword := some name } = .error e r₁ ∧ r' = { r₁ with keyword := none } := by
  unfold inKeyword
  cases x { r with keyword := some name } <;> simp [eq_comm]

theorem Cause.code_of_arisesAt {r : DeckReader} {cause : Cause} (h : cause.ArisesAt r) :
    cause.code ∈ [.unexpectedEnd, .unreadableValue, .malformedRecord] ∧
      (cause.code = .unexpectedEnd → r.cursor.rest = []) := by
  cases cause with
  | unexpectedEnd => exact ⟨by decide, fun _ => h⟩
  | unreadable found => exact ⟨by simp [code], fun hcode => by cases hcode⟩
  | malformed defect => exact ⟨by simp [code], fun hcode => by cases hcode⟩
  | inconsistent conflict => exact h.elim
  | unsupported unit => exact h.elim

theorem DeckReader.next_of_end {r : DeckReader} (h : r.cursor.rest = []) (cause : Cause) :
    (r.error cause).next = none := by
  have hnext : r.cursor.peekSignificant = 0 := by
    simp [Cursor.peekSignificant, Cursor.skipBlanks, Cursor.skipWhile, Cursor.current, h]
  simp [error, hnext]

theorem ErrorCode.text_injective {a b : ErrorCode} (h : a.text = b.text) : a = b := by
  cases a <;> cases b <;> first | rfl | exact absurd h (by decide)

namespace Keyword

variable {name : String} {k : Keyword Float} {r r' : DeckReader}

/-- A body is read with the name of its keyword in every error, whether it is understood or not. -/
theorem read_eq_inKeyword [Calendar] (name : String) :
    ∃ body : ReadM (Keyword Float), body.Orderly ∧ Keyword.read name = ReadM.inKeyword name body := by
  unfold Keyword.read
  cases hkind : Kind.ofName? name with
  | some kind =>
    rw [← Kind.name_of_ofName? hkind]
    exact ⟨_, (Layout.orderly_read kind.isWritable_layout).bind fun _ => .pure _, rfl⟩
  | none => exact ⟨_, Ignored.orderly_read.bind fun _ => .pure _, rfl⟩

/-- Reading a body ends ahead, within the text, whether it succeeds or fails. -/
theorem reaches_read [Calendar] (name : String) (r : DeckReader) :
    r.cursor.Reaches (Run.state (Keyword.read name r)).cursor := by
  obtain ⟨body, hbody, hread⟩ := read_eq_inKeyword name
  rw [hread, ReadM.state_inKeyword]
  exact (hbody.reaches { r with keyword := some name }).cursor

theorem reaches_of_read [Calendar] (h : Keyword.read name r = .ok k r') : r.cursor.Reaches r'.cursor := by
  have hreaches := reaches_read name r
  rwa [h] at hreaches

/-- An error names the keyword and the place where reading stopped. It is no conflict and no failed
conversion, and the text ended too early only if nothing of it is left. The name of the keyword is not
kept beyond its body. -/
theorem read_error_context [Calendar] (name : String) (r : DeckReader) :
    (Run.state (Keyword.read name r)).keyword = none ∧
      ∀ e r', Keyword.read name r = .error e r' →
        e.keyword = some name ∧ e.location = some r'.cursor.location ∧
          e.code.text ∈ ["E0001", "E1001", "E1002"] ∧
            (e.code.text = "E0001" → r'.cursor.atEnd = true ∧ e.next = none) := by
  obtain ⟨body, hbody, hread⟩ := read_eq_inKeyword name
  rw [hread]
  constructor
  · rw [ReadM.state_inKeyword]
  intro e r' h
  obtain ⟨r₁, herror, rfl⟩ := ReadM.inKeyword_eq_error.mp h
  obtain ⟨hplace, hcause⟩ := hbody.reports herror
  have hkeyword : r₁.keyword = some name := by
    have hreaches := hbody.reaches { r with keyword := some name }
    rw [herror] at hreaches
    exact hreaches.keyword
  obtain ⟨hcode, hend⟩ := Cause.code_of_arisesAt hcause
  refine ⟨hplace ▸ hkeyword, hplace ▸ rfl, ?_, fun htext => ?_⟩
  · exact List.mem_map_of_mem (f := ErrorCode.text) hcode
  · have hrest := hend (ErrorCode.text_injective htext)
    exact ⟨List.isEmpty_iff.mpr hrest, hplace ▸ DeckReader.next_of_end hrest _⟩

theorem read_error_context_tstep :
    ∃ e r', Keyword.read "TSTEP" (DeckReader.ofString "1 2*3 -- no slash\n") = .error e r' ∧
      e.code.text = "E0001" ∧ r'.cursor.location = ⟨2, 1⟩ ∧
        e.keyword = some "TSTEP" ∧ e.location = some ⟨2, 1⟩ ∧ e.next = none := by
  have hread : (match Keyword.read "TSTEP" (DeckReader.ofString "1 2*3 -- no slash\n") with
      | .ok _ _ => false
      | .error e r' => decide (e.code.text = "E0001" ∧ r'.cursor.location = ⟨2, 1⟩)) = true := by
    decide +kernel
  split at hread
  · cases hread
  · next e r' herror =>
    obtain ⟨hcode, hplace⟩ := of_decide_eq_true hread
    obtain ⟨hkeyword, hlocation, -, hend⟩ := (read_error_context _ _).2 e r' herror
    exact ⟨e, r', herror, hcode, hplace, hkeyword, hplace ▸ hlocation, (hend hcode).2⟩

end Keyword

end ReservoirDeck
