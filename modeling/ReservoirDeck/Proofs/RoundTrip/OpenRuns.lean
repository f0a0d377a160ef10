import ReservoirDeck.Keyword.Gregorian
import ReservoirDeck.Proofs.RoundTrip.Decks

/-!
Runs of data that no slash ends. A keyword that is not understood may end with one at the end of a
text. Its body is kept as it is, so whatever is written behind it becomes part of the run. The text of
every other such keyword ends where the next keyword starts.
-/

namespace ReservoirDeck

open Text (bytes)

/-- The first line of a text starts with a letter and holds no slash, or the text is empty. -/
theorem nextKeyword_bytes {s : String} (hletter : s.toList.head?.all Char.isAlpha = true)
    (hslash : '/' ∉ s.toList.takeWhile (· != '\n')) : NextKeyword (bytes s) where
  nextName := nextName_bytes hletter
  slash := by
    rw [Text.sameAscii_ne_newline.takeWhile_bytes]
    apply Text.sameAscii_ne_slash.not_mem_bytes
    rwa [String.toList_ofList]

namespace Ignored

/-- A body whose last run of data has a slash, if it ends with a run of data. -/
def IsClosed (s : String) : Prop :=
  s = "" ∨ Body (bytes s) true

theorem IsClosed.bodyText {s : String} {closed : Bool} (h : BodyText s closed) (hs : IsClosed s) :
    BodyText s true where
  pieces hne := hs.resolve_left hne
  trimmed := h.trimmed

theorem BodyText.isClosed {s : String} (h : BodyText s true) : IsClosed s := by
  by_cases hs : s = ""
  · exact .inl hs
  · exact .inr (h.pieces hs)

end Ignored

namespace Keyword

variable {k : Keyword Float} {name : String} {r r' : DeckReader}

/-- The text of a keyword that is not understood, after its name, is read as that keyword up to the
line of the next one. A run of data that no slash ends passes that line too. -/
theorem read_write_ignored [Calendar] (hname : Kind.ofName? name = none)
    (h : Keyword.read name r = .ok k r') :
    ∃ body text, k = .ignored name body ∧
      (k.write Writer.empty).text = name ++ "\n" ++ text ∧
        ∀ s : String, s.toList.head?.any Char.isAlpha = true →
          '/' ∉ s.toList.takeWhile (· != '\n') → Text.Fits (text ++ s) →
            (Keyword.read name (DeckReader.ofString (text ++ s)) =
                .ok k ⟨(Cursor.ofString (text ++ s)).forward (bytes text).length, none⟩ ↔
              Ignored.IsClosed body) := by
  obtain ⟨body, r₁, r₂, rfl, hread, -⟩ := read_eq_ignored hname h
  obtain ⟨closed, hbody, -⟩ := Ignored.read_sound hread
  obtain ⟨text, htext⟩ : ∃ text, bytes text = Ignored.bodyLine body := by
    unfold Ignored.bodyLine
    split
    · exact ⟨"", rfl⟩
    · exact ⟨body ++ "\n", Text.bytes_append ..⟩
  have hrest (s : String) (hfits : Text.Fits (text ++ s)) :
      (DeckReader.ofString (text ++ s)).cursor.rest = Ignored.bodyLine body ++ bytes s := by
    rw [← htext, ← Text.bytes_append]
    exact Cursor.rest_ofString hfits
  refine ⟨body, text, rfl, ?_, fun s hletter hslash hfits =>
    ⟨fun hagain => ?_, fun hclosed => ?_⟩⟩
  · apply Text.bytes_injective
    rw [(adds_ignored name body .empty rfl).1, Text.bytes_append, Text.bytes_append, htext]
    simp [Writer.empty, Byte.newline]
    rfl
  · -- Something is left behind the body, so the run of data that ends it was ended by a slash.
    obtain ⟨body', r₃, r₄, heq, hread', hcursor⟩ := read_eq_ignored hname hagain
    obtain ⟨-, rfl⟩ : name = name ∧ body = body' := by simpa using heq
    obtain ⟨closed', hbody', rfl | hnil⟩ := Ignored.read_sound hread'
    · exact hbody'.isClosed
    · have hempty : bytes s = [] := by
        rw [← DeckReader.rest_forward_length (hrest s hfits), ← htext, ← hnil, ← hcursor]
        rfl
      rw [Text.bytes_eq_nil] at hempty
      rw [hempty] at hletter
      cases hletter
  · have hall : s.toList.head?.all Char.isAlpha = true := by
      cases hs : s.toList.head? <;> simp_all
    have hagain := read_ignored hname (hclosed.bodyText hbody) (hrest s hfits) (.inl rfl)
      (nextKeyword_bytes hall hslash)
    rw [hagain, htext]
    rfl

/-- Data with a slash ends before every keyword. -/
theorem read_write_ignored_tuning :
    ∃ (k : Keyword Float) (r' : DeckReader),
      Keyword.read "TUNING" (DeckReader.ofString "\n1 2 /\n\n") = .ok k r' ∧
        (k.write Writer.empty).text = "TUNING" ++ "\n" ++ "1 2 /\n" ∧
          ∀ s : String, s.toList.head?.any Char.isAlpha = true →
            '/' ∉ s.toList.takeWhile (· != '\n') → Text.Fits ("1 2 /\n" ++ s) →
              Keyword.read "TUNING" (DeckReader.ofString ("1 2 /\n" ++ s)) =
                .ok k ⟨(Cursor.ofString ("1 2 /\n" ++ s)).forward 6, none⟩ := by
  have hread : (match Keyword.read "TUNING" (DeckReader.ofString "\n1 2 /\n\n") with
      | .ok (.ignored name body) _ => decide (name = "TUNING" ∧ body = "1 2 /")
      | .ok (.typed _ _) _ => false
      | .error _ _ => false) = true := by decide +kernel
  split at hread
  · next name body r' h =>
    obtain ⟨rfl, rfl⟩ := of_decide_eq_true hread
    have hclosed : Ignored.IsClosed "1 2 /" := by
      right
      refine @Ignored.Body.last [] _ true blank_nil ?_
      apply Ignored.Piece.data (.inl rfl) (by decide)
      repeat apply Ignored.Scans.byte (by decide)
      exact .nil true
    obtain ⟨body, text, hk, htext, hagain⟩ := read_write_ignored (by decide) h
    obtain ⟨-, rfl⟩ : "TUNING" = "TUNING" ∧ "1 2 /" = body := by simpa using hk
    obtain rfl : "1 2 /\n" = text := by
      have hwritten : ((Keyword.ignored "TUNING" "1 2 /" : Keyword Float).write .empty).text =
          "TUNING" ++ "\n" ++ "1 2 /\n" := rfl
      rw [hwritten] at htext
      exact (String.append_right_inj _).mp htext
    refine ⟨_, r', h, htext, fun s hletter hslash hfits => ?_⟩
    exact (hagain s hletter hslash hfits).mpr hclosed
  · cases hread
  · cases hread

/-- Data without a slash passes the next keyword, and all that comes after it. -/
theorem read_write_ignored_swfn :
    ∃ (k : Keyword Float) (r' : DeckReader),
      Keyword.read "SWFN" (DeckReader.ofString "0 1") = .ok k r' ∧
        (k.write Writer.empty).text = "SWFN" ++ "\n" ++ "0 1\n" ∧
          ∃ r'', Keyword.read "SWFN" (DeckReader.ofString ("0 1\n" ++ "TSTEP\n1 /\n")) =
              .ok (.ignored "SWFN" "0 1\nTSTEP\n1 /") r'' ∧
            r''.cursor.rest = [] := by
  have hread : (match Keyword.read "SWFN" (DeckReader.ofString "0 1") with
      | .ok (.ignored name body) _ => decide (name = "SWFN" ∧ body = "0 1")
      | .ok (.typed _ _) _ => false
      | .error _ _ => false) = true := by decide +kernel
  have hagain :
      (match Keyword.read "SWFN" (DeckReader.ofString ("0 1\n" ++ "TSTEP\n1 /\n")) with
      | .ok (.ignored name body) r => decide (name = "SWFN" ∧ body = "0 1\nTSTEP\n1 /" ∧
          r.cursor.rest = [])
      | .ok (.typed _ _) _ => false
      | .error _ _ => false) = true := by decide +kernel
  split at hread
  · next name body r' h =>
    obtain ⟨rfl, rfl⟩ := of_decide_eq_true hread
    split at hagain
    · next name body r'' h' =>
      obtain ⟨rfl, rfl, hend⟩ := of_decide_eq_true hagain
      exact ⟨_, r', h, by decide, r'', h', hend⟩
    · cases hagain
    · cases hagain
  · cases hread
  · cases hread

end Keyword

end ReservoirDeck
