import ReservoirDeck.Keyword.Gregorian
import ReservoirDeck.Proofs.Alike.Layouts
import ReservoirDeck.Proofs.Alike.Lines

/-!
Comment lines. A comment that stands on lines of its own is passed over wherever something is read, so
the body of a keyword is the same with and without it, unless it is one line of text.
-/

namespace ReservoirDeck

open Text (bytes)

namespace Pairing

/-- Places with the same bytes ahead, after blanks and comments. -/
def afterTrivia : Pairing where
  near c d := d.skipTrivia.rest = c.skipTrivia.rest
  past _ := False
  excused _ := False

variable {c d : Cursor} {r s : DeckReader}

theorem afterTrivia_of_rest (h : d.rest = c.rest) : afterTrivia.near c d := by
  change (d.forward _).rest = (c.forward _).rest
  rw [Cursor.rest_forward, Cursor.rest_forward, h]

/-- An action that starts with skipping blanks and comments, and is alike where the same bytes are
ahead. -/
theorem afterTrivia_alike {α : Type} {x : ReadM α} (hx : (front [] []).readers.Alike x)
    (hskip : ∀ r : DeckReader, x r.skipTrivia = x r) : afterTrivia.readers.Alike x := by
  intro r
  constructor
  · intro s h
    have hsame : (front [] []).readers.near r.skipTrivia s.skipTrivia :=
      ⟨⟨r.skipTrivia.cursor.rest, by simp, by rw [List.append_nil]; exact h.1⟩, h.2⟩
    have hout := (hx r.skipTrivia).near s.skipTrivia hsame
    rw [hskip r, hskip s] at hout
    refine hout.mono ?_ (fun q hpast => absurd hpast (Nat.not_lt_zero _)) fun _ => id
    rintro r' s' ⟨⟨z, hr, hs⟩, hkeyword⟩
    exact ⟨afterTrivia_of_rest (hs.trans hr.symm), hkeyword⟩
  · intro hpast
    exact hpast.elim

theorem lawful_afterTrivia : afterTrivia.Lawful where
  past_forward h := h.elim
  item := by
    refine afterTrivia_alike (front_item sameStart_nil) fun r => ?_
    unfold ReadM.item
    rw [r.token?_skipTrivia]
  tokenText := by
    refine afterTrivia_alike (front_tokenText sameStart_nil) fun r => ?_
    rw [ReadM.tokenText_eq, ReadM.tokenText_eq, r.token?_skipTrivia]
  terminator := by
    refine afterTrivia_alike (front_terminator sameStart_nil) fun r => ?_
    change EStateM.Result.ok r.skipTrivia.terminator.1 r.skipTrivia.terminator.2 =
      .ok r.terminator.1 r.terminator.2
    rw [r.terminator_skipTrivia]
  skipTrivia h := .inr (afterTrivia_of_rest h)
  lookahead := by
    intro c d h
    refine .inr (.inl ?_)
    rw [Cursor.lookahead_eq_head, Cursor.lookahead_eq_head, h]

end Pairing

theorem triviaSize_comment {c : String} (hc : '\n' ∉ c.toList) (rest : List UInt8) :
    Cursor.triviaSize false (bytes ("--" ++ c ++ "\n") ++ rest) =
      (bytes ("--" ++ c ++ "\n")).length + Cursor.triviaSize false rest := by
  have hline : Byte.newline ∉ bytes ("--" ++ c) := by
    rw [Text.bytes_append, List.mem_append, not_or]
    exact ⟨by decide, Text.sameAscii_ne_newline.not_mem_bytes hc⟩
  have hdashes : [Byte.dash, Byte.dash] <+: bytes ("--" ++ c ++ "\n") ++ rest := by
    rw [Text.bytes_append, Text.bytes_append, List.append_assoc, List.append_assoc]
    exact List.prefix_append ..
  have hbreak : bytes ("--" ++ c ++ "\n") ++ rest = bytes ("--" ++ c) ++ Byte.newline :: rest := by
    rw [Text.bytes_append _ "\n", List.append_assoc]
    rfl
  have hlength : (bytes ("--" ++ c ++ "\n")).length = (bytes ("--" ++ c)).length + 1 := by
    rw [Text.bytes_append _ "\n", List.length_append]
    rfl
  rw [triviaSize_dashes hdashes, hbreak, lineSize_append hline, ← hlength, ← hbreak, List.drop_left]

/-- Only a title is one line of text. -/
theorem Kind.eq_title_of_layout {kind : Kind} (h : kind.layout = .title) : kind = .title := by
  cases kind with
  | title => rfl
  | _ => cases h

namespace Keyword

/-- A comment line between the lines of a body changes nothing. -/
theorem read_comment [Calendar] {kind : Kind} (hkind : kind ≠ .title) {p c : String}
    (hp : p = "" ∨ ∃ p', p = p' ++ "\n") (hc : '\n' ∉ c.toList) {q : String}
    (hfits : Text.Fits (p ++ ("--" ++ c ++ "\n") ++ q)) :
    Run.answer (Keyword.read kind.name (.ofString (p ++ ("--" ++ c ++ "\n") ++ q))) =
      Run.answer (Keyword.read kind.name (.ofString (p ++ q))) := by
  have hstart : ∀ x y : Cursor, x.rest = bytes q → y.rest = bytes ("--" ++ c ++ "\n") ++ bytes q →
      Pairing.afterTrivia.near x y := by
    intro x y hx hy
    change (y.forward _).rest = (x.forward _).rest
    rw [Cursor.rest_forward, Cursor.rest_forward, hx, hy, triviaSize_comment hc, ← List.drop_drop,
      List.drop_left]
  have hread : (Pairing.lines (bytes q) (bytes ("--" ++ c ++ "\n") ++ bytes q)
      Pairing.afterTrivia).readers.Alike (Keyword.read kind.name) :=
    Pairing.keyword (Pairing.lawful_lines hstart Pairing.lawful_afterTrivia) kind.ofName?_name
      fun htitle => absurd (Kind.eq_title_of_layout htitle) hkind
  have hplain : (Cursor.ofString (p ++ q)).rest = bytes p ++ bytes q := by
    rw [Cursor.rest_ofString (hfits.drop_middle), Text.bytes_append]
  have hcomment : (Cursor.ofString (p ++ ("--" ++ c ++ "\n") ++ q)).rest =
      bytes p ++ (bytes ("--" ++ c ++ "\n") ++ bytes q) := by
    rw [Cursor.rest_ofString hfits, Text.bytes_append, Text.bytes_append, List.append_assoc]
  have hnear := Pairing.lines_forward hstart (Lines.bytes hp) hplain hcomment (Nat.zero_le _)
  have hout := (hread (.ofString (p ++ q))).near (.ofString (p ++ ("--" ++ c ++ "\n") ++ q))
    ⟨hnear, rfl⟩
  exact hout.answer_eq (fun _ => id) fun _ => id

/-- A comment with a slash and a quote, on a line of its own inside a record. -/
theorem read_comment_multflt :
    Kind.multflt ≠ .title ∧ '\n' ∉ " a/b 'c".toList ∧
      Text.Fits ("F1\n" ++ ("--" ++ " a/b 'c" ++ "\n") ++ "2* / F2 0.5 /\n/\n") ∧
      Run.answer (Keyword.read Kind.multflt.name
          (.ofString ("F1\n" ++ ("--" ++ " a/b 'c" ++ "\n") ++ "2* / F2 0.5 /\n/\n"))) =
        Run.answer (Keyword.read Kind.multflt.name (.ofString ("F1\n" ++ "2* / F2 0.5 /\n/\n"))) := by
  have hkind : Kind.multflt ≠ .title := by decide
  have hc : '\n' ∉ " a/b 'c".toList := by decide
  have hfits : Text.Fits ("F1\n" ++ ("--" ++ " a/b 'c" ++ "\n") ++ "2* / F2 0.5 /\n/\n") := by
    decide +kernel
  exact ⟨hkind, hc, hfits, read_comment hkind (.inr ⟨"F1", rfl⟩) hc hfits⟩

end Keyword

end ReservoirDeck
