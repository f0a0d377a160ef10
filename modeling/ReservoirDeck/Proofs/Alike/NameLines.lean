import ReservoirDeck.Keyword.Gregorian
import ReservoirDeck.Proofs.Alike.Decks
import ReservoirDeck.Proofs.RoundTrip.Decks

/-!
Lines with the name of a keyword. What follows the name on its line can be anything, as long as the
keyword before it ends there: one that is not understood goes on over lines that hold a slash.
-/

namespace ReservoirDeck

open Text (bytes held)

theorem DeckReader.token?_name {r r₁ : DeckReader} {t : Token} (h : r.token? = (some t, r₁))
    (hname : Deck.isName t = true) :
    r.skipTrivia.cursor.rest = bytes t.text ++ r₁.cursor.rest ∧ Separated r₁.cursor.rest ∧
      r₁ = r.skipTrivia.forward (bytes t.text).length := by
  obtain ⟨b, l, hb, hletter⟩ := (keywordName_of_token? h hname).cons
  have hbare : t.quoting = .bare := by
    simp only [Deck.isName, Token.isQuoted, Bool.and_eq_true, Bool.not_eq_true', bne_eq_false_iff_eq]
      at hname
    exact hname.1
  have hall : ∀ b, Byte.isLetter b = true → Byte.endsBare b = false :=
    Byte.forall_of_digits (by decide)
  exact token?_bare h hbare hb (hall b hletter)

theorem KeywordName.token?_of_skipTrivia {name : String} (h : KeywordName name) {s : DeckReader}
    {rest : List UInt8} (hs : s.skipTrivia.cursor.rest = bytes name ++ rest)
    (hrest : Separated rest) :
    s.token? = (some ⟨name, .bare, s.skipTrivia.pos⟩, s.skipTrivia.forward (bytes name).length) := by
  obtain ⟨first, tl, hb, -, -, hlex⟩ := (Word.bare h.bare).lexeme hrest
  rw [hb, List.cons_append] at hs
  rw [DeckReader.token?_of_cons hs, hlex, Text.ofBytes_bytes]

theorem rest_skipLine {r : DeckReader} {y rest : List UInt8} (hy : Byte.newline ∉ y)
    (hr : r.cursor.rest = y ++ rest) :
    r.skipLine.cursor.rest = rest.drop (Cursor.lineSize rest) := by
  change (r.cursor.forward (Cursor.lineSize r.cursor.rest)).rest = _
  rw [Cursor.rest_forward, hr, lineSize_add hy, ← List.drop_drop, List.drop_left]

namespace Deck

variable {before : Option (Keyword Float)} {d D : Deck Float} {r r₁ : DeckReader} {t : Token}
  {text text' : String} {y y' rest : List UInt8}

theorem Rounds.rest_of_token? [Calendar] {t? : Option Token}
    (h : Rounds (empty .metric) (.ofString text) before d r) (htoken : r.token? = (t?, r₁)) :
    r₁.cursor.rest = (held text).drop r₁.pos := by
  obtain ⟨m, hm⟩ := h.reaches.forward
  obtain ⟨n, hn⟩ := (DeckReader.reaches_token? htoken).cursor.forward
  have htext : r₁.cursor.text = held text := by
    rw [hn, hm]
    rfl
  rw [r₁.cursor.rest_eq, htext]
  rfl

theorem Rounds.split_name [Calendar] (h : Rounds (empty .metric) (.ofString text) before d r)
    (htoken : r.token? = (some t, r₁)) (hname : isName t = true) :
    ∃ x, held text = x ++ (bytes t.text ++ r₁.cursor.rest) ∧
      (held text).take r₁.pos = x ++ bytes t.text := by
  obtain ⟨n, hn⟩ := h.reaches.forward
  obtain ⟨hhere, -, hr₁⟩ := DeckReader.token?_name htoken hname
  have htext : r.cursor.text = held text := by
    rw [hn]
    rfl
  have hrest : (held text).drop r.skipTrivia.pos = bytes t.text ++ r₁.cursor.rest := by
    rw [← htext, ← hhere]
    exact r.skipTrivia.cursor.rest_eq.symm
  have hpos : r₁.pos = r.skipTrivia.pos + (bytes t.text).length := by
    rw [hr₁]
    rfl
  refine ⟨(held text).take r.skipTrivia.pos, ?_, ?_⟩
  · rw [← hrest, List.take_append_drop]
  · rw [hpos, List.take_add, hrest, List.take_left]

/-- The rounds up to a name do not depend on what follows it on its line, where the keyword before it
ends there. -/
theorem Rounds.nameLine [Calendar] (h : Rounds (empty .metric) (.ofString text) before d r)
    (htoken : r.token? = (some t, r₁)) (hname : isName t = true)
    (hrest : r₁.cursor.rest = y ++ rest) (hy : Byte.newline ∉ y)
    (htext' : held text' = (held text).take r₁.pos ++ (y' ++ rest)) (hy' : Byte.newline ∉ y')
    (hsep : Separated (y' ++ rest))
    (hslash : ∀ k ∈ before, k.kind? = none → (Byte.slash ∈ y' ↔ Byte.slash ∈ y)) :
    ∃ s t' s₁, Rounds (empty .metric) (.ofString text') before d s ∧ s.token? = (some t', s₁) ∧
      t'.text = t.text ∧ isName t' = true ∧ s₁.cursor.rest = y' ++ rest ∧
        s₁.keyword = r₁.keyword := by
  have hword := keywordName_of_token? htoken hname
  obtain ⟨hhere, -, hr₁⟩ := DeckReader.token?_name htoken hname
  obtain ⟨x, hsplit, htake⟩ := h.split_name htoken hname
  rw [htake, List.append_assoc] at htext'
  rw [hrest] at hhere hsplit
  have hw : SameNext (bytes t.text ++ (y ++ rest)) (bytes t.text ++ (y' ++ rest)) := by
    obtain ⟨b, l, hb, hletter⟩ := hword.cons
    rw [hb]
    exact ⟨rfl, fun b' hb' => by cases hb'; exact hletter⟩
  have hline : ∀ y, Byte.newline ∉ y → ∀ b ∈ bytes t.text ++ y, (b != Byte.newline) = true := by
    intro y hy b hb
    refine bne_iff_ne.mpr (ne_of_mem_of_not_mem hb ?_)
    simp [hword.not_mem.1, hy]
  have hjoins : ∀ k ∈ before, k.kind? = none →
      Joins (bytes t.text ++ (y ++ rest)) (bytes t.text ++ (y' ++ rest)) r.cursor := by
    intro k hk hkind z _ _
    rw [← List.append_assoc, ← List.append_assoc, List.takeWhile_append_of_pos (hline y' hy'),
      List.takeWhile_append_of_pos (hline y hy)]
    simp only [List.mem_append, hslash k hk hkind]
  generalize bytes t.text ++ (y ++ rest) = w at *
  generalize hw' : bytes t.text ++ (y' ++ rest) = w' at *
  have hpast : ¬ (Pairing.front w w').past r.skipTrivia.cursor := by
    change ¬ r.skipTrivia.cursor.rest.length < w.length
    rw [hhere]
    exact Nat.lt_irrefl _
  obtain ⟨s, hrounds, hnear⟩ := h.alike hw (s := .ofString text') ⟨⟨_, hsplit, htext'⟩, rfl⟩
    (fun h => hpast (Pairing.front_past_forward h _)) hjoins
  have hs : s.skipTrivia.cursor.rest = w' := by
    obtain ⟨z, hz, hz'⟩ := (Pairing.front_skipTrivia hw.start hnear.1).resolve_left hpast
    obtain rfl : z = [] := by
      have hlen := congrArg List.length (hz.symm.trans hhere)
      simpa using hlen
    exact hz'
  rw [← hw'] at hs
  have htoken' := hword.token?_of_skipTrivia hs hsep
  refine ⟨s, _, _, hrounds, htoken', rfl, ?_, ?_, ?_⟩
  · simpa [isName, Token.isQuoted] using hword.letter
  · exact DeckReader.rest_forward_length hs
  · rw [hr₁]
    exact hnear.2.symm

/-- What follows a name on its line is ignored, where the keyword before it ends there. -/
theorem parse_of_nameLine [Calendar] (hparse : parse text = .ok D)
    (hrounds : Rounds (empty .metric) (.ofString text) before d r)
    (htoken : r.token? = (some t, r₁)) (hrest : r₁.cursor.rest = y ++ rest)
    (hy : Byte.newline ∉ y)
    (htext' : held text' = (held text).take r₁.pos ++ (y' ++ rest)) (hy' : Byte.newline ∉ y')
    (hsep : Separated (y' ++ rest))
    (hslash : ∀ k ∈ before, k.kind? = none → (Byte.slash ∈ y' ↔ Byte.slash ∈ y)) :
    parse text' = .ok D := by
  obtain ⟨⟨rD, hread⟩, hconflict⟩ := parse_eq_ok.mp hparse
  rw [readAll, hrounds.iterate] at hread
  obtain ⟨hname, d', r', hround, hread'⟩ := exists_nameRound htoken hread
  obtain ⟨s, t', s₁, hrounds', htoken', htext, hname', hs₁, hkeyword⟩ :=
    hrounds.nameLine htoken hname hrest hy htext' hy' hsep hslash
  have hsame : SameRest r₁.skipLine s₁.skipLine :=
    ⟨by rw [rest_skipLine hy hrest, rest_skipLine hy' hs₁], hkeyword⟩
  obtain ⟨s', hround', hsame'⟩ := hround.of_rest htext hsame
  obtain ⟨sD, hend⟩ := iterate_of_rest hread' hsame'
  refine parse_eq_ok.mpr ⟨⟨sD, ?_⟩, hconflict⟩
  rw [readAll, hrounds'.iterate, iterate_of_nameRound htoken' hname' hround', hend]

/-- A comment after the name of a keyword is ignored, where the keyword before it is understood or the
comment holds no slash. -/
theorem parse_comment [Calendar] {u v c : String} (hparse : parse (u ++ v) = .ok D)
    (hrounds : Rounds (empty .metric) (.ofString (u ++ v)) before d r)
    (htoken : r.token? = (some t, r₁)) (hline : r₁.cursor.toLineEnd.pos = (bytes u).length)
    (hc : '\n' ∉ c.toList) (hslash : ∀ k ∈ before, k.kind? = none → '/' ∉ c.toList)
    (hfits : Text.Fits (u ++ " --" ++ c ++ v)) : parse (u ++ " --" ++ c ++ v) = .ok D := by
  obtain ⟨⟨rD, hread⟩, -⟩ := parse_eq_ok.mp hparse
  rw [readAll, hrounds.iterate] at hread
  obtain ⟨hname, -⟩ := exists_nameRound htoken hread
  obtain ⟨-, hsep, -⟩ := DeckReader.token?_name htoken hname
  have hplain : held (u ++ v) = bytes (u ++ v) := by
    have hjoin : u ++ " --" ++ c = u ++ (" --" ++ c) := String.append_assoc
    rw [hjoin] at hfits
    exact Text.held_of_fits hfits.drop_middle
  have hpos : r₁.pos + r₁.cursor.line.length = (bytes u).length := hline
  have hle : r₁.pos ≤ (bytes u).length := by omega
  have hahead : r₁.cursor.rest = (bytes u).drop r₁.pos ++ bytes v := by
    rw [hrounds.rest_of_token? htoken, hplain, Text.bytes_append, List.drop_append_of_le_length hle]
  have hlast : r₁.cursor.line = (bytes u).drop r₁.pos := by
    have hprefix : r₁.cursor.line <+: r₁.cursor.rest := List.takeWhile_prefix _
    rw [List.prefix_iff_eq_take.mp hprefix, hahead]
    exact List.take_left' (by rw [List.length_drop]; omega)
  rw [← hlast] at hahead
  have hcomment : bytes (" --" ++ c) = Byte.space :: Byte.dash :: Byte.dash :: bytes c :=
    Text.bytes_append ..
  have hbreak : Byte.newline ∉ r₁.cursor.line := fun hmem => by
    simpa using List.mem_takeWhile_imp hmem
  have htext' : held (u ++ " --" ++ c ++ v) = (held (u ++ v)).take r₁.pos ++
      (r₁.cursor.line ++ bytes (" --" ++ c) ++ bytes v) := by
    rw [Text.held_of_fits hfits, hplain, Text.bytes_append u v, List.take_append_of_le_length hle, hlast, ← List.append_assoc,
      ← List.append_assoc, List.take_append_drop]
    simp only [Text.bytes_append, List.append_assoc]
  refine parse_of_nameLine hparse hrounds htoken hahead hbreak htext' ?_ ?_ ?_
  · rw [List.mem_append, not_or, hcomment]
    refine ⟨hbreak, ?_⟩
    simpa [Byte.newline, Byte.space, Byte.dash] using Text.sameAscii_ne_newline.not_mem_bytes hc
  · rw [List.append_assoc]
    intro b hb
    cases hy : r₁.cursor.line with
    | nil =>
      rw [hy, hcomment] at hb
      cases hb
      rfl
    | cons a y =>
      rw [hy] at hb hahead
      exact hsep b (by rwa [hahead])
  · intro k hk hkind
    have hno : Byte.slash ∉ bytes (" --" ++ c) := by
      rw [hcomment]
      simpa [Byte.slash, Byte.space, Byte.dash] using
        Text.sameAscii_ne_slash.not_mem_bytes (hslash k hk hkind)
    rw [List.mem_append, or_iff_left hno]

/-- The second name of a deck, after a keyword that is not understood. -/
theorem rounds_tuning :
    ∃ k d r t r₁, Rounds (empty .metric) (.ofString ("TUNING\n1 2 /\nTSTEP" ++ "\n1 /\n")) (some k) d r ∧
      k.kind? = none ∧ r.token? = (some t, r₁) ∧
        r₁.cursor.toLineEnd.pos = (bytes "TUNING\n1 2 /\nTSTEP").length := by
  have hname : (DeckReader.ofString ("TUNING\n1 2 /\nTSTEP" ++ "\n1 /\n")).token?.1 =
      some ⟨"TUNING", .bare, 0⟩ := by decide
  have hread : (match Keyword.read "TUNING"
        (DeckReader.ofString ("TUNING\n1 2 /\nTSTEP" ++ "\n1 /\n")).token?.2.skipLine with
      | .ok k r => decide (k.kind? = none ∧ r.token?.1 = some ⟨"TSTEP", .bare, 13⟩ ∧
          r.token?.2.cursor.toLineEnd.pos = (bytes "TUNING\n1 2 /\nTSTEP").length)
      | _ => false) = true := by decide +kernel
  split at hread
  · next k r h =>
    obtain ⟨hkind, htoken, hline⟩ := of_decide_eq_true hread
    exact ⟨k, _, r, _, _, .keyword .start (Prod.ext hname rfl) rfl rfl h, hkind,
      Prod.ext htoken rfl, hline⟩
  · cases hread

/-- A comment without a slash, after a name that comes behind a keyword that is not understood. -/
theorem parse_comment_tuning :
    ∃ D, parse ("TUNING\n1 2 /\nTSTEP" ++ "\n1 /\n") = .ok D ∧
      Text.Fits ("TUNING\n1 2 /\nTSTEP" ++ " --" ++ " one day" ++ "\n1 /\n") ∧
      parse ("TUNING\n1 2 /\nTSTEP" ++ " --" ++ " one day" ++ "\n1 /\n") = .ok D := by
  obtain ⟨k, d, r, t, r₁, hrounds, -, htoken, hline⟩ := rounds_tuning
  cases hparse : parse ("TUNING\n1 2 /\nTSTEP" ++ "\n1 /\n") with
  | ok D =>
    have hfits : Text.Fits ("TUNING\n1 2 /\nTSTEP" ++ " --" ++ " one day" ++ "\n1 /\n") := by
      decide +kernel
    exact ⟨D, rfl, hfits,
      parse_comment hparse hrounds htoken hline (by decide) (fun _ _ _ => by decide) hfits⟩
  | error e =>
    have hok : (parse ("TUNING\n1 2 /\nTSTEP" ++ "\n1 /\n")).isOk = true := by decide +kernel
    rw [hparse] at hok
    cases hok

/-- With a slash in the comment, the keyword before it goes on over the name. -/
theorem parse_comment_slash :
    ∃ before d r t r₁ D D', parse ("TUNING\n1 2 /\nTSTEP" ++ "\n1 /\n") = .ok D ∧
      Rounds (empty .metric) (.ofString ("TUNING\n1 2 /\nTSTEP" ++ "\n1 /\n")) before d r ∧
        r.token? = (some t, r₁) ∧
          r₁.cursor.toLineEnd.pos = (bytes "TUNING\n1 2 /\nTSTEP").length ∧
            parse ("TUNING\n1 2 /\nTSTEP" ++ " --" ++ " a/b" ++ "\n1 /\n") = .ok D' ∧
              D.keywords.map Keyword.name = ["TUNING", "TSTEP"] ∧
                D'.keywords.map Keyword.name = ["TUNING"] := by
  obtain ⟨k, d, r, t, r₁, hrounds, -, htoken, hline⟩ := rounds_tuning
  have hplain : (match parse ("TUNING\n1 2 /\nTSTEP" ++ "\n1 /\n") with
      | .ok D => decide (D.keywords.map Keyword.name = ["TUNING", "TSTEP"])
      | .error _ => false) = true := by decide +kernel
  have hslash : (match parse ("TUNING\n1 2 /\nTSTEP" ++ " --" ++ " a/b" ++ "\n1 /\n") with
      | .ok D => decide (D.keywords.map Keyword.name = ["TUNING"])
      | .error _ => false) = true := by decide +kernel
  split at hplain
  · next D h =>
    split at hslash
    · next D' h' =>
      exact ⟨_, d, r, t, r₁, D, D', h, hrounds, htoken, hline, h', of_decide_eq_true hplain,
        of_decide_eq_true hslash⟩
    · cases hslash
  · cases hplain

end Deck

end ReservoirDeck
