import ReservoirDeck.Proofs.RoundTrip.Ignored

/-!
What passing a keyword that is not understood says about its body: it is made of pieces, and only the
last of them can be a run of data that the end of the text ends.
-/

namespace ReservoirDeck.Ignored

open Text (bytes)

/-- The first `n` of these bytes are passed: `p`, and the line break after it unless the text ends
there. What ends with a line break is closed. -/
inductive Passed (bs p : List UInt8) (n : Nat) : Bool → Prop
  | line (rest : List UInt8) (hbs : bs = p ++ Byte.newline :: rest) (hn : n = p.length + 1) :
      Passed bs p n true
  | text (closed : Bool) (hbs : bs = p) (hn : n = p.length) : Passed bs p n closed

variable {bs p : List UInt8} {b : UInt8} {n : Nat} {closed : Bool}

theorem Passed.cons (h : Passed bs p n closed) (b : UInt8) :
    Passed (b :: bs) (b :: p) (n + 1) closed := by
  cases h with
  | line rest hbs hn => exact .line rest (by simp [hbs]) (by simp [hn])
  | text _ hbs hn => exact .text closed (by simp [hbs]) (by simp [hn])

theorem Passed.uncons (h : Passed (b :: bs) p n closed) (hb : b ≠ Byte.newline) :
    ∃ l m, p = b :: l ∧ Passed bs l m closed := by
  cases h with
  | line rest hbs _ =>
    cases p with
    | nil => exact absurd (List.cons.inj hbs).1 hb
    | cons c l =>
      obtain ⟨rfl, rfl⟩ := List.cons.inj hbs
      exact ⟨l, _, rfl, .line rest rfl rfl⟩
  | text _ hbs _ => exact ⟨bs, _, hbs.symm, .text closed rfl rfl⟩

theorem lineSize_passed (bs : List UInt8) :
    ∃ p, Byte.newline ∉ p ∧ Passed bs p (Cursor.lineSize bs) true := by
  induction bs with
  | nil => exact ⟨[], by simp, .text true rfl rfl⟩
  | cons b bs ih =>
    by_cases hb : b = Byte.newline
    · subst hb
      exact ⟨[], by simp, .line bs rfl (by simp [Cursor.lineSize])⟩
    · obtain ⟨p, hp, hpassed⟩ := ih
      refine ⟨b :: p, by simp [Ne.symm hb, hp], ?_⟩
      simpa [Cursor.lineSize, hb] using hpassed.cons b

/-- A run of data ends with the line break of a line that holds a slash, or with the text. -/
theorem dataSize_passed (seen : Bool) (bs : List UInt8) :
    ∃ p closed, Scans seen p closed ∧ Passed bs p (dataSize seen bs) closed := by
  induction bs generalizing seen with
  | nil => exact ⟨[], seen, .nil seen, .text seen rfl rfl⟩
  | cons b bs ih =>
    by_cases hb : b = Byte.newline
    · subst hb
      cases seen with
      | true => exact ⟨[], true, .nil true, .line bs rfl (by simp [dataSize])⟩
      | false =>
        obtain ⟨p, closed, hp, hpassed⟩ := ih false
        exact ⟨_, closed, .newline hp, by simpa [dataSize] using hpassed.cons Byte.newline⟩
    · obtain ⟨p, closed, hp, hpassed⟩ := ih (seen || b == Byte.slash)
      exact ⟨_, closed, .byte hb hp, by simpa [dataSize, hb] using hpassed.cons b⟩

variable {c : Cursor} {tl : List UInt8}

theorem piece_of_atComment (h : c.atComment = true) :
    ∃ p, Piece p true ∧ Passed c.rest p (Cursor.lineSize c.rest) true := by
  simp only [Cursor.atComment, Cursor.current, Cursor.peek, Bool.and_eq_true, beq_iff_eq] at h
  obtain ⟨tl, hc⟩ : ∃ tl, c.rest = Byte.dash :: Byte.dash :: tl := by
    rcases hc : c.rest with _ | ⟨b, _ | ⟨b', tl⟩⟩
    · simp [hc, Byte.dash] at h
    · simp [hc, Byte.dash] at h
    · obtain ⟨rfl, rfl⟩ : b = Byte.dash ∧ b' = Byte.dash := by simpa [hc] using h
      exact ⟨tl, rfl⟩
  obtain ⟨p, hp, hpassed⟩ := lineSize_passed c.rest
  refine ⟨p, ?_, hpassed⟩
  rw [hc] at hpassed
  obtain ⟨l, m, rfl, hl⟩ := hpassed.uncons (by decide)
  obtain ⟨l, m, rfl, -⟩ := hl.uncons (by decide)
  exact .comment fun hmem => hp (by simp [hmem])

theorem piece_of_terminator (hc : c.rest = b :: tl) (hb : Lookahead.ofByte b = .terminator) :
    ∃ p, Piece p true ∧ Passed c.rest p (Cursor.lineSize c.rest) true := by
  have hall : ∀ b, Lookahead.ofByte b = .terminator → b = Byte.slash :=
    Byte.forall_of_digits (by decide)
  obtain rfl := hall b hb
  obtain ⟨p, hp, hpassed⟩ := lineSize_passed c.rest
  refine ⟨p, ?_, hpassed⟩
  rw [hc] at hpassed
  obtain ⟨l, m, rfl, -⟩ := hpassed.uncons (by decide)
  exact .slash fun hmem => hp (by simp [hmem])

theorem piece_of_lineHasTerminator (hc : c.rest = b :: tl) (hb : Lookahead.ofByte b = .keyword)
    (hmark : c.lineHasTerminator = true) :
    ∃ p, Piece p true ∧ Passed c.rest p (Cursor.lineSize c.rest) true := by
  have hall : ∀ b, Lookahead.ofByte b = .keyword →
      Byte.isLetter b = true ∧ b ≠ Byte.newline ∧ b ≠ Byte.slash :=
    Byte.forall_of_digits (by decide)
  obtain ⟨hletter, hbreak, hslash⟩ := hall b hb
  obtain ⟨p, hp, hpassed⟩ := lineSize_passed c.rest
  have hline : c.line = p := by
    cases hpassed with
    | line rest hbs _ => exact line_eq hp hbs
    | text _ hbs _ =>
      rw [Cursor.line, hbs, List.takeWhile_eq_self_iff]
      exact fun b hb => bne_iff_ne.mpr (ne_of_mem_of_not_mem hb hp)
  refine ⟨p, ?_, hpassed⟩
  rw [hc] at hpassed
  obtain ⟨l, m, rfl, -⟩ := hpassed.uncons hbreak
  rw [Cursor.lineHasTerminator, hline, List.contains_iff_mem, List.mem_cons] at hmark
  exact .letter hletter (hmark.resolve_left (Ne.symm hslash)) fun hmem => hp (by simp [hmem])

theorem piece_of_data (hc : c.rest = b :: tl)
    (hb : Lookahead.ofByte b = .data ∨ Lookahead.ofByte b = .quoted) (hcomment : c.atComment = false) :
    ∃ p closed, Piece p closed ∧ Passed c.rest p (dataSize false c.rest) closed := by
  obtain ⟨p, closed, hp, hpassed⟩ := dataSize_passed false c.rest
  refine ⟨p, closed, ?_, hpassed⟩
  rw [hc] at hpassed
  have hbreak : b ≠ Byte.newline := by
    rintro rfl
    rcases hb with hb | hb <;> cases hb
  obtain ⟨l, m, rfl, hl⟩ := hpassed.uncons hbreak
  refine .data hb ?_ hp
  rintro ⟨rfl, hdash⟩
  obtain ⟨l, rfl⟩ : ∃ l', l = Byte.dash :: l' := ⟨l.tail, List.eq_cons_of_mem_head? hdash⟩
  have htl : tl.head? = some Byte.dash := by
    cases hl with
    | line rest hbs _ => simp [hbs]
    | text _ hbs _ => simp [hbs]
  simp [Cursor.atComment, Cursor.current, Cursor.peek, hc, htl] at hcomment

theorem Round.piece (h : Round c n) (hsome : c.atEnd = false) :
    ∃ p closed, Piece p closed ∧ Passed c.rest p n closed := by
  obtain ⟨b, tl, hc⟩ := List.exists_cons_of_ne_nil (l := c.rest)
    (by simpa [Cursor.atEnd] using hsome)
  have hcurrent : c.current = b := by simp [Cursor.current, hc]
  cases h with
  | comment h =>
    obtain ⟨p, hp, hpassed⟩ := piece_of_atComment h
    exact ⟨p, true, hp, hpassed⟩
  | slash h =>
    obtain ⟨p, hp, hpassed⟩ := piece_of_terminator hc (hcurrent ▸ h)
    exact ⟨p, true, hp, hpassed⟩
  | letter h hmark =>
    obtain ⟨p, hp, hpassed⟩ := piece_of_lineHasTerminator hc (hcurrent ▸ h) hmark
    exact ⟨p, true, hp, hpassed⟩
  | data hcomment h => exact piece_of_data hc (hcurrent ▸ h) hcomment

variable {stop stop' : Nat} {r r' : DeckReader}

theorem piece_of_step (h : step stop r = .ok (.inl stop') r') :
    ∃ gap p bs n closed, Blank gap ∧ Piece p closed ∧ r.cursor.rest = gap ++ bs ∧
      Passed bs p n closed ∧ r' = r.forward (gap.length + n) ∧ stop' = r'.pos := by
  obtain ⟨gap, hgap, hsplit, hskip, -⟩ := r.cursor.skipBlanks_eq
  obtain ⟨hsome, n, hround, rfl, rfl⟩ := step_eq_next.mp h
  obtain ⟨p, closed, hp, hpassed⟩ := hround.piece hsome
  refine ⟨gap, p, _, n, closed, hgap, hp, hsplit, hpassed, ?_, rfl⟩
  rw [hskip, Cursor.forward_forward]
  rfl

/-- What was passed so far, with these bytes ahead: nothing, or a body with its line break, or a body
that goes to the end of the text. -/
inductive Scanned : (z rest : List UInt8) → Prop
  | nil (rest : List UInt8) : Scanned [] rest
  | lines {z : List UInt8} (hz : Body z true) (rest : List UInt8) : Scanned (z ++ [Byte.newline]) rest
  | text {z : List UInt8} {closed : Bool} (hz : Body z closed) : Scanned z []

theorem Scanned.next {z gap : List UInt8} (h : Scanned z (gap ++ bs)) (hgap : Blank gap)
    (hp : Piece p closed) (hpassed : Passed bs p n closed) :
    ∃ y rest, gap ++ bs = y ++ rest ∧ y.length = gap.length + n ∧ Scanned (z ++ y) rest := by
  obtain ⟨b, l, hb, -⟩ := hp.cons
  have hne : gap ++ bs ≠ [] := by
    cases hpassed with
    | line _ hbs _ => simp [hbs]
    | text _ hbs _ => simp [hbs, hb]
  generalize hahead : gap ++ bs = ahead at h hne
  cases hpassed with
  | line rest hbs hn =>
    refine ⟨gap ++ p ++ [Byte.newline], rest, by simp [← hahead, hbs], by simp [hn], ?_⟩
    rw [← List.append_assoc]
    cases h with
    | nil => exact .lines (.last hgap hp) rest
    | lines hz => simpa using Scanned.lines (hz.snoc hgap hp) rest
    | text => exact absurd rfl hne
  | text _ hbs hn =>
    refine ⟨gap ++ p, [], by simp [← hahead, hbs], by simp [hn], ?_⟩
    cases h with
    | nil => simpa using Scanned.text (.last hgap hp)
    | lines hz => simpa using Scanned.text (hz.snoc hgap hp)
    | text => exact absurd rfl hne

/-- The place from which the body was read, the bytes of the body, the blanks skipped behind it, and
what is ahead after them. -/
def ReadsTo (start : DeckReader) (stop : Nat) (r : DeckReader) : Prop :=
  ∃ z gap rest, start.cursor.rest = z ++ (gap ++ rest) ∧ stop = start.pos + z.length ∧ Blank gap ∧
    Scanned z (gap ++ rest) ∧ NextKeyword rest ∧ r = start.forward (z.length + gap.length)

theorem readsTo_of_iterate (h : ReadM.iterate step r.pos r = .ok stop r') : ReadsTo r stop r' := by
  refine ReadM.iterate_invariant (Q := ReadsTo r) (I := fun stop r' =>
    ∃ z, r.cursor.rest = z ++ r'.cursor.rest ∧ stop = r.pos + z.length ∧
      Scanned z r'.cursor.rest ∧ r' = r.forward z.length) ?_ ?_ ⟨[], rfl, rfl, .nil _, rfl⟩ h
  · rintro _ _ stop' r' ⟨z, hrest, rfl, hscanned, rfl⟩ hstep
    obtain ⟨gap, p, bs, n, closed, hgap, hp, hbs, hpassed, rfl, rfl⟩ := piece_of_step hstep
    rw [hbs] at hscanned
    obtain ⟨y, rest, hy, hlen, hscanned⟩ := hscanned.next hgap hp hpassed
    have hhere : ((r.forward z.length).forward (gap.length + n)).cursor.rest = rest := by
      rw [DeckReader.rest_forward, hbs, hy, ← hlen, List.drop_left]
    refine ⟨z ++ y, ?_, ?_, hhere ▸ hscanned, ?_⟩
    · rw [hhere, hrest, hbs, hy, List.append_assoc]
    · simp [DeckReader.pos, DeckReader.forward, DeckReader.moveTo, hlen, Nat.add_assoc]
    · rw [DeckReader.forward_forward, List.length_append, hlen]
  · rintro _ _ stop' r' ⟨z, hrest, rfl, hscanned, rfl⟩ hstep
    obtain ⟨hleaves, rfl, rfl⟩ := step_eq_done_iff.mp hstep
    obtain ⟨gap, hgap, hsplit, hskip, -⟩ := (r.forward z.length).cursor.skipBlanks_eq
    refine ⟨z, gap, _, ?_, rfl, hgap, hsplit ▸ hscanned, leaves_iff.mp hleaves, ?_⟩
    · rw [← hsplit, hrest]
    · rw [hskip, ← DeckReader.forward_forward]
      rfl

theorem readsTo_of_read {s : String} (h : Ignored.read r = .ok s r') :
    ∃ z gap rest, r.cursor.rest = z ++ (gap ++ rest) ∧ s = trimBody (Text.ofBytes z) ∧ Blank gap ∧
      Scanned z (gap ++ rest) ∧ NextKeyword rest ∧ r' = r.forward (z.length + gap.length) := by
  simp only [Ignored.read, Run.bind_get_eq, Run.bind_eq_ok, Run.pure_eq, EStateM.Result.ok.injEq] at h
  obtain ⟨_, _, hlines, rfl, rfl⟩ := h
  obtain ⟨z, gap, rest, hrest, rfl, hgap, hscanned, hnext, rfl⟩ := readsTo_of_iterate hlines
  refine ⟨z, gap, rest, hrest, ?_, hgap, hscanned, hnext, rfl⟩
  rw [DeckReader.cursor_forward, DeckReader.pos, slice_forward hrest]

/-- The body of a keyword that was read can be written. It ends with a run of data that no slash ends
only if nothing comes after it. -/
theorem read_sound {s : String} (h : Ignored.read r = .ok s r') :
    ∃ closed, BodyText s closed ∧ (closed = true ∨ r'.cursor.rest = []) := by
  obtain ⟨z, gap, rest, hrest, rfl, -, hscanned, -, rfl⟩ := readsTo_of_read h
  generalize hahead : gap ++ rest = ahead at hscanned
  rcases Text.bytes_ofBytes z with hbytes | hempty
  · cases hscanned with
    | nil => exact ⟨true, bodyText_empty, .inl rfl⟩
    | lines hz =>
      obtain ⟨closed, htext, hclosed⟩ := hz.bodyText (.inr hbytes)
      exact ⟨closed, htext, .inl (hclosed rfl)⟩
    | text hz =>
      obtain ⟨closed, htext, -⟩ := hz.bodyText (.inl hbytes)
      obtain ⟨rfl, rfl⟩ := List.append_eq_nil_iff.mp hahead
      refine ⟨closed, htext, .inr ?_⟩
      rw [DeckReader.rest_forward, hrest]
      simp
  · rw [hempty]
    exact ⟨true, bodyText_empty, .inl rfl⟩

end ReservoirDeck.Ignored
