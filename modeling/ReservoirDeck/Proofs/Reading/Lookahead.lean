import ReservoirDeck.Proofs.Reading.Ahead
import ReservoirDeck.Proofs.Text.Tiling

/-!
What comes next, by one byte and by the token. Dropping comments token by token comes to the same place
as skipping blanks and comment lines, and the byte there says what kind of token is read.
-/

namespace ReservoirDeck

open Text (bytes IsEncoding)

/-- A class of ASCII characters at the start of a text is found in its first byte. -/
theorem SameAscii.any_head_bytes {p : UInt8 → Bool} {q : Char → Bool}
    (h : SameAscii (!p ·) (!q ·)) (s : String) :
    (Text.bytes s).head?.any p = s.toList.head?.any q := by
  have hall := h.head_bytes s
  cases hb : (Text.bytes s).head? <;> cases hs : s.toList.head? <;> rw [hb, hs] at hall <;>
    simp_all

theorem Lookahead.ofByte_of_le {b : UInt8} (hb : 128 ≤ b) : Lookahead.ofByte b = .other b := by
  have hall : ∀ b : UInt8, 128 ≤ b → Lookahead.ofByte b = .other b := Byte.forall_of_digits (by decide)
  exact hall b hb

theorem sameAscii_keyword :
    SameAscii (fun b => !decide (Lookahead.ofByte b = .keyword)) (!Char.isAlpha ·) where
  ascii := by decide
  bytes n hn hge := by
    rw [Lookahead.ofByte_of_le (by rw [UInt8.le_iff_toNat_le]; simpa using by omega)]
    rfl
  chars c hc := by
    rw [Bool.not_eq_true']
    by_contra h
    have := toNat_lt_of_isAlpha (by simpa using h)
    omega

theorem sameAscii_data :
    SameAscii (fun b => !decide (Lookahead.ofByte b = .data)) (!isItemStart ·) where
  ascii := by decide
  bytes n hn hge := by
    rw [Lookahead.ofByte_of_le (by rw [UInt8.le_iff_toNat_le]; simpa using by omega)]
    rfl
  chars c hc := by
    rw [Bool.not_eq_true']
    by_contra h
    have := (data_of_isItemStart (by simpa using h)).1
    omega

theorem Text.prefix_bytes {s t : String} (hs : ∀ b ∈ bytes s, b < 128) :
    bytes s <+: bytes t ↔ s.toList <+: t.toList := by
  constructor
  · rintro ⟨rest, hrest⟩
    have henc : IsEncoding (bytes s ++ rest) := ⟨t, hrest.symm⟩
    obtain ⟨u, rfl⟩ := henc.of_ascii_append hs
    rw [← bytes_append] at hrest
    exact ⟨u.toList, by rw [← String.toList_append, bytes_injective hrest]⟩
  · rintro ⟨rest, hrest⟩
    refine ⟨bytes (String.ofList rest), ?_⟩
    rw [← bytes_append]
    congr 1
    rw [← String.toList_inj, String.toList_append, String.toList_ofList, hrest]

theorem Token.isComment_iff (t : Token) :
    t.isComment = true ↔ t.quoting = .bare ∧ [Byte.dash, Byte.dash] <+: bytes t.text := by
  have hdashes : bytes "--" = [Byte.dash, Byte.dash] := by decide
  have hchars : "--".toList = ['-', '-'] := by decide
  have hprefix : bytes "--" <+: bytes t.text ↔ "--".toList <+: t.text.toList := by
    apply Text.prefix_bytes
    rw [hdashes, List.forall_mem_cons, List.forall_mem_singleton]
    decide
  rw [← hdashes, hprefix, hchars, List.prefix_iff_eq_take, isComment, Bool.and_eq_true, beq_iff_eq,
    beq_iff_eq]
  exact and_congr_right' eq_comm

/-- Of all that tokens are cut from, a bare word alone starts with a dash. -/
theorem Quoting.Covers.comment {q : Quoting} {content source rest : List UInt8}
    (h : q.Covers content source rest) :
    (q = .bare ∧ [Byte.dash, Byte.dash] <+: content) ↔ [Byte.dash, Byte.dash] <+: source ++ rest := by
  cases h with
  | delimiter hb => rcases hb with rfl | rfl <;> simp [Byte.dash, Byte.slash]
  | word hne hquote hw hrest =>
    obtain ⟨b, w, rfl⟩ := List.exists_cons_of_ne_nil hne
    cases w with
    | nil =>
      cases rest with
      | nil => simp
      | cons b' rest =>
        have hb' : b' ≠ Byte.dash := by
          rintro rfl
          exact absurd (separated_cons.mp hrest) (by decide)
        simp [hb'.symm]
    | cons b' w => simp
  | quoted => simp [Byte.quote, Byte.dash]
  | unterminated => simp [Byte.quote, Byte.dash]

/-- A token that is cut where no blank is starts a comment if the bytes do. -/
theorem Lexeme.isComment_ofBytes {first : UInt8} {tl : List UInt8} (h : IsEncoding (first :: tl))
    (hblank : Byte.isBlank first = false) (start : Nat) :
    Token.isComment ⟨Text.ofBytes (ofBytes first tl).content, (ofBytes first tl).quoting, start⟩ = true ↔
      [Byte.dash, Byte.dash] <+: first :: tl := by
  obtain ⟨source, rest, hsplit, hfits⟩ := ofBytes_fits h hblank
  obtain ⟨s, hs⟩ := hfits.content
  rw [Token.isComment_iff, ← hs, Text.ofBytes_bytes, hs, hfits.covers.comment, ← hsplit]

namespace Cursor

variable {c c' : Cursor} {t : Token}

/-- The next token that is not a comment. A comment is dropped with the rest of its line. -/
def nextToken (c : Cursor) : Option Token × Cursor :=
  match h : c.readToken with
  | (none, c') => (none, c')
  | (some t, c') =>
    if t.isComment then
      have := Nat.lt_of_le_of_lt (remaining_forward_le c' (lineSize c'.rest)) (readToken_lt h)
      c'.skipLine.nextToken
    else (some t, c')
termination_by c.remaining

theorem skipTrivia_skipBlanks (c : Cursor) : c.skipBlanks.skipTrivia = c.skipTrivia := by
  obtain ⟨gap, hgap, hrest, hskip, -⟩ := c.skipBlanks_eq
  have hsize := triviaSize_append hgap c.skipBlanks.rest
  rw [← hrest] at hsize
  rw [skipTrivia, skipTrivia, hsize, ← forward_forward, ← hskip]

theorem readToken_skipTrivia (h : Significant c.skipBlanks.rest) :
    c.skipTrivia.readToken = c.readToken := by
  have hskip : c.skipTrivia = c.skipBlanks := by
    rw [← skipTrivia_skipBlanks, skipTrivia, triviaSize_of_significant h, forward_zero]
  rw [hskip, readToken, skipBlanks_of_significant h, readToken]

theorem skipTrivia_skipLine (h : [Byte.dash, Byte.dash] <+: c.rest) :
    c.skipLine.skipTrivia = c.skipTrivia := by
  rw [skipTrivia, skipTrivia, triviaSize_dashes h, ← forward_forward]
  rfl

theorem drop_lineSize (bs : List UInt8) :
    bs.drop (lineSize bs) = (bs.dropWhile (· != Byte.newline)).tail := by
  induction bs with
  | nil => rfl
  | cons b bs ih =>
    by_cases hb : b = Byte.newline
    · simp [lineSize, hb]
    · simpa [lineSize, hb] using ih

/-- A line break is a character of its own, and so are the bytes that trivia starts with. -/
theorem isEncoding_drop_lineSize {bs : List UInt8} (h : IsEncoding bs) :
    IsEncoding (bs.drop (lineSize bs)) := by
  have henc := h.dropWhile (sameAscii_ne '\n' (by decide))
  have hstop := List.head?_dropWhile_not (· != Byte.newline) bs
  rw [drop_lineSize]
  cases hrest : bs.dropWhile (· != Byte.newline) with
  | nil => exact ⟨"", rfl⟩
  | cons b tl =>
    rw [hrest] at hstop
    obtain rfl : b = Byte.newline := by simpa using hstop
    exact IsEncoding.tail (hrest ▸ henc) (by decide)

theorem isEncoding_drop_triviaSize {inComment : Bool} {bs : List UInt8}
    (h : IsEncoding (if inComment then bs.drop (lineSize bs) else bs)) :
    IsEncoding (bs.drop (triviaSize inComment bs)) := by
  fun_induction triviaSize inComment bs with
  | case1 => exact ⟨"", rfl⟩
  | case2 b rest ih =>
    refine ih ?_
    by_cases hb : b = Byte.newline
    · simpa [lineSize, hb] using h
    · simpa [lineSize, hb] using h
  | case3 inComment b rest hcomment hblank ih =>
    rw [if_neg hcomment] at h
    exact ih (h.tail (Byte.lt_of_isBlank hblank))
  | case4 inComment b rest hcomment hblank hdash ih =>
    rw [if_neg hcomment] at h
    obtain ⟨rfl, -⟩ : b = Byte.dash ∧ rest.head? = some Byte.dash := by simpa using hdash
    exact ih (isEncoding_drop_lineSize (h.tail (by decide)))
  | case5 inComment b rest hcomment hblank hdash =>
    rw [if_neg hcomment] at h
    exact h

/-- What a token is cut from: the bytes behind the blanks, where whole characters are ahead. -/
theorem readToken_eq_some (hc : IsEncoding c.rest) (h : c.readToken = (some t, c')) :
    ∃ first tl, c.skipBlanks.rest = first :: tl ∧ Byte.isBlank first = false ∧
      IsEncoding (first :: tl) ∧
      t = ⟨Text.ofBytes (Lexeme.ofBytes first tl).content, (Lexeme.ofBytes first tl).quoting,
        c.skipBlanks.pos⟩ ∧
      c' = c.skipBlanks.forward (Lexeme.ofBytes first tl).size := by
  obtain ⟨gap, hgap, hrest, -, hhead⟩ := c.skipBlanks_eq
  rw [readToken] at h
  split at h
  · cases h
  · next first tl hmore =>
    obtain ⟨ht, hc'⟩ := Prod.mk.inj h
    rw [hrest, hmore] at hc
    have henc := hc.of_ascii_append fun b hb => Byte.lt_of_isBlank (hgap b hb)
    exact ⟨first, tl, hmore, hhead first (by simp [hmore]), henc, (Option.some.inj ht).symm, hc'.symm⟩

theorem skipLine_of_readToken (hc : IsEncoding c.rest) (h : c.readToken = (some t, c')) :
    c'.skipLine = c.skipBlanks.skipLine := by
  obtain ⟨first, tl, hmore, hblank, henc, -, rfl⟩ := readToken_eq_some hc h
  obtain ⟨source, rest, hsplit, hfits⟩ := Lexeme.ofBytes_fits henc hblank
  have hafter : (c.skipBlanks.forward source.length).rest = rest := by
    rw [rest_forward, hmore, hsplit, List.drop_left]
  rw [hfits.size, skipLine, hafter, forward_forward, ← lineSize_add hfits.line, ← hsplit, ← hmore,
    skipLine]

/-- Dropping the tokens that are comments comes to the place behind the trivia. -/
theorem nextToken_eq (hc : IsEncoding c.rest) : c.nextToken = c.skipTrivia.readToken := by
  fun_induction nextToken c with
  | case1 c c' h =>
    have hend : c.skipBlanks.rest = [] := by
      rw [readToken] at h
      split at h
      · assumption
      · cases h
    rw [readToken_skipTrivia (by simp [Significant, hend]), h]
  | case2 c t c' h hcomment hlt ih =>
    obtain ⟨first, tl, hmore, hblank, henc, rfl, -⟩ := readToken_eq_some hc h
    have hdashes : [Byte.dash, Byte.dash] <+: c.skipBlanks.rest :=
      hmore ▸ (Lexeme.isComment_ofBytes henc hblank _).mp hcomment
    obtain ⟨gap, source, lexeme, -, -, hfits, -⟩ := fits_of_readToken hc h
    rw [ih (isEncoding_drop_lineSize hfits.rest), skipLine_of_readToken hc h,
      skipTrivia_skipLine hdashes, skipTrivia_skipBlanks]
  | case3 c t c' h hcomment =>
    obtain ⟨first, tl, hmore, hblank, henc, rfl, -⟩ := readToken_eq_some hc h
    have hsignificant : Significant c.skipBlanks.rest := by
      rw [hmore]
      rintro b bs heq
      obtain ⟨rfl, rfl⟩ := List.cons.inj heq
      refine ⟨hblank, ?_⟩
      rintro ⟨hdash, hnext⟩
      apply hcomment
      rw [Lexeme.isComment_ofBytes henc hblank, hdash, List.cons_prefix_cons,
        List.singleton_prefix_iff_head?_eq_some]
      exact ⟨rfl, hnext⟩
    rw [readToken_skipTrivia hsignificant, h]

end Cursor

theorem Lookahead.ofByte_eq_quoted {b : UInt8} : Lookahead.ofByte b = .quoted ↔ b = Byte.quote := by
  have hall : ∀ b, Lookahead.ofByte b = .quoted ↔ b = Byte.quote := Byte.forall_of_digits (by decide)
  exact hall b

theorem Lookahead.ofByte_eq_terminator {b : UInt8} :
    Lookahead.ofByte b = .terminator ↔ b = Byte.slash := by
  have hall : ∀ b, Lookahead.ofByte b = .terminator ↔ b = Byte.slash :=
    Byte.forall_of_digits (by decide)
  exact hall b

/-- The first byte of what a token covers says whether it is quoted, and whether it is the slash. -/
theorem Quoting.Covers.start {q : Quoting} {content source rest : List UInt8} {b : UInt8}
    (h : q.Covers content source rest) (hb : source.head? = some b) :
    (q ≠ .bare ∧ b = Byte.quote) ∨
      (q = .bare ∧ b ≠ Byte.quote ∧ content.head? = some b ∧
        (content = [Byte.slash] ↔ b = Byte.slash)) := by
  cases h with
  | delimiter hcase =>
    obtain rfl := Option.some.inj hb
    right
    rcases hcase with rfl | rfl <;> decide
  | word hne hquote hw _ =>
    obtain ⟨b', w, rfl⟩ := List.exists_cons_of_ne_nil hne
    obtain rfl := Option.some.inj hb
    have hslash : b' ≠ Byte.slash := by
      rintro rfl
      exact absurd (hw _ List.mem_cons_self) (by decide)
    exact .inr ⟨rfl, by simpa using hquote, rfl, by simp [hslash]⟩
  | quoted => exact .inl ⟨by decide, (Option.some.inj hb).symm⟩
  | unterminated => exact .inl ⟨by decide, (Option.some.inj hb).symm⟩

/-- A token that is cut at this byte. -/
structure Token.StartsAt (t : Token) (b : UInt8) : Prop where
  isQuoted : t.isQuoted = true ↔ b = Byte.quote
  isTerminator : t.isTerminator = true ↔ b = Byte.slash
  head : t.quoting = .bare → (bytes t.text).head? = some b

theorem Lexeme.startsAt {first : UInt8} {tl : List UInt8} (h : IsEncoding (first :: tl))
    (hblank : Byte.isBlank first = false) (start : Nat) :
    Token.StartsAt ⟨Text.ofBytes (ofBytes first tl).content, (ofBytes first tl).quoting, start⟩
      first := by
  obtain ⟨source, rest, hsplit, hfits⟩ := ofBytes_fits h hblank
  obtain ⟨b, source, rfl⟩ := List.exists_cons_of_ne_nil hfits.ne_nil
  obtain rfl : first = b := (List.cons.inj hsplit).1
  obtain ⟨s, hs⟩ := hfits.content
  have hstart := hfits.covers.start rfl
  rw [← hs] at hstart
  rw [← hs, Text.ofBytes_bytes]
  have hslash : bytes s = [Byte.slash] ↔ s = "/" :=
    ⟨fun heq => Text.bytes_injective (t := "/") heq, fun heq => heq ▸ rfl⟩
  rcases hstart with ⟨hquoted, rfl⟩ | ⟨hbare, hquote, hhead, hterminator⟩
  · constructor
    · simp [Token.isQuoted, hquoted]
    · have hne : Byte.quote ≠ Byte.slash := by decide
      simp [Token.isTerminator, hquoted, hne]
    · exact fun hbare => absurd hbare hquoted
  · constructor
    · simp [Token.isQuoted, hbare, hquote]
    · simp [Token.isTerminator, hbare, ← hterminator, hslash]
    · exact fun _ => hhead

/-- A bare token whose first character is of this class. -/
def Token.StartsIn (t : Token) (p : Char → Bool) : Prop :=
  t.quoting = .bare ∧ t.text.toList.head?.any p = true

theorem Token.StartsAt.startsIn {t : Token} {b : UInt8} {p : UInt8 → Bool} {q : Char → Bool}
    (h : t.StartsAt b) (hp : SameAscii (!p ·) (!q ·)) (hquote : p Byte.quote = false) :
    t.StartsIn q ↔ p b = true := by
  have hbare : t.quoting = .bare ↔ b ≠ Byte.quote := by
    rw [ne_eq, ← h.isQuoted, Token.isQuoted, bne_iff_ne, not_not]
  unfold StartsIn
  rw [← hp.any_head_bytes]
  constructor
  · rintro ⟨htext, hany⟩
    rwa [h.head htext] at hany
  · intro hb
    have htext : t.quoting = .bare := hbare.mpr fun heq => by simp [heq, hquote] at hb
    exact ⟨htext, by rw [h.head htext]; exact hb⟩

/-- An answer of the lookahead describes the token that comes next, and each answer one kind of
token only. -/
structure Lookahead.Describes (answer : Except (Cause × Option String) Lookahead)
    (name : Option String) (next : Option Token) : Prop where
  endOfInput : answer = .ok .endOfInput ↔ next = none
  terminator : answer = .ok .terminator ↔ ∃ t, next = some t ∧ t.isTerminator = true
  quoted : answer = .ok .quoted ↔ ∃ t, next = some t ∧ t.isQuoted = true
  keyword : answer = .ok .keyword ↔ ∃ t, next = some t ∧ t.StartsIn Char.isAlpha
  data : answer = .ok .data ↔ ∃ t, next = some t ∧ t.StartsIn isItemStart
  /-- The error names the first byte of a token that is none of these. -/
  stray (b : UInt8) : answer = .error (.malformed (.strayBetweenRecords b), name) ↔
    ∃ t, next = some t ∧ t.isTerminator = false ∧ t.isQuoted = false ∧ ¬ t.StartsIn Char.isAlpha ∧
      ¬ t.StartsIn isItemStart ∧ (bytes t.text).head? = some b

theorem Lookahead.ofByte_eq_other {b b' : UInt8} :
    Lookahead.ofByte b = .other b' ↔
      (b ≠ Byte.slash ∧ b ≠ Byte.quote ∧ Lookahead.ofByte b ≠ .keyword ∧ Lookahead.ofByte b ≠ .data) ∧
        b = b' := by
  rw [ne_eq, ← ofByte_eq_terminator, ne_eq, ← ofByte_eq_quoted]
  unfold ofByte
  split_ifs <;> simp

theorem Token.StartsAt.keyword {t : Token} {b : UInt8} (h : t.StartsAt b) :
    t.StartsIn Char.isAlpha ↔ Lookahead.ofByte b = .keyword := by
  rw [h.startsIn sameAscii_keyword rfl, decide_eq_true_iff]

theorem Token.StartsAt.data {t : Token} {b : UInt8} (h : t.StartsAt b) :
    t.StartsIn isItemStart ↔ Lookahead.ofByte b = .data := by
  rw [h.startsIn sameAscii_data rfl, decide_eq_true_iff]

/-- A token that is none of the others is bare, and its text holds the byte that it is cut at. -/
theorem Token.StartsAt.stray {t : Token} {b b' : UInt8} (h : t.StartsAt b) :
    Lookahead.ofByte b = .other b' ↔
      t.isTerminator = false ∧ t.isQuoted = false ∧ ¬ t.StartsIn Char.isAlpha ∧
        ¬ t.StartsIn isItemStart ∧ (bytes t.text).head? = some b' := by
  have hslash : t.isTerminator = false ↔ b ≠ Byte.slash := by
    rw [← Bool.not_eq_true, h.isTerminator]
  have hquote : t.isQuoted = false ↔ b ≠ Byte.quote := by
    rw [← Bool.not_eq_true, h.isQuoted]
  have hhead : b ≠ Byte.quote → (bytes t.text).head? = some b := fun hne =>
    h.head (by simpa [Token.isQuoted] using hquote.mpr hne)
  rw [Lookahead.ofByte_eq_other, hslash, hquote, h.keyword, h.data]
  constructor
  · rintro ⟨⟨hb, hne, hkeyword, hdata⟩, rfl⟩
    exact ⟨hb, hne, hkeyword, hdata, hhead hne⟩
  · rintro ⟨hb, hne, hkeyword, hdata, hfirst⟩
    rw [hhead hne, Option.some.injEq] at hfirst
    exact ⟨⟨hb, hne, hkeyword, hdata⟩, hfirst⟩

namespace ReadM

variable {r : DeckReader}

theorem lookahead_eq_onLookahead (r : DeckReader) :
    lookahead r = onLookahead pure r.cursor.lookahead r.skipTrivia := by
  rw [← bind_lookahead_eq, bind_pure]

theorem state_lookahead (r : DeckReader) : Run.state (lookahead r) = r.skipTrivia := by
  rw [lookahead_eq_onLookahead]
  cases r.cursor.lookahead <;> rfl

theorem lookahead_eq_ok {next : Lookahead} (h : ∀ b, next ≠ .other b) :
    Run.answer (lookahead r) = .ok next ↔ r.cursor.lookahead = next := by
  rw [lookahead_eq_onLookahead]
  cases hnext : r.cursor.lookahead with
  | other b => simp [onLookahead, Run.answer, (h b).symm]
  | _ => simp [onLookahead, Run.answer]

theorem lookahead_eq_stray {b : UInt8} :
    Run.answer (lookahead r) = .error (.malformed (.strayBetweenRecords b), r.keyword) ↔
      r.cursor.lookahead = .other b := by
  rw [lookahead_eq_onLookahead]
  cases hnext : r.cursor.lookahead with
  | other b' => simp [onLookahead, Run.answer, DeckReader.error, DeckReader.skipTrivia, DeckReader.moveTo]
  | _ => simp [onLookahead, Run.answer]

theorem describes_lookahead (hr : IsEncoding r.cursor.rest) :
    Lookahead.Describes (Run.answer (lookahead r)) r.keyword r.token?.1 := by
  have hcursor : r.skipTrivia.cursor = r.cursor.skipTrivia := rfl
  cases hrest : r.skipTrivia.cursor.rest with
  | nil =>
    have hlook : r.cursor.lookahead = .endOfInput := by
      rw [Cursor.lookahead_eq_head, ← hcursor, hrest]
      rfl
    rw [DeckReader.token?_of_nil hrest]
    constructor <;> simp [lookahead_eq_ok, lookahead_eq_stray, hlook]
  | cons b tl =>
    have hlook : r.cursor.lookahead = .ofByte b :=
      DeckReader.lookahead_of_head (by rw [hrest, List.head?_cons])
    have henc : IsEncoding (b :: tl) := hrest ▸ Cursor.isEncoding_drop_triviaSize hr
    have hstart := Lexeme.startsAt henc (r.significant_skipTrivia b tl hrest).1 r.skipTrivia.pos
    rw [DeckReader.token?_of_cons hrest]
    generalize Token.mk _ _ r.skipTrivia.pos = t at hstart ⊢
    constructor
    · have hne : Lookahead.ofByte b ≠ .endOfInput := by
        unfold Lookahead.ofByte
        split_ifs <;> simp
      simp [lookahead_eq_ok, hlook, hne]
    · simp [lookahead_eq_ok, hlook, Lookahead.ofByte_eq_terminator, hstart.isTerminator]
    · simp [lookahead_eq_ok, hlook, Lookahead.ofByte_eq_quoted, hstart.isQuoted]
    · simp [lookahead_eq_ok, hlook, hstart.keyword]
    · simp [lookahead_eq_ok, hlook, hstart.data]
    · simp [lookahead_eq_stray, hlook, hstart.stray]

end ReadM

/-- A reader between two parts of a text. -/
def DeckReader.between (front behind : String) (keyword : Option String) : DeckReader :=
  ⟨(Cursor.ofBytes (bytes (front ++ behind))).forward (bytes front).length, keyword⟩

theorem DeckReader.rest_between (front behind : String) (keyword : Option String) :
    (between front behind keyword).cursor.rest = bytes behind := by
  change (bytes (front ++ behind)).drop (bytes front).length = bytes behind
  rw [Text.bytes_append, List.drop_left]

theorem DeckReader.forward_between (front a b : String) (keyword : Option String) :
    (between front (a ++ b) keyword).forward (bytes a).length = between (front ++ a) b keyword := by
  have hsize : (bytes (front ++ a)).length = (bytes front).length + (bytes a).length := by
    rw [Text.bytes_append, List.length_append]
  unfold between
  rw [hsize, ← Cursor.forward_forward, String.append_assoc]
  rfl

/-- Wherever a character ends, looking ahead changes nothing for the token that is read next, comments
dropped one by one, and its answer describes that token. -/
theorem ReadM.lookahead_describes (front behind : String) (keyword : Option String) :
    let r := DeckReader.between front behind keyword
    let r' := Run.state (lookahead r)
    r'.keyword = keyword ∧ r'.cursor.nextToken = r.cursor.nextToken ∧
      r.token? = (r.cursor.nextToken.1, r.moveTo r.cursor.nextToken.2) ∧ r'.token? = r.token? ∧
      Lookahead.Describes (Run.answer (lookahead r)) keyword r.cursor.nextToken.1 := by
  intro r r'
  have hr : IsEncoding r.cursor.rest := ⟨behind, (DeckReader.rest_between front behind keyword).symm⟩
  have hstate : r' = r.skipTrivia := state_lookahead r
  have hr' : IsEncoding r'.cursor.rest := hstate ▸ Cursor.isEncoding_drop_triviaSize hr
  have hnext : r.cursor.nextToken = r.cursor.skipTrivia.readToken := Cursor.nextToken_eq hr
  have htoken : r.token? = (r.cursor.nextToken.1, r.moveTo r.cursor.nextToken.2) := by
    rw [hnext]
    rfl
  refine ⟨by rw [hstate]; rfl, ?_, htoken, by rw [hstate, r.token?_skipTrivia], ?_⟩
  · rw [Cursor.nextToken_eq hr', hnext, hstate]
    exact congrArg Cursor.readToken r.cursor.skipTrivia_skipTrivia
  · have hdescribes := describes_lookahead hr
    rwa [htoken] at hdescribes

end ReservoirDeck
