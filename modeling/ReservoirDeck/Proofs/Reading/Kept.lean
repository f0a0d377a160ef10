import ReservoirDeck.Proofs.Reading.Ignored
import ReservoirDeck.Proofs.Reading.Lookahead

/-!
What is kept of a keyword that is not understood. Nothing of the text is lost: around the body only line
breaks and white space are dropped, and reading stops before the name of a keyword or at the end of the
text. What is kept is kept again when it is read alone.
-/

namespace ReservoirDeck

open Text (bytes IsEncoding)

/-- These bytes are whole lines, and blanks behind the last of them. -/
def WholeLines (bs : List UInt8) : Prop :=
  ∃ lines gap, bs = lines ++ gap ∧ Blank gap ∧ (lines = [] ∨ lines.getLast? = some Byte.newline)

theorem wholeLines_newline (bs : List UInt8) {gap : List UInt8} (hgap : Blank gap) :
    WholeLines (bs ++ Byte.newline :: gap) :=
  ⟨bs ++ [Byte.newline], gap, by simp, hgap, .inr (by simp)⟩

theorem WholeLines.append {bs gap : List UInt8} (h : WholeLines bs) (hgap : Blank gap) :
    WholeLines (bs ++ gap) := by
  obtain ⟨lines, gap', rfl, hgap', hlines⟩ := h
  refine ⟨lines, gap' ++ gap, List.append_assoc .., fun b hb => ?_, hlines⟩
  exact (List.mem_append.mp hb).elim (hgap' b) (hgap b)

/-- Only blanks stand before this place on its line. -/
def Cursor.StartsLine (c : Cursor) : Prop :=
  WholeLines (c.text.take c.pos)

theorem DeckReader.startsLine_between {front behind : String} {keyword : Option String} :
    (between front behind keyword).cursor.StartsLine ↔ WholeLines (bytes front) := by
  have hfront : (bytes (front ++ behind)).take (0 + (bytes front).length) = bytes front := by
    rw [Text.bytes_append, Nat.zero_add, List.take_left]
  unfold Cursor.StartsLine
  rw [← hfront]
  rfl

/-- The first line of a text starts with a letter and holds no slash, or the text is empty. -/
theorem NextKeyword.text {s : String} (h : NextKeyword (bytes s)) :
    s = "" ∨ s.toList.head?.any Char.isAlpha = true ∧ '/' ∉ s.toList.takeWhile (· != '\n') := by
  by_cases hs : s = ""
  · exact .inl hs
  right
  obtain ⟨b, bs, hb⟩ := List.exists_cons_of_ne_nil (mt Text.bytes_eq_nil.mp hs)
  constructor
  · rw [← sameAscii_keyword.any_head_bytes, hb]
    have hletter : Byte.isLetter b = true := h.nextName b (by simp [hb])
    simp [(isLetter_keyword hletter).2.2]
  · have hslash := h.slash
    rwa [Text.sameAscii_ne_newline.takeWhile_bytes, Text.sameAscii_ne_slash.mem_bytes,
      String.toList_ofList] at hslash

theorem Blank.isWhiteSpace {s : String} (h : Blank (bytes s)) : ∀ c ∈ s.toList, isWhiteSpace c = true := by
  intro c hc
  have hblank : ∀ b ∈ String.utf8EncodeChar c, Byte.isBlank b = true := by
    intro b hb
    apply h
    rw [Text.bytes_eq]
    exact List.mem_flatMap_of_mem hc hb
  rcases Nat.lt_or_ge c.toNat 128 with hlow | hhigh
  · have hall : ∀ c : Char, c.toNat < 128 → Byte.isBlank (byteOfChar c) = true →
        ReservoirDeck.isWhiteSpace c = true := forall_ascii_of_lt (by decide)
    apply hall c hlow
    apply hblank
    rw [utf8EncodeChar_ascii hlow]
    exact List.mem_singleton_self _
  · obtain ⟨b, bs, hb⟩ := List.exists_cons_of_ne_nil (String.utf8EncodeChar_ne_nil (c := c))
    have hmem : b ∈ String.utf8EncodeChar c := by simp [hb]
    have hle := le_of_mem_utf8EncodeChar hhigh hmem
    exact absurd hle (UInt8.not_le.mpr (Byte.lt_of_isBlank (hblank b hmem)))

namespace Ignored

variable {z gap rest : List UInt8}

theorem Scanned.isEncoding {ahead : List UInt8} (h : Scanned z ahead) (henc : IsEncoding (z ++ ahead)) :
    IsEncoding z ∧ IsEncoding ahead := by
  cases h with
  | nil => exact ⟨Text.isEncoding_bytes "", henc⟩
  | @lines z hz =>
    rw [List.append_assoc] at henc
    obtain ⟨⟨s, rfl⟩, hahead⟩ := henc.split (by simp [Byte.newline])
    exact ⟨⟨s ++ "\n", Text.bytes_append s "\n"⟩, hahead.tail (by decide)⟩
  | text hz =>
    rw [List.append_nil] at henc
    exact ⟨henc, Text.isEncoding_bytes ""⟩

/-- The text that was passed, the blanks behind it, and the text after them. -/
theorem Scanned.texts {s : String} (h : Scanned z (gap ++ rest)) (hs : bytes s = z ++ (gap ++ rest))
    (hrest : NextKeyword rest) :
    ∃ t g u, s = t ++ g ++ u ∧ bytes t = z ∧ bytes g = gap ∧ bytes u = rest := by
  obtain ⟨⟨t, rfl⟩, hahead⟩ := h.isEncoding ⟨s, hs⟩
  obtain ⟨⟨g, rfl⟩, u, rfl⟩ := hahead.split fun b hb => by
    have hall : ∀ b, Byte.isLetter b = true → b < 128 := Byte.forall_of_digits (by decide)
    exact hall b (hrest.nextName b hb)
  refine ⟨t, g, u, ?_, rfl, rfl, rfl⟩
  apply Text.bytes_injective
  rw [hs, Text.bytes_append, Text.bytes_append, List.append_assoc]

theorem Scanned.wholeLines (h : Scanned z (gap ++ rest)) (hgap : Blank gap) (hrest : rest ≠ [])
    {front : List UInt8} (hfront : WholeLines front) : WholeLines (front ++ (z ++ gap)) := by
  generalize hahead : gap ++ rest = ahead at h
  cases h with
  | nil => exact hfront.append hgap
  | @lines z hz =>
    rw [List.append_assoc, ← List.append_assoc]
    exact wholeLines_newline _ hgap
  | text => exact absurd (List.append_eq_nil_iff.mp hahead).2 hrest

theorem read_blank {r : DeckReader} (h : Blank r.cursor.rest) :
    Ignored.read r = .ok "" (r.forward r.cursor.rest.length) := by
  have hskip := h.skipBlanks
  have hend : Leaves r.cursor.skipBlanks := by
    apply Leaves.text
    rw [hskip, Cursor.atEnd, Cursor.rest_forward, List.drop_length]
    rfl
  have hdone : ReadM.iterate step r.pos r = .ok r.pos (r.forward r.cursor.rest.length) := by
    apply ReadM.iterate_of_done
    rw [step_eq_done_iff]
    exact ⟨hend, rfl, by rw [hskip]; rfl⟩
  have hslice : (r.cursor.forward r.cursor.rest.length).slice r.cursor.pos r.cursor.pos = "" :=
    slice_forward (List.nil_append r.cursor.rest).symm r.cursor.rest.length
  rw [Ignored.read, Run.bind_get_eq, Run.bind_of_ok _ hdone, Run.bind_get_eq, Run.pure_eq,
    DeckReader.cursor_forward, DeckReader.pos, hslice]
  rfl

/-- A body that was read is read again where only a line break comes behind it. -/
theorem BodyText.read_alone {body : String} {closed : Bool} (h : BodyText body closed)
    (keyword : Option String) :
    Ignored.read (.between "" (body ++ "\n") keyword) =
      .ok body (.between (body ++ "\n") "" keyword) := by
  have hend := DeckReader.forward_between "" (body ++ "\n") "" keyword
  rw [String.append_empty, String.empty_append] at hend
  rw [← hend]
  by_cases hbody : body = ""
  · subst hbody
    exact read_blank (r := .between "" "\n" keyword) blank_newline
  · have hline : bodyLine body = bytes (body ++ "\n") := by
      rw [bodyLine, if_neg (by simpa using hbody), Text.bytes_append]
      rfl
    rw [← hline]
    refine h.read ?_ (.inr rfl) nextKeyword_nil
    rw [hline, List.append_nil, DeckReader.rest_between]

/-- A text in four parts: what is dropped before a body, the body, what is dropped behind it, and what
is not read. -/
structure Cut (text lead body trail rest : String) : Prop where
  parts : text = lead ++ body ++ trail ++ rest
  lead : ∀ c ∈ lead.toList, isLineBreak c = true
  trail : ∀ c ∈ trail.toList, isWhiteSpace c = true
  first : ∀ c ∈ body.toList.head?, isLineBreak c = false
  last : ∀ c ∈ body.toList.getLast?, isWhiteSpace c = false

/-- A text is read as a body with line breaks in front and white space behind, whatever comes before it.
What is left of it is nothing or starts a line with a letter, without a slash on that line. The body is
read again from a text with nothing else in it. -/
theorem read_kept {front text body : String} {keyword : Option String} {r' : DeckReader}
    (h : Ignored.read (.between front text keyword) = .ok body r') :
    ∃ lead trail rest : String, Cut text lead body trail rest ∧
      r' = .between (front ++ (lead ++ body ++ trail)) rest keyword ∧
      (rest = "" ∨ (rest.toList.head?.any Char.isAlpha = true ∧
        '/' ∉ rest.toList.takeWhile (· != '\n')) ∧
          ((DeckReader.between front text keyword).cursor.StartsLine → r'.cursor.StartsLine)) ∧
      ∀ keyword', Ignored.read (.between "" (body ++ "\n") keyword') =
        .ok body (.between (body ++ "\n") "" keyword') := by
  obtain ⟨closed, hbody, -⟩ := read_sound h
  obtain ⟨z, gap, ahead, hrest, rfl, hgap, hscanned, hnext, rfl⟩ := readsTo_of_read h
  rw [DeckReader.rest_between] at hrest
  obtain ⟨t, g, rest, rfl, rfl, rfl, rfl⟩ := hscanned.texts hrest hnext
  obtain ⟨lead, trail, hsplit, hlead, htrail⟩ := trimBody_split t
  rw [Text.ofBytes_bytes] at hbody ⊢
  have hpassed : lead ++ trimBody t ++ (trail ++ g) = t ++ g := by
    rw [← String.append_assoc, ← hsplit]
  have hstop : (DeckReader.between front (t ++ g ++ rest) keyword).forward
      ((bytes t).length + (bytes g).length) = .between (front ++ (t ++ g)) rest keyword := by
    rw [← List.length_append, ← Text.bytes_append, DeckReader.forward_between]
  have hcut : Cut (t ++ g ++ rest) lead (trimBody t) (trail ++ g) rest := by
    refine ⟨by rw [hpassed], hlead, ?_, head_trimBody t, getLast_trimBody t⟩
    intro c hc
    rw [String.toList_append, List.mem_append] at hc
    exact hc.elim (htrail c) (hgap.isWhiteSpace c)
  refine ⟨lead, trail ++ g, rest, hcut, by rw [hpassed, hstop], ?_, hbody.read_alone⟩
  rw [hstop, DeckReader.startsLine_between, DeckReader.startsLine_between, Text.bytes_append,
    Text.bytes_append]
  refine hnext.text.imp_right fun hname => ⟨hname, hscanned.wholeLines hgap ?_⟩
  rw [ne_eq, Text.bytes_eq_nil]
  rintro rfl
  cases hname.1

/-- Blanks and a space of another kind around a body of three pieces, with a comment on the next name
line. -/
theorem read_kept_tuning :
    let text := "\x0d\n 1 2 /\n-- x\n/\u00a0\n\t TSTEP -- y\n1 /\n"
    let body := " 1 2 /\n-- x\n/"
    ∃ lead trail r', Ignored.read (.between "TUNING\n" text none) = .ok body r' ∧
      Cut text lead body trail "TSTEP -- y\n1 /\n" ∧ r'.cursor.StartsLine ∧
      Ignored.read (.between "" (body ++ "\n") none) = .ok body (.between (body ++ "\n") "" none) := by
  intro text body
  have hread : (match Ignored.read (.between "TUNING\n" text none) with
      | .ok s r => decide (s = body ∧ r.cursor.rest = bytes "TSTEP -- y\n1 /\n")
      | .error _ _ => false) = true := by decide +kernel
  split at hread
  · next s r' h =>
    obtain ⟨rfl, hrest⟩ := of_decide_eq_true hread
    obtain ⟨lead, trail, rest, hcut, hr', hstop, hagain⟩ := read_kept h
    rw [hr', DeckReader.rest_between] at hrest
    obtain rfl := Text.bytes_injective hrest
    have hstart : (DeckReader.between "TUNING\n" text none).cursor.StartsLine :=
      DeckReader.startsLine_between.mpr (wholeLines_newline (bytes "TUNING") blank_nil)
    have hname := hstop.resolve_left (by decide)
    exact ⟨lead, trail, r', h, hcut, hname.2 hstart, hagain none⟩
  · cases hread

end Ignored

end ReservoirDeck
