import ReservoirDeck.Keyword.Ignored
import ReservoirDeck.Proofs.Reading.Tokens
import ReservoirDeck.Proofs.RoundTrip.Lists
import ReservoirDeck.Proofs.Text.Trimming

/-!
Bodies of keywords that are not understood. A body is made of pieces, each of which one round passes.
It is passed again after white space was taken from its ends, because every piece starts with a byte
that no white space holds, and a slash is no white space either.
-/

namespace ReservoirDeck

open Text (bytes)

/-- A text that is read as the name of a keyword when a line starts with it. -/
structure KeywordName (s : String) : Prop where
  bare : BareText s
  letter : (s.toList.head?.map Char.isAlpha).getD false = true

/-- A line that starts with a letter and holds no slash comes next, or nothing. -/
structure NextKeyword (rest : List UInt8) : Prop where
  nextName : NextName rest
  slash : Byte.slash ∉ rest.takeWhile (· != Byte.newline)

theorem nextKeyword_nil : NextKeyword [] where
  nextName := fun b hb => by cases hb
  slash := by simp

theorem KeywordName.cons {s : String} (h : KeywordName s) :
    ∃ b l, bytes s = b :: l ∧ Byte.isLetter b = true := by
  obtain ⟨b, l, hb, -⟩ := h.bare.bytes
  have hletter := h.letter
  refine ⟨b, l, hb, nextName_bytes (s := s) ?_ b (by simp [hb])⟩
  cases hs : s.toList.head? <;> simp_all

theorem KeywordName.not_mem {s : String} (h : KeywordName s) :
    Byte.newline ∉ bytes s ∧ Byte.slash ∉ bytes s := by
  obtain ⟨b, l, hb, -, hends, -⟩ := h.bare.bytes
  rw [hb]
  exact ⟨fun hmem => Bool.noConfusion (hends _ hmem), fun hmem => Bool.noConfusion (hends _ hmem)⟩

namespace Ignored

/-- Data that does not end a run: no line break comes after a slash on its line. The flags say
whether a slash was seen on the first line, and on the last. -/
inductive Scans : Bool → List UInt8 → Bool → Prop
  | nil (seen : Bool) : Scans seen [] seen
  | newline {after : Bool} {l : List UInt8} (h : Scans false l after) :
      Scans false (Byte.newline :: l) after
  | byte {seen after : Bool} {b : UInt8} {l : List UInt8} (hb : b ≠ Byte.newline)
      (h : Scans (seen || b == Byte.slash) l after) : Scans seen (b :: l) after

variable {seen after : Bool} {l tl : List UInt8}

theorem Scans.dataSize_append (h : Scans seen l after) (rest : List UInt8) :
    dataSize seen (l ++ rest) = l.length + dataSize after rest := by
  induction h with
  | nil => simp
  | newline h ih => simp [dataSize, ih, Nat.add_right_comm]
  | byte hb h ih => simp [dataSize, hb, ih, Nat.add_right_comm]

theorem Scans.split (h : Scans seen (l ++ tl) after) :
    ∃ middle, Scans seen l middle ∧ Scans middle tl after := by
  induction l generalizing seen with
  | nil => exact ⟨seen, .nil seen, h⟩
  | cons b l ih =>
    cases h with
    | newline h =>
      obtain ⟨middle, hl, htl⟩ := ih h
      exact ⟨middle, .newline hl, htl⟩
    | byte hb h =>
      obtain ⟨middle, hl, htl⟩ := ih h
      exact ⟨middle, .byte hb hl, htl⟩

theorem Scans.seen_of_not_mem (h : Scans seen l true) (hslash : Byte.slash ∉ l) : seen = true := by
  induction l generalizing seen with
  | nil =>
    cases h
    rfl
  | cons b l ih =>
    rw [List.mem_cons, not_or] at hslash
    cases h with
    | newline h => exact ih h hslash.2
    | byte hb h => simpa [Ne.symm hslash.1] using ih h hslash.2

/-- What one round passes, without its line break: a comment, a line with a slash in it, or a run of
data. The flag is off for a run of data that only the end of the text ends. -/
inductive Piece : List UInt8 → Bool → Prop
  | comment {l : List UInt8} (hline : Byte.newline ∉ l) : Piece (Byte.dash :: Byte.dash :: l) true
  | slash {l : List UInt8} (hline : Byte.newline ∉ l) : Piece (Byte.slash :: l) true
  | letter {b : UInt8} {l : List UInt8} (hb : Byte.isLetter b = true) (hslash : Byte.slash ∈ l)
      (hline : Byte.newline ∉ l) : Piece (b :: l) true
  | data {b : UInt8} {l : List UInt8} {closed : Bool}
      (hb : Lookahead.ofByte b = .data ∨ Lookahead.ofByte b = .quoted)
      (hdash : ¬ (b = Byte.dash ∧ l.head? = some Byte.dash)) (hscan : Scans false (b :: l) closed) :
      Piece (b :: l) closed

/-- Pieces on lines of their own, with blanks in front of each, and no line break after the last. -/
inductive Body : List UInt8 → Bool → Prop
  | last {gap p : List UInt8} {closed : Bool} (hgap : Blank gap) (hp : Piece p closed) :
      Body (gap ++ p) closed
  | cons {gap p z : List UInt8} {closed : Bool} (hgap : Blank gap) (hp : Piece p true)
      (hz : Body z closed) : Body (gap ++ (p ++ Byte.newline :: z)) closed

theorem not_isWhite_of_data {b : UInt8}
    (h : Lookahead.ofByte b = .data ∨ Lookahead.ofByte b = .quoted) : Byte.isWhite b = false := by
  have hall : ∀ b, Lookahead.ofByte b = .data ∨ Lookahead.ofByte b = .quoted →
      Byte.isWhite b = false := Byte.forall_of_digits (by decide)
  exact hall b h

theorem not_isWhite_of_isLetter {b : UInt8} (h : Byte.isLetter b = true) :
    Byte.isWhite b = false := by
  have hall : ∀ b, Byte.isLetter b = true → Byte.isWhite b = false :=
    Byte.forall_of_digits (by decide)
  exact hall b h

variable {p z w : List UInt8} {closed : Bool}

theorem Piece.cons (h : Piece p closed) : ∃ b l, p = b :: l ∧ Byte.isWhite b = false := by
  cases h with
  | comment => exact ⟨_, _, rfl, rfl⟩
  | slash => exact ⟨_, _, rfl, rfl⟩
  | letter hb => exact ⟨_, _, rfl, not_isWhite_of_isLetter hb⟩
  | data hb => exact ⟨_, _, rfl, not_isWhite_of_data hb⟩

theorem Body.exists_not_isWhite (h : Body z closed) : ∃ b ∈ z, Byte.isWhite b = false := by
  cases h with
  | last _ hp =>
    obtain ⟨b, l, rfl, hb⟩ := hp.cons
    exact ⟨b, by simp, hb⟩
  | cons _ hp _ =>
    obtain ⟨b, l, rfl, hb⟩ := hp.cons
    exact ⟨b, by simp, hb⟩

/-- A piece without the white space at its end is a piece, and still ends where it did. -/
theorem Piece.dropEnd {x : List UInt8} (h : Piece (x ++ w) closed) (hw : White w) :
    ∃ closed', Piece x closed' ∧ (closed = true → closed' = true) := by
  have hslash : Byte.slash ∉ w := fun hmem => by
    have := hw _ hmem
    cases this
  generalize hp : x ++ w = p at h
  cases h with
  | comment hline =>
    obtain ⟨x, rfl, htl⟩ := hw.split rfl hp.symm
    obtain ⟨x, rfl, rfl⟩ := hw.split rfl htl
    exact ⟨true, .comment fun hmem => hline (List.mem_append_left w hmem), fun _ => rfl⟩
  | slash hline =>
    obtain ⟨x, rfl, rfl⟩ := hw.split rfl hp.symm
    exact ⟨true, .slash fun hmem => hline (List.mem_append_left w hmem), fun _ => rfl⟩
  | letter hb hmem hline =>
    obtain ⟨x, rfl, rfl⟩ := hw.split (not_isWhite_of_isLetter hb) hp.symm
    exact ⟨true, .letter hb ((List.mem_append.mp hmem).resolve_right hslash)
      fun hmem => hline (List.mem_append_left w hmem), fun _ => rfl⟩
  | @data b l _ hb hdash hscan =>
    obtain ⟨x, rfl, rfl⟩ := hw.split (not_isWhite_of_data hb) hp.symm
    rw [← List.cons_append] at hscan
    obtain ⟨middle, hx, hend⟩ := hscan.split
    refine ⟨middle, .data hb (fun h => hdash ⟨h.1, ?_⟩) hx, ?_⟩
    · simp [List.head?_append, h.2]
    · rintro rfl
      exact hend.seen_of_not_mem hslash

theorem Body.dropFront {front : List UInt8} (h : Body (front ++ z) closed) (hfront : Blank front) :
    Body z closed := by
  have hsplit : ∀ {gap p y : List UInt8} {closed : Bool}, Blank gap → Piece p closed →
      front ++ z = gap ++ (p ++ y) → ∃ gap', Blank gap' ∧ z = gap' ++ (p ++ y) := by
    intro gap p y closed hgap hp heq
    rcases List.append_eq_append_iff.mp heq with ⟨gap', rfl, rfl⟩ | ⟨c, rfl, hc⟩
    · exact ⟨gap', fun b hb => hgap b (List.mem_append_right front hb), rfl⟩
    · obtain ⟨b, l, rfl, hb⟩ := hp.cons
      cases c with
      | nil => exact ⟨[], blank_nil, hc.symm⟩
      | cons b' c =>
        obtain ⟨rfl, -⟩ := List.cons.inj hc
        rw [isWhite_of_isBlank (hfront b (by simp))] at hb
        cases hb
  generalize hfull : front ++ z = full at h
  cases h with
  | last hgap hp =>
    obtain ⟨gap', hgap', hz⟩ := hsplit (y := []) hgap hp (by simpa using hfull)
    rw [hz, List.append_nil]
    exact .last hgap' hp
  | cons hgap hp hy =>
    obtain ⟨gap', hgap', rfl⟩ := hsplit hgap hp hfull
    exact .cons hgap' hp hy

theorem Body.dropEnd (h : Body (z ++ w) closed) (hw : White w) :
    ∃ closed', Body z closed' ∧ (closed = true → closed' = true) := by
  generalize hfull : z ++ w = full at h
  induction h generalizing z with
  | @last gap p closed hgap hp =>
    rcases List.append_eq_append_iff.mp hfull with ⟨c, rfl, hc⟩ | ⟨p', rfl, rfl⟩
    · obtain ⟨b, l, rfl, hb⟩ := hp.cons
      rw [hw b (by simp [hc])] at hb
      cases hb
    · obtain ⟨closed', hp', hclosed⟩ := hp.dropEnd hw
      exact ⟨closed', .last hgap hp', hclosed⟩
  | @cons gap p y closed hgap hp hy ih =>
    rw [show gap ++ (p ++ Byte.newline :: y) = gap ++ (p ++ [Byte.newline]) ++ y by simp] at hfull
    rcases List.append_eq_append_iff.mp hfull with ⟨c, -, hc⟩ | ⟨y', rfl, hy'⟩
    · obtain ⟨b, hmem, hb⟩ := hy.exists_not_isWhite
      rw [hw b (by simp [hc, hmem])] at hb
      cases hb
    · obtain ⟨closed', hbody, hclosed⟩ := ih hy'.symm
      refine ⟨closed', ?_, hclosed⟩
      simpa using Body.cons hgap hp hbody

theorem Body.snoc (h : Body z true) {gap : List UInt8} (hgap : Blank gap) (hp : Piece p closed) :
    Body (z ++ Byte.newline :: (gap ++ p)) closed := by
  generalize hdone : true = done at h
  induction h with
  | last hgap' hp' =>
    subst hdone
    rw [List.append_assoc]
    exact .cons hgap' hp' (.last hgap hp)
  | cons hgap' hp' _ ih =>
    simpa using Body.cons hgap' hp' (ih hdone)

/-- What trimming takes from a text: line breaks in front of the body, and white space behind it. -/
theorem trimBody_split (t : String) :
    ∃ lead trail : String, t = lead ++ trimBody t ++ trail ∧
      (∀ c ∈ lead.toList, isLineBreak c = true) ∧ ∀ c ∈ trail.toList, isWhiteSpace c = true := by
  let cs := t.toList.dropWhile isLineBreak
  refine ⟨String.ofList (t.toList.takeWhile isLineBreak),
    String.ofList (cs.rtakeWhile isWhiteSpace), ?_, ?_, ?_⟩
  · have hbody : (trimBody t).toList = cs.rdropWhile isWhiteSpace := by
      rw [trimBody, Text.trimEnd, String.toList_ofList, String.toList_ofList, Text.dropEndWhile_eq]
    rw [← String.toList_inj]
    simp only [String.toList_append, String.toList_ofList, hbody, List.append_assoc]
    rw [List.rdropWhile_append_rtakeWhile, List.takeWhile_append_dropWhile]
  · intro c hc
    rw [String.toList_ofList] at hc
    exact List.mem_takeWhile_imp hc
  · intro c hc
    rw [String.toList_ofList] at hc
    exact List.mem_rtakeWhile_imp hc

theorem bytes_trimBody (t : String) :
    ∃ front w, bytes t = front ++ (bytes (trimBody t) ++ w) ∧ Blank front ∧ White w := by
  obtain ⟨lead, trail, hsplit, hlead, htrail⟩ := trimBody_split t
  refine ⟨bytes lead, bytes trail, ?_, ?_, ?_⟩
  · conv_lhs => rw [hsplit]
    rw [Text.bytes_append, Text.bytes_append, List.append_assoc]
  · intro b hb
    rw [Text.bytes_eq, List.mem_flatMap] at hb
    obtain ⟨c, hc, hb⟩ := hb
    have hbreak := hlead c hc
    simp only [isLineBreak, Bool.or_eq_true, beq_iff_eq] at hbreak
    rcases hbreak with rfl | rfl <;>
    · rw [utf8EncodeChar_ascii (by decide), List.mem_singleton] at hb
      subst hb
      rfl
  · intro b hb
    rw [Text.bytes_eq, List.mem_flatMap] at hb
    obtain ⟨c, hc, hb⟩ := hb
    exact white_utf8EncodeChar (htrail c hc) b hb

theorem head_trimBody (t : String) : ∀ c ∈ (trimBody t).toList.head?, isLineBreak c = false := by
  have hfront : (trimBody t).toList.dropWhile isLineBreak = (trimBody t).toList := by
    simp only [trimBody, Text.trimEnd, String.toList_ofList, Text.dropWhile_dropEndWhile]
  intro c hc
  rw [List.eq_cons_of_mem_head? hc, List.dropWhile_eq_self_iff] at hfront
  simpa using hfront

theorem getLast_trimBody (t : String) :
    ∀ c ∈ (trimBody t).toList.getLast?, isWhiteSpace c = false := by
  intro c hc
  rw [trimBody, Text.trimEnd, String.toList_ofList, String.toList_ofList, Text.dropEndWhile_eq] at hc
  obtain ⟨hne, rfl⟩ := List.mem_getLast?_eq_getLast hc
  simpa using List.rdropWhile_last_not isWhiteSpace _ hne

@[simp] theorem trimBody_trimBody (t : String) : trimBody (trimBody t) = trimBody t := by
  simp only [trimBody, Text.trimEnd, String.toList_ofList, Text.dropEndWhile_idem,
    Text.dropWhile_dropEndWhile]

theorem trimBody_newline (t : String) : trimBody (t ++ "\n") = trimBody t := by
  have hwhite : isWhiteSpace '\n' = true := rfl
  simp only [trimBody, Text.trimEnd, String.toList_ofList, String.toList_append, Text.dropEndWhile_eq]
  rw [show "\n".toList = ['\n'] from rfl, List.dropWhile_append]
  congr 1
  split
  · next hall =>
    rw [List.isEmpty_iff.mp hall]
    rfl
  · rw [List.rdropWhile_concat_pos _ _ _ hwhite]

theorem bytes_trimBody_ne (t : String) (x : List UInt8) : bytes (trimBody t) ≠ x ++ [Byte.newline] := by
  intro h
  have hend : Text.dropEndWhile isWhiteSpace (trimBody t).toList = (trimBody t).toList := by
    rw [trimBody, Text.trimEnd, String.toList_ofList, Text.dropEndWhile_idem]
  cases Text.not_isBlank_of_last hend h

/-- A body that is read again as it is: nothing, or pieces without a line break in front and white
space behind. -/
structure BodyText (s : String) (closed : Bool) : Prop where
  pieces : s ≠ "" → Body (bytes s) closed
  trimmed : trimBody (s ++ "\n") = s

theorem bodyText_empty : BodyText "" true where
  pieces h := absurd rfl h
  trimmed := rfl

theorem Body.bodyText {t : String} (h : Body z closed)
    (ht : bytes t = z ∨ bytes t = z ++ [Byte.newline]) :
    ∃ closed', BodyText (trimBody t) closed' ∧ (closed = true → closed' = true) := by
  have htrimmed : trimBody (trimBody t ++ "\n") = trimBody t := by
    rw [trimBody_newline, trimBody_trimBody]
  by_cases hempty : trimBody t = ""
  · exact ⟨true, ⟨fun hne => absurd hempty hne, htrimmed⟩, fun _ => rfl⟩
  obtain ⟨front, w, hsplit, hfront, hw⟩ := bytes_trimBody t
  obtain ⟨w', hw', hz⟩ : ∃ w', White w' ∧ z = front ++ (bytes (trimBody t) ++ w') := by
    rcases ht with ht | ht
    · exact ⟨w, hw, ht.symm.trans hsplit⟩
    · rw [hsplit] at ht
      rcases List.eq_nil_or_concat' w with rfl | ⟨w', b, rfl⟩
      · obtain ⟨x, b, hx⟩ := (List.eq_nil_or_concat' (bytes (trimBody t))).resolve_left
          (mt Text.bytes_eq_nil.mp hempty)
        rw [List.append_nil, hx, ← List.append_assoc] at ht
        obtain rfl : b = Byte.newline := by simpa using (List.append_inj' ht rfl).2
        exact absurd hx (bytes_trimBody_ne t x)
      · simp only [← List.append_assoc] at ht
        refine ⟨w', fun c hc => hw c (List.mem_append_left [b] hc), ?_⟩
        rw [← (List.append_inj' ht rfl).1, List.append_assoc]
  obtain ⟨closed', hbody, hclosed⟩ := (Body.dropFront (hz ▸ h) hfront).dropEnd hw'
  exact ⟨closed', ⟨fun _ => hbody, htrimmed⟩, hclosed⟩

theorem step_eq (stop : Nat) (r : DeckReader) : step stop r =
    let c := r.cursor.skipBlanks
    if c.atEnd then .ok (.inr stop) (r.moveTo c)
    else if c.atComment then .ok (.inl c.skipLine.pos) (r.moveTo c.skipLine)
    else
      match Lookahead.ofByte c.current with
      | .terminator => .ok (.inl c.skipLine.pos) (r.moveTo c.skipLine)
      | .keyword =>
        if c.lineHasTerminator then .ok (.inl c.skipLine.pos) (r.moveTo c.skipLine)
        else .ok (.inr stop) (r.moveTo c)
      | .data | .quoted => .ok (.inl (passData c).pos) (r.moveTo (passData c))
      | _ => ReadM.malformed (.strayInIgnored c.current) (r.moveTo c) := by
  simp only [step, Run.bind_modify_eq, Run.bind_get_eq, DeckReader.moveTo]
  generalize r.cursor.skipBlanks = c
  by_cases hend : c.atEnd = true
  · simp [hend]
  by_cases hcomment : c.atComment = true
  · simp [hend, hcomment]
  simp only [hend, hcomment, Bool.false_eq_true, if_false]
  cases Lookahead.ofByte c.current with
  | keyword => by_cases hline : c.lineHasTerminator = true <;> simp [hline]
  | _ => rfl

/-- The bytes that one round passes, from the place after the blanks: a line, or the lines of a run of
data. -/
inductive Round (c : Cursor) : Nat → Prop
  | comment (h : c.atComment = true) : Round c (Cursor.lineSize c.rest)
  | slash (h : Lookahead.ofByte c.current = .terminator) : Round c (Cursor.lineSize c.rest)
  | letter (h : Lookahead.ofByte c.current = .keyword) (hmark : c.lineHasTerminator = true) :
      Round c (Cursor.lineSize c.rest)
  | data (hcomment : c.atComment = false)
      (h : Lookahead.ofByte c.current = .data ∨ Lookahead.ofByte c.current = .quoted) :
      Round c (dataSize false c.rest)

theorem step_eq_next {stop stop' : Nat} {r r' : DeckReader} :
    step stop r = .ok (.inl stop') r' ↔ r.cursor.skipBlanks.atEnd = false ∧
      ∃ n, Round r.cursor.skipBlanks n ∧ stop' = (r.cursor.skipBlanks.forward n).pos ∧
        r' = r.moveTo (r.cursor.skipBlanks.forward n) := by
  rw [step_eq]
  generalize r.cursor.skipBlanks = c
  constructor
  · intro h
    dsimp only at h
    split at h
    · cases h
    next hsome =>
    refine ⟨by simpa using hsome, ?_⟩
    split at h
    · next hcomment =>
      cases h
      exact ⟨_, .comment hcomment, rfl, rfl⟩
    next hcomment =>
    split at h
    · next hslash =>
      cases h
      exact ⟨_, .slash hslash, rfl, rfl⟩
    · next hletter =>
      split at h
      · next hmark =>
        cases h
        exact ⟨_, .letter hletter hmark, rfl, rfl⟩
      · cases h
    · next hdata =>
      cases h
      exact ⟨_, .data (by simpa using hcomment) (.inl hdata), rfl, rfl⟩
    · next hquoted =>
      cases h
      exact ⟨_, .data (by simpa using hcomment) (.inr hquoted), rfl, rfl⟩
    · cases h
  · rintro ⟨hsome, n, hround, rfl, rfl⟩
    simp only [hsome, Bool.false_eq_true, if_false]
    cases hround with
    | comment h => simp [h, Cursor.skipLine]
    | slash h => simp [h, Cursor.skipLine]
    | letter h hmark => simp [h, hmark, Cursor.skipLine]
    | data hcomment h => rcases h with h | h <;> simp [hcomment, h, passData]

/-- Where a body ends: at the end of the text, or before a line that starts with a letter and holds no
slash. -/
inductive Leaves (c : Cursor) : Prop
  | text (h : c.atEnd = true) : Leaves c
  | name (hsome : c.atEnd = false) (hcomment : c.atComment = false)
      (h : Lookahead.ofByte c.current = .keyword) (hmark : c.lineHasTerminator = false) : Leaves c

theorem step_eq_done_iff {stop stop' : Nat} {r r' : DeckReader} : step stop r = .ok (.inr stop') r' ↔
    Leaves r.cursor.skipBlanks ∧ stop' = stop ∧ r' = r.moveTo r.cursor.skipBlanks := by
  rw [step_eq]
  generalize r.cursor.skipBlanks = c
  constructor
  · intro h
    dsimp only at h
    split at h
    · next hend =>
      cases h
      exact ⟨.text hend, rfl, rfl⟩
    next hsome =>
    split at h
    · cases h
    next hcomment =>
    split at h
    · cases h
    · next hletter =>
      split at h
      · cases h
      · next hmark =>
        cases h
        exact ⟨.name (by simpa using hsome) (by simpa using hcomment) hletter (by simpa using hmark),
          rfl, rfl⟩
    · cases h
    · cases h
    · cases h
  · rintro ⟨hleaves, rfl, rfl⟩
    cases hleaves with
    | text h => simp [h]
    | name hsome hcomment h hmark => simp [hsome, hcomment, h, hmark]

theorem leaves_iff {c : Cursor} : Leaves c ↔ NextKeyword c.rest := by
  constructor
  · intro h
    cases h with
    | text h =>
      rw [List.isEmpty_iff.mp h]
      exact nextKeyword_nil
    | name hsome hcomment h hmark =>
      constructor
      · intro b hb
        rw [Cursor.current, List.headD_eq_head?_getD, hb] at h
        exact isLetter_of_keyword h
      · rw [Cursor.lineHasTerminator, Cursor.line] at hmark
        simpa using hmark
  · intro h
    obtain ⟨hname, hslash⟩ := h
    cases hc : c.rest with
    | nil => exact .text (by simp [Cursor.atEnd, hc])
    | cons b tl =>
      obtain ⟨-, hdash, hnext⟩ := isLetter_keyword (hname b (by simp [hc]))
      have hcurrent : c.current = b := by simp [Cursor.current, hc]
      have hmark : c.lineHasTerminator = false := by
        rw [Cursor.lineHasTerminator, Cursor.line]
        simpa using hslash
      refine .name (by simp [Cursor.atEnd, hc]) ?_ (hcurrent ▸ hnext) hmark
      simp [Cursor.atComment, hcurrent, hdash]

theorem lineSize_eq {c : Cursor} {rest : List UInt8} (hp : Byte.newline ∉ p)
    (hc : c.rest = p ++ Byte.newline :: rest) : Cursor.lineSize c.rest = p.length + 1 := by
  rw [hc, lineSize_append hp]

theorem line_eq {c : Cursor} {rest : List UInt8} (hp : Byte.newline ∉ p)
    (hc : c.rest = p ++ Byte.newline :: rest) : c.line = p := by
  rw [Cursor.line, hc]
  exact takeWhile_append_of_stop (fun b hb => bne_iff_ne.mpr (ne_of_mem_of_not_mem hb hp))
    (by simp)

theorem Piece.round (hp : Piece p closed) {c : Cursor} {rest : List UInt8}
    (hc : c.rest = p ++ Byte.newline :: rest) (hend : closed = true ∨ rest = []) :
    Round c (p.length + 1) := by
  cases hp with
  | comment hline =>
    rw [← lineSize_eq (by simpa [Byte.newline, Byte.dash] using hline) hc]
    exact .comment (by simp [Cursor.atComment, Cursor.current, Cursor.peek, hc])
  | slash hline =>
    rw [← lineSize_eq (by simpa [Byte.newline, Byte.slash] using hline) hc]
    have hcurrent : c.current = Byte.slash := by simp [Cursor.current, hc]
    exact .slash (by rw [hcurrent]; rfl)
  | @letter b l hletter hslash hline =>
    have hbreak : Byte.newline ∉ b :: l := by
      rw [List.mem_cons, not_or]
      refine ⟨?_, hline⟩
      rintro rfl
      cases hletter
    rw [← lineSize_eq hbreak hc]
    refine .letter (by simp [Cursor.current, hc, (isLetter_keyword hletter).2.2]) ?_
    simp [Cursor.lineHasTerminator, line_eq hbreak hc, hslash]
  | @data b l _ hdata hdash hscan =>
    have hsize : dataSize false c.rest = (b :: l).length + 1 := by
      rw [hc, hscan.dataSize_append]
      rcases hend with rfl | rfl
      · simp [dataSize]
      · cases closed <;> simp [dataSize]
    rw [← hsize]
    refine .data ?_ (by simpa [Cursor.current, hc] using hdata)
    cases l with
    | nil => simp [Cursor.atComment, Cursor.current, Cursor.peek, hc, Byte.newline, Byte.dash]
    | cons b' l => simpa [Cursor.atComment, Cursor.current, Cursor.peek, hc] using hdash

theorem step_piece (stop : Nat) {r : DeckReader} {gap rest : List UInt8} (hgap : Blank gap)
    (hp : Piece p closed) (hr : r.cursor.rest = gap ++ (p ++ Byte.newline :: rest))
    (hend : closed = true ∨ rest = []) :
    step stop r = .ok (.inl (r.forward (gap.length + (p.length + 1))).pos)
      (r.forward (gap.length + (p.length + 1))) := by
  obtain ⟨b, l, hb, hwhite⟩ := hp.cons
  have hblank : Byte.isBlank b = false := by
    rw [← Bool.not_eq_true]
    exact fun h => by simp [isWhite_of_isBlank h] at hwhite
  have hskip : r.cursor.skipBlanks = r.cursor.forward gap.length :=
    skipBlanks_of_gap hgap (by rw [hr, hb, List.cons_append]) hblank
  have hrest : (r.cursor.forward gap.length).rest = p ++ Byte.newline :: rest := by
    rw [Cursor.rest_forward, hr, List.drop_left]
  rw [step_eq_next, hskip]
  refine ⟨?_, _, hp.round hrest hend, ?_, ?_⟩
  · rw [Cursor.atEnd, hrest]
    simp
  · rw [Cursor.forward_forward]
    rfl
  · rw [Cursor.forward_forward]
    rfl

theorem step_name (stop : Nat) {r : DeckReader} (h : NextKeyword r.cursor.rest) :
    step stop r = .ok (.inr stop) r := by
  have hskip : r.cursor.skipBlanks = r.cursor := by
    apply Cursor.skipBlanks_of_significant
    intro b bs hb
    obtain ⟨hblank, hdash, -⟩ := isLetter_keyword (h.nextName b (by simp [hb]))
    exact ⟨hblank, fun hdashes => hdash hdashes.1⟩
  rw [step_eq_done_iff, hskip]
  exact ⟨leaves_iff.mpr h, rfl, rfl⟩

/-- A body is passed up to the name of the next keyword. A run of data that no slash ends goes to the
end of the text. -/
theorem Body.iterate (h : Body z closed) (stop : Nat) {r : DeckReader} {rest : List UInt8}
    (hr : r.cursor.rest = z ++ Byte.newline :: rest) (hend : closed = true ∨ rest = [])
    (hnext : NextKeyword rest) :
    ReadM.iterate step stop r =
      .ok (r.forward (z.length + 1)).pos (r.forward (z.length + 1)) := by
  induction h generalizing stop r with
  | @last gap p closed hgap hp =>
    rw [List.append_assoc] at hr
    have hstep := step_piece stop hgap hp hr hend
    rw [ReadM.iterate_of_forward hstep (by omega) (by simp [hr]), List.length_append, Nat.add_assoc]
    refine ReadM.iterate_of_done (step_name _ ?_)
    rw [DeckReader.rest_forward, hr]
    simpa using hnext
  | @cons gap p z closed hgap hp hz ih =>
    rw [List.append_assoc, List.append_assoc, List.cons_append] at hr
    have hstep := step_piece stop hgap hp hr (.inl rfl)
    have hsize : gap.length + (p.length + 1) + (z.length + 1) =
        (gap ++ (p ++ Byte.newline :: z)).length + 1 := by
      simp
      omega
    rw [ReadM.iterate_of_forward hstep (by omega) (by simp [hr]), ih _ (by simp [hr]) hend,
      DeckReader.forward_forward, hsize]

theorem slice_forward {c : Cursor} {x rest : List UInt8} (hc : c.rest = x ++ rest) (n : Nat) :
    (c.forward n).slice c.pos (c.pos + x.length) = Text.ofBytes x := by
  have hdrop : c.text.drop c.pos = x ++ rest := c.rest_eq.symm.trans hc
  rw [Cursor.slice, Cursor.text_forward, List.drop_take, hdrop, Nat.add_sub_cancel_left]
  simp

def bodyLine (s : String) : List UInt8 :=
  if s.isEmpty then [] else bytes s ++ [Byte.newline]

theorem BodyText.read {s : String} (h : BodyText s closed) {r : DeckReader} {rest : List UInt8}
    (hr : r.cursor.rest = bodyLine s ++ rest) (hend : closed = true ∨ rest = [])
    (hnext : NextKeyword rest) : Ignored.read r = .ok s (r.forward (bodyLine s).length) := by
  have hlines : ReadM.iterate step r.pos r =
      .ok (r.pos + (bodyLine s).length) (r.forward (bodyLine s).length) ∧
        trimBody (Text.ofBytes (bodyLine s)) = s := by
    by_cases hs : s = ""
    · subst hs
      exact ⟨ReadM.iterate_of_done (step_name _ (hr ▸ hnext)), rfl⟩
    · have hbody : bodyLine s = bytes s ++ [Byte.newline] := if_neg (by simpa using hs)
      have hline : bodyLine s = bytes (s ++ "\n") := by
        rw [hbody, Text.bytes_append]
        rfl
      refine ⟨?_, by rw [hline, Text.ofBytes_bytes, h.trimmed]⟩
      rw [hbody, List.append_assoc] at hr
      rw [(h.pieces hs).iterate r.pos hr hend hnext, hbody, List.length_append]
      rfl
  rw [Ignored.read, Run.bind_get_eq, Run.bind_of_ok _ hlines.1, Run.bind_get_eq, Run.pure_eq]
  rw [DeckReader.cursor_forward, DeckReader.pos, slice_forward hr, hlines.2]

end Ignored

end ReservoirDeck
