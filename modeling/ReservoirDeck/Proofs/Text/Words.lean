import Mathlib.Data.List.TakeWhile
import ReservoirDeck.Proofs.Reading.Run
import ReservoirDeck.Proofs.Text.Encoding
import ReservoirDeck.Writer

/-!
Written words and the tokens they are read as. Words with blanks between them are read one by one,
each as it was written.
-/

namespace ReservoirDeck

namespace DeckReader

def forward (r : DeckReader) (n : Nat) : DeckReader :=
  r.moveTo (r.cursor.forward n)

@[simp] theorem rest_forward (r : DeckReader) (n : Nat) :
    (r.forward n).cursor.rest = r.cursor.rest.drop n := rfl

theorem cursor_forward (r : DeckReader) (n : Nat) : (r.forward n).cursor = r.cursor.forward n := rfl

@[simp] theorem forward_zero (r : DeckReader) : r.forward 0 = r := rfl

@[simp] theorem forward_forward (r : DeckReader) (m n : Nat) :
    (r.forward m).forward n = r.forward (m + n) := by
  simp [forward, moveTo, Cursor.forward_forward]

theorem rest_forward_length {r : DeckReader} {w rest : List UInt8} (h : r.cursor.rest = w ++ rest) :
    (r.forward w.length).cursor.rest = rest := by
  simp [h]

theorem remaining_forward_lt {r : DeckReader} {w rest : List UInt8} (h : r.cursor.rest = w ++ rest)
    (hw : w ≠ []) : (r.forward w.length).remaining < r.remaining :=
  Cursor.remaining_forward_lt (by simp [h, hw]) (List.length_pos_iff.mpr hw)

end DeckReader

theorem takeWhile_append_of_stop {α : Type} {p : α → Bool} {w rest : List α}
    (hw : ∀ b ∈ w, p b = true) (hrest : ∀ b ∈ rest.head?, p b = false) :
    (w ++ rest).takeWhile p = w := by
  rw [List.takeWhile_append_of_pos hw]
  cases rest with
  | nil => simp
  | cons b rest => simp [hrest b rfl]

theorem length_takeWhile_lt {α : Type} {p : α → Bool} {b : α} {w : List α} (hb : b ∈ w)
    (hp : p b = false) : (w.takeWhile p).length < w.length := by
  induction w with
  | nil => cases hb
  | cons c w ih =>
    rw [List.takeWhile_cons]
    split
    · next hc =>
      have hne : b ≠ c := fun heq => by simp [heq, hc] at hp
      exact Nat.succ_lt_succ (ih ((List.mem_cons.mp hb).resolve_left hne))
    · exact Nat.succ_pos _

theorem takeWhile_append_of_mem {α : Type} {p : α → Bool} {b : α} {w : List α} (hb : b ∈ w)
    (hp : p b = false) (x : List α) : (w ++ x).takeWhile p = w.takeWhile p := by
  rw [List.takeWhile_append, if_neg (Nat.ne_of_lt (length_takeWhile_lt hb hp))]

/-- Only bytes that separate tokens. -/
def Blank (gap : List UInt8) : Prop :=
  ∀ b ∈ gap, Byte.isBlank b = true

theorem blank_nil : Blank [] := by
  simp [Blank]

theorem blank_newline : Blank [Byte.newline] := by
  simp [Blank, Byte.isBlank]

/-- A bare token ends before these bytes. -/
def Separated (rest : List UInt8) : Prop :=
  ∀ b ∈ rest.head?, Byte.endsBare b = true

/-- A text that is one bare token when it is written as it is. -/
def BareText (s : String) : Prop :=
  s ≠ "" ∧ readsBackBare s.toList = true

/-- A text that can stand between apostrophes. -/
def QuotableText (s : String) : Prop :=
  ∀ c ∈ s.toList, c ≠ '\'' ∧ c ≠ '\n'

/-- A written word, with the text and the quoting of the token it is read as. -/
inductive Word : (written text : String) → Quoting → Prop
  | slash : Word "/" "/" .bare
  | bare {s : String} (h : BareText s) : Word s s .bare
  | quoted {s : String} (h : QuotableText s) : Word ("'" ++ s ++ "'") s .quoted

theorem separated_nil : Separated [] := by
  simp [Separated]

theorem Separated.append {w rest : List UInt8} (hw : Separated w) (hrest : Separated rest) :
    Separated (w ++ rest) := by
  cases w with
  | nil => exact hrest
  | cons b w => exact hw

theorem Blank.separated {gap : List UInt8} (h : Blank gap) (hne : gap ≠ []) (rest : List UInt8) :
    Separated (gap ++ rest) := by
  obtain ⟨b, gap, rfl⟩ := List.exists_cons_of_ne_nil hne
  simp [Separated, Byte.endsBare, h b List.mem_cons_self]

theorem Blank.separated_append {gap rest : List UInt8} (h : Blank gap) (hrest : Separated rest) :
    Separated (gap ++ rest) := by
  by_cases hne : gap = []
  · rwa [hne, List.nil_append]
  · exact h.separated hne rest

theorem separated_cons {b : UInt8} {rest : List UInt8} :
    Separated (b :: rest) ↔ Byte.endsBare b = true := by
  simp [Separated]

theorem separated_dropWhile (rest : List UInt8) :
    Separated (rest.dropWhile (!Byte.endsBare ·)) := by
  intro b hb
  have hstop := List.head?_dropWhile_not (!Byte.endsBare ·) rest
  rw [Option.mem_def.mp hb] at hstop
  simpa using hstop

theorem sameAscii_ne_quote : SameAscii (· != Byte.quote) (· != '\'') :=
  sameAscii_ne '\'' (by decide)

theorem sameAscii_ne_dash : SameAscii (· != Byte.dash) (· != '-') :=
  sameAscii_ne '-' (by decide)

theorem sameAscii_bare : SameAscii (!Byte.endsBare ·) (!endsBareChar ·) := by
  have hblank := (((sameAscii_ne ' ' (by decide)).and (sameAscii_ne '\t' (by decide))).and
    (sameAscii_ne '\x0d' (by decide))).and (sameAscii_ne '\n' (by decide))
  have hall := (hblank.and (sameAscii_ne '/' (by decide))).and (sameAscii_ne '\x00' (by decide))
  convert hall using 2 with b c
  · simp only [Byte.endsBare, Byte.isBlank, Bool.not_or]
    rfl
  · simp only [endsBareChar, Bool.not_or]
    rfl

theorem sameAscii_quotable :
    SameAscii (fun b => b != Byte.quote && b != Byte.newline) (fun c => c != '\'' && c != '\n') :=
  (sameAscii_ne '\'' (by decide)).and (sameAscii_ne '\n' (by decide))

/-- The bytes of a bare text: none of them ends it, and they do not start a quote or a comment. -/
theorem BareText.bytes {s : String} (h : BareText s) :
    ∃ first tl, Text.bytes s = first :: tl ∧ first ≠ Byte.quote ∧
      (∀ b ∈ first :: tl, Byte.endsBare b = false) ∧
      ¬ (first = Byte.dash ∧ tl.head? = some Byte.dash) := by
  obtain ⟨hne, hs⟩ := h
  simp only [readsBackBare, Bool.and_eq_true, bne_iff_ne, ne_eq] at hs
  obtain ⟨⟨hquote, hdash⟩, hall⟩ := hs
  obtain ⟨first, tl, hb⟩ := List.exists_cons_of_ne_nil (mt Text.bytes_eq_nil.mp hne)
  have hcs : s.toList ≠ [] := mt String.toList_eq_nil_iff.mp hne
  refine ⟨first, tl, hb, ?_, ?_, ?_⟩
  · have hp := sameAscii_ne_quote.head_bytes s
    obtain ⟨c, cs, hc⟩ := List.exists_cons_of_ne_nil hcs
    simp only [hb, hc, List.head?_cons, Option.all_some] at hp
    exact bne_iff_ne.mp (hp.trans (by simpa [hc] using hquote))
  · have hp := sameAscii_bare.all_bytes s
    rw [hall, hb, List.all_eq_true] at hp
    intro b hmem
    simpa using hp b hmem
  · rintro ⟨rfl, hnext⟩
    have hhead := sameAscii_ne_dash.head_bytes s
    obtain ⟨c, cs, hc⟩ := List.exists_cons_of_ne_nil hcs
    obtain rfl : c = '-' := by simpa [hb, hc] using hhead
    obtain ⟨_, _, hb', hlow, -⟩ := Text.bytes_cons hc
    have htl : tl = Text.bytes (String.ofList cs) := by
      rw [hb] at hb'
      rw [(List.cons.inj hb').2, (hlow (by decide)).2]
    have htail := sameAscii_ne_dash.head_bytes (String.ofList cs)
    rw [← htl, hnext] at htail
    cases cs with
    | nil => simp at htail
    | cons d cs => simp_all

theorem QuotableText.bytes {s : String} (h : QuotableText s) :
    ∀ b ∈ Text.bytes s, (b != Byte.quote && b != Byte.newline) = true := by
  have hall : s.toList.all (fun c => c != '\'' && c != '\n') = true := by
    simpa [QuotableText] using h
  rw [← sameAscii_quotable.all_bytes, List.all_eq_true] at hall
  exact hall

/-- What a word says to the reader: its first byte starts a token and no comment, and that token
covers the word. -/
theorem Word.lexeme {w t : String} {q : Quoting} (h : Word w t q) {rest : List UInt8}
    (hrest : Separated rest) :
    ∃ first tl, Text.bytes w = first :: tl ∧ Byte.isBlank first = false ∧
      ¬ (first = Byte.dash ∧ (tl ++ rest).head? = some Byte.dash) ∧
      Lexeme.ofBytes first (tl ++ rest) = ⟨q, Text.bytes t, (Text.bytes w).length⟩ := by
  cases h with
  | slash => exact ⟨Byte.slash, [], rfl, rfl, by simp [Byte.slash, Byte.dash], rfl⟩
  | bare h =>
    obtain ⟨first, tl, hb, hquote, hall, hdash⟩ := h.bytes
    have hends := hall first List.mem_cons_self
    refine ⟨first, tl, hb, ?_, ?_, ?_⟩
    · simp only [Byte.endsBare, Bool.or_eq_false_iff] at hends
      exact hends.1.1
    · rintro ⟨rfl, hnext⟩
      cases tl with
      | nil => exact absurd (hrest _ hnext) (by decide)
      | cons b tl => exact hdash ⟨rfl, hnext⟩
    · have hword : (tl ++ rest).takeWhile (!Byte.endsBare ·) = tl := by
        refine takeWhile_append_of_stop (fun b hmem => ?_) fun b hmem => ?_
        · simp [hall b (List.mem_cons_of_mem first hmem)]
        · simp [hrest b hmem]
      simp [Lexeme.ofBytes, hquote, hends, hword, hb]
  | quoted h =>
    have hinside : ((Text.bytes t ++ Byte.quote :: rest).takeWhile fun b =>
        b != Byte.quote && b != Byte.newline) = Text.bytes t :=
      takeWhile_append_of_stop h.bytes (by simp)
    have hb : Text.bytes ("'" ++ t ++ "'") = Byte.quote :: (Text.bytes t ++ [Byte.quote]) := by
      simp only [Text.bytes_append]
      rfl
    refine ⟨Byte.quote, _, hb, rfl, fun h => absurd h.1 (by decide), ?_⟩
    simp [Lexeme.ofBytes, Lexeme.afterQuote, hinside, hb]

/-- Bytes without a line break are on the line that goes on after them. -/
theorem lineSize_add {w : List UInt8} (hw : Byte.newline ∉ w) (rest : List UInt8) :
    Cursor.lineSize (w ++ rest) = w.length + Cursor.lineSize rest := by
  induction w with
  | nil => simp
  | cons b w ih =>
    rw [List.mem_cons, not_or] at hw
    have hb : (b == Byte.newline) = false := beq_false_of_ne (Ne.symm hw.1)
    rw [List.cons_append, Cursor.lineSize, hb, if_neg Bool.false_ne_true, ih hw.2, List.length_cons]
    omega

theorem lineSize_append {w : List UInt8} (hw : Byte.newline ∉ w) (rest : List UInt8) :
    Cursor.lineSize (w ++ Byte.newline :: rest) = w.length + 1 :=
  lineSize_add hw _

theorem triviaSize_inComment (bs : List UInt8) : Cursor.triviaSize true bs =
    Cursor.lineSize bs + Cursor.triviaSize false (bs.drop (Cursor.lineSize bs)) := by
  induction bs with
  | nil => rfl
  | cons b bs ih =>
    rw [Cursor.triviaSize, if_pos rfl, Cursor.lineSize]
    by_cases hb : b = Byte.newline
    · simp [hb, Nat.add_comm]
    · have hne : (b != Byte.newline) = true := bne_iff_ne.mpr hb
      rw [hne, ih, if_neg (by simpa using hb), List.drop_succ_cons]
      omega

theorem triviaSize_dashes {bs : List UInt8} (h : [Byte.dash, Byte.dash] <+: bs) :
    Cursor.triviaSize false bs =
      Cursor.lineSize bs + Cursor.triviaSize false (bs.drop (Cursor.lineSize bs)) := by
  obtain ⟨rest, rfl⟩ := h
  rw [← triviaSize_inComment]
  rfl

theorem triviaSize_append {gap : List UInt8} (hgap : Blank gap) (x : List UInt8) :
    Cursor.triviaSize false (gap ++ x) = gap.length + Cursor.triviaSize false x := by
  induction gap with
  | nil => simp
  | cons b gap ih =>
    have hb := hgap b List.mem_cons_self
    rw [List.cons_append, Cursor.triviaSize, if_neg Bool.false_ne_true, if_pos hb,
      ih fun c hc => hgap c (List.mem_cons_of_mem b hc), List.length_cons]
    omega

theorem triviaSize_eq_zero {first : UInt8} {tl : List UInt8} (hblank : Byte.isBlank first = false)
    (hdash : ¬ (first = Byte.dash ∧ tl.head? = some Byte.dash)) :
    Cursor.triviaSize false (first :: tl) = 0 := by
  simp [Cursor.triviaSize, hblank, hdash]

/-- Blanks are skipped, and what starts neither with one nor with a comment is left. -/
theorem skipTrivia_of_gap {r : DeckReader} {gap : List UInt8} {first : UInt8} {tl : List UInt8}
    (hgap : Blank gap) (h : r.cursor.rest = gap ++ first :: tl)
    (hblank : Byte.isBlank first = false)
    (hdash : ¬ (first = Byte.dash ∧ tl.head? = some Byte.dash)) :
    r.skipTrivia = r.forward gap.length := by
  have hsize : Cursor.triviaSize false r.cursor.rest = gap.length := by
    rw [h, triviaSize_append hgap, triviaSize_eq_zero hblank hdash, Nat.add_zero]
  simp [DeckReader.skipTrivia, DeckReader.forward, Cursor.skipTrivia, hsize]

theorem Cursor.skipBlanks_eq (c : Cursor) : ∃ gap, Blank gap ∧ c.rest = gap ++ c.skipBlanks.rest ∧
    c.skipBlanks = c.forward gap.length ∧ ∀ b ∈ c.skipBlanks.rest.head?, Byte.isBlank b = false := by
  have hafter : c.skipBlanks.rest = c.rest.dropWhile Byte.isBlank := by
    have hsplit := List.takeWhile_append_dropWhile (l := c.rest) (p := Byte.isBlank)
    exact (congrArg (List.drop _) hsplit).symm.trans List.drop_left
  refine ⟨c.rest.takeWhile Byte.isBlank, fun b hb => List.mem_takeWhile_imp hb, ?_, rfl, ?_⟩
  · rw [hafter, List.takeWhile_append_dropWhile]
  · intro b hb
    have hstop := List.head?_dropWhile_not Byte.isBlank c.rest
    rw [hafter] at hb
    rw [Option.mem_def.mp hb] at hstop
    exact hstop

theorem skipBlanks_of_gap {c : Cursor} {gap : List UInt8} {b : UInt8} {tl : List UInt8}
    (hgap : Blank gap) (hc : c.rest = gap ++ b :: tl) (hb : Byte.isBlank b = false) :
    c.skipBlanks = c.forward gap.length := by
  have hall : c.rest.takeWhile Byte.isBlank = gap := by
    rw [hc]
    exact takeWhile_append_of_stop hgap (by simp [hb])
  rw [Cursor.skipBlanks, Cursor.skipWhile, hall]

theorem Blank.skipBlanks {c : Cursor} (h : Blank c.rest) :
    c.skipBlanks = c.forward c.rest.length := by
  have hall : c.rest.takeWhile Byte.isBlank = c.rest := List.takeWhile_eq_self_iff.mpr h
  rw [Cursor.skipBlanks, Cursor.skipWhile, hall]

section Reading

variable {w t : String} {q : Quoting} {gap rest : List UInt8}

theorem Word.readToken (h : Word w t q) {c : Cursor} (hgap : Blank gap)
    (hc : c.rest = gap ++ (Text.bytes w ++ rest)) (hrest : Separated rest) :
    c.readToken =
      (some ⟨t, q, c.pos + gap.length⟩, c.forward (gap.length + (Text.bytes w).length)) := by
  obtain ⟨first, tl, hb, hblank, -, hlex⟩ := h.lexeme hrest
  rw [hb, List.cons_append] at hc
  have hskip := skipBlanks_of_gap hgap hc hblank
  have hhere : c.skipBlanks.rest = first :: (tl ++ rest) := by
    rw [hskip, Cursor.rest_forward, hc, List.drop_left]
  simp only [Cursor.readToken]
  rw [hhere]
  simp [hlex, hskip, Cursor.forward_forward]

theorem Word.token? (h : Word w t q) {r : DeckReader} (hgap : Blank gap)
    (hr : r.cursor.rest = gap ++ (Text.bytes w ++ rest)) (hrest : Separated rest) :
    r.token? =
      (some ⟨t, q, r.pos + gap.length⟩, r.forward (gap.length + (Text.bytes w).length)) := by
  have hskip : r.skipTrivia = r.forward gap.length := by
    obtain ⟨first, tl, hb, hblank, hdash, -⟩ := h.lexeme hrest
    exact skipTrivia_of_gap hgap (hr.trans (by rw [hb, List.cons_append])) hblank hdash
  have hcursor : r.cursor.skipTrivia = r.cursor.forward gap.length :=
    congrArg DeckReader.cursor hskip
  have hhere : (r.cursor.forward gap.length).rest = [] ++ (Text.bytes w ++ rest) := by
    rw [Cursor.rest_forward, hr, List.drop_left, List.nil_append]
  have htoken := h.readToken blank_nil hhere hrest
  rw [Cursor.forward_forward, List.length_nil, Nat.zero_add] at htoken
  rw [DeckReader.token?, hcursor, htoken]
  rfl

end Reading

end ReservoirDeck
