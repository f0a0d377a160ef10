import Mathlib.Data.List.DropRight
import Mathlib.Data.List.TakeWhile
import ReservoirDeck.Proofs.RoundTrip.Names

/-!
What a token holds. Its text can be written as a name, since it is cut from one line without quotes,
or from bytes that are one bare word.
-/

namespace ReservoirDeck

/-- Neither a blank nor a comment comes first. -/
def Significant (bs : List UInt8) : Prop :=
  ∀ b tl, bs = b :: tl → Byte.isBlank b = false ∧ ¬ (b = Byte.dash ∧ tl.head? = some Byte.dash)

theorem significant_drop_triviaSize (inComment : Bool) (bs : List UInt8) :
    Significant (bs.drop (Cursor.triviaSize inComment bs)) := by
  fun_induction Cursor.triviaSize inComment bs with
  | case1 => exact fun b tl h => by simp at h
  | case2 b rest ih => simpa using ih
  | case3 inComment b rest hcomment hblank ih => simpa using ih
  | case4 inComment b rest hcomment hblank hdash ih => simpa using ih
  | case5 inComment first rest hcomment hblank hdash =>
    rw [List.drop_zero]
    rintro b tl h
    obtain ⟨rfl, rfl⟩ := List.cons.inj h
    simpa using And.intro hblank hdash

theorem DeckReader.significant_skipTrivia (r : DeckReader) :
    Significant r.skipTrivia.cursor.rest :=
  significant_drop_triviaSize false r.cursor.rest

theorem Cursor.triviaSize_of_significant {bs : List UInt8} (h : Significant bs) :
    Cursor.triviaSize false bs = 0 := by
  cases bs with
  | nil => rfl
  | cons b tl =>
    obtain ⟨hblank, hdash⟩ := h b tl rfl
    exact triviaSize_eq_zero hblank hdash

theorem Cursor.skipTrivia_skipTrivia (c : Cursor) : c.skipTrivia.skipTrivia = c.skipTrivia := by
  have hsize : Cursor.triviaSize false c.skipTrivia.rest = 0 :=
    triviaSize_of_significant (significant_drop_triviaSize false c.rest)
  rw [skipTrivia.eq_def c.skipTrivia, hsize, forward_zero]

theorem DeckReader.skipTrivia_skipTrivia (r : DeckReader) : r.skipTrivia.skipTrivia = r.skipTrivia :=
  congrArg r.moveTo r.cursor.skipTrivia_skipTrivia

theorem DeckReader.token?_congr {r s : DeckReader}
    (h : r.cursor.skipTrivia = s.cursor.skipTrivia) (hkeyword : r.keyword = s.keyword) :
    r.token? = s.token? := by
  simp only [token?, moveTo, h, hkeyword]

theorem DeckReader.terminator_congr {r s : DeckReader}
    (h : r.cursor.skipTrivia = s.cursor.skipTrivia) (hkeyword : r.keyword = s.keyword) :
    r.terminator = s.terminator := by
  have hskip : r.skipTrivia = s.skipTrivia := by
    rw [skipTrivia, skipTrivia, moveTo, moveTo, h, hkeyword]
  unfold terminator
  rw [hskip]

theorem DeckReader.token?_skipTrivia (r : DeckReader) : r.skipTrivia.token? = r.token? :=
  token?_congr (s := r) r.cursor.skipTrivia_skipTrivia rfl

theorem DeckReader.terminator_skipTrivia (r : DeckReader) : r.skipTrivia.terminator = r.terminator :=
  terminator_congr (s := r) r.cursor.skipTrivia_skipTrivia rfl

theorem Cursor.skipBlanks_of_significant {c : Cursor} (h : Significant c.rest) :
    c.skipBlanks = c := by
  have hnone : c.rest.takeWhile Byte.isBlank = [] := by
    cases hc : c.rest with
    | nil => rfl
    | cons b tl => simp [(h b tl hc).1]
  rw [Cursor.skipBlanks, Cursor.skipWhile, hnone]
  rfl

theorem DeckReader.token?_of_nil {r : DeckReader} (h : r.skipTrivia.cursor.rest = []) :
    r.token? = (none, r.skipTrivia) := by
  have hblanks := Cursor.skipBlanks_of_significant r.significant_skipTrivia
  have hcursor : r.skipTrivia.cursor = r.cursor.skipTrivia := rfl
  rw [hcursor] at h hblanks
  simp only [token?, Cursor.readToken, hblanks]
  rw [h]
  rfl

theorem DeckReader.token?_of_cons {r : DeckReader} {first : UInt8} {rest : List UInt8}
    (h : r.skipTrivia.cursor.rest = first :: rest) :
    r.token? = (some ⟨Text.ofBytes (Lexeme.ofBytes first rest).content,
      (Lexeme.ofBytes first rest).quoting, r.skipTrivia.pos⟩,
        r.skipTrivia.forward (Lexeme.ofBytes first rest).size) := by
  have hblanks := Cursor.skipBlanks_of_significant r.significant_skipTrivia
  have hcursor : r.skipTrivia.cursor = r.cursor.skipTrivia := rfl
  rw [hcursor] at h hblanks
  simp only [token?, Cursor.readToken, hblanks]
  rw [h]
  rfl

theorem DeckReader.token?_eq_some {r r' : DeckReader} {t : Token} (h : r.token? = (some t, r')) :
    ∃ first rest, r.skipTrivia.cursor.rest = first :: rest ∧
      t = ⟨Text.ofBytes (Lexeme.ofBytes first rest).content, (Lexeme.ofBytes first rest).quoting,
        r.skipTrivia.pos⟩ ∧
      r' = r.skipTrivia.forward (Lexeme.ofBytes first rest).size := by
  cases hrest : r.skipTrivia.cursor.rest with
  | nil =>
    rw [token?_of_nil hrest] at h
    cases h
  | cons first rest =>
    rw [token?_of_cons hrest] at h
    obtain ⟨ht, hr⟩ := Prod.mk.inj h
    exact ⟨first, rest, rfl, (Option.some.inj ht).symm, hr.symm⟩

theorem DeckReader.token?_of_none {r r' : DeckReader} (h : r.token? = (none, r')) :
    r'.token? = (none, r') := by
  cases hrest : r.skipTrivia.cursor.rest with
  | nil =>
    rw [token?_of_nil hrest] at h
    cases h
    rw [token?_skipTrivia, token?_of_nil hrest]
  | cons first rest =>
    rw [token?_of_cons hrest] at h
    cases h

theorem quotableText_ofBytes {bs : List UInt8}
    (h : ∀ b ∈ bs, (b != Byte.quote && b != Byte.newline) = true) :
    QuotableText (Text.ofBytes bs) := by
  rcases Text.bytes_ofBytes bs with hbs | hempty
  · have hall : (Text.ofBytes bs).toList.all (fun c => c != '\'' && c != '\n') = true := by
      rw [← sameAscii_quotable.all_bytes, hbs, List.all_eq_true]
      exact h
    simpa [QuotableText] using hall
  · simp [hempty, QuotableText]

theorem bareText_ofBytes {first : UInt8} {tl : List UInt8} (hquote : first ≠ Byte.quote)
    (hends : ∀ b ∈ first :: tl, Byte.endsBare b = false)
    (hdash : ¬ (first = Byte.dash ∧ tl.head? = some Byte.dash)) :
    BareText (Text.ofBytes (first :: tl)) ∨ Text.ofBytes (first :: tl) = "" := by
  refine (Text.bytes_ofBytes (first :: tl)).imp_left fun hbytes => ?_
  generalize Text.ofBytes (first :: tl) = s at hbytes
  have hall : s.toList.all (!endsBareChar ·) = true := by
    rw [← sameAscii_bare.all_bytes, hbytes, List.all_eq_true]
    exact fun b hb => by simp [hends b hb]
  have hne : s ≠ "" := by
    rintro rfl
    cases hbytes
  have hhead : s.toList.head? ≠ some '\'' := by
    have h := sameAscii_ne_quote.head_bytes s
    rw [hbytes, List.head?_cons, Option.all_some, bne_iff_ne.mpr hquote] at h
    intro heq
    simp [heq] at h
  have hcomment : s.toList.take 2 ≠ ['-', '-'] := by
    intro htake
    obtain ⟨cs, hcs⟩ : ∃ cs, s.toList = '-' :: '-' :: cs :=
      ⟨s.toList.drop 2, by
        have h := List.take_append_drop 2 s.toList
        rw [htake] at h
        exact h.symm⟩
    obtain ⟨b, bs, hb, hlow, -⟩ := Text.bytes_cons hcs
    obtain ⟨b', bs', hb', hlow', -⟩ := Text.bytes_cons (s := String.ofList ('-' :: cs))
      (String.toList_ofList)
    rw [hbytes] at hb
    obtain ⟨rfl, rfl⟩ := List.cons.inj hb
    rw [(hlow (by decide)).2, hb', (hlow (by decide)).1, (hlow' (by decide)).1] at hdash
    exact hdash ⟨rfl, rfl⟩
  exact ⟨hne, by simp [readsBackBare, hhead, hcomment, hall]⟩

/-- A bare word needs no quotes if it holds an apostrophe, and can have them otherwise. -/
theorem BareText.nameText {s : String} (h : BareText s) : NameText s := by
  by_cases hmem : '\'' ∈ s.toList
  · exact .inr ⟨hmem, h⟩
  · refine .inl fun c hc => ⟨fun heq => hmem (heq ▸ hc), ?_⟩
    rintro rfl
    have hs := h.2
    simp only [readsBackBare, Bool.and_eq_true, List.all_eq_true] at hs
    cases hs.2 _ hc

theorem bareText_of_takeWhile {first : UInt8} {rest : List UInt8} (hquote : first ≠ Byte.quote)
    (hends : Byte.endsBare first = false)
    (hdash : ¬ (first = Byte.dash ∧ rest.head? = some Byte.dash)) :
    BareText (Text.ofBytes (first :: rest.takeWhile (!Byte.endsBare ·))) ∨
      Text.ofBytes (first :: rest.takeWhile (!Byte.endsBare ·)) = "" := by
  refine bareText_ofBytes hquote (fun b hb => ?_) ?_
  · rcases List.mem_cons.mp hb with rfl | hb
    · exact hends
    · simpa using List.mem_takeWhile_imp hb
  · rintro ⟨rfl, hnext⟩
    cases rest with
    | nil => cases hnext
    | cons b rest =>
      rw [List.takeWhile_cons] at hnext
      split at hnext
      · exact hdash ⟨rfl, hnext⟩
      · cases hnext

theorem DeckReader.nameText_of_token? {r r' : DeckReader} {t : Token}
    (h : r.token? = (some t, r')) : NameText t.text := by
  obtain ⟨first, rest, hrest, rfl, -⟩ := token?_eq_some h
  obtain ⟨hblank, hdash⟩ := r.significant_skipTrivia first rest hrest
  have hinside : ∀ b ∈ rest.takeWhile fun b => b != Byte.quote && b != Byte.newline,
      (b != Byte.quote && b != Byte.newline) = true := fun b hb =>
    List.mem_takeWhile_imp (p := fun b => b != Byte.quote && b != Byte.newline) hb
  unfold Lexeme.ofBytes
  split
  · left
    simp only [Lexeme.afterQuote]
    split
    · exact quotableText_ofBytes hinside
    · exact quotableText_ofBytes fun b hb =>
        hinside b (( List.rdropWhile_prefix (p := (· == Byte.carriageReturn)) _).sublist.mem hb)
  · next hquote =>
    split
    · next hends =>
      refine .inl (quotableText_ofBytes fun b hb => ?_)
      rw [List.mem_singleton] at hb
      subst hb
      simp only [Byte.endsBare, hblank, Bool.false_or, Bool.or_eq_true, beq_iff_eq] at hends
      rcases hends with rfl | rfl <;> decide
    · next hends =>
      rcases bareText_of_takeWhile (by simpa using hquote) (by simpa using hends) hdash with h | h
      · exact h.nameText
      · exact h ▸ .inl (by simp [QuotableText])

theorem DeckReader.bareText_of_token? {r r' : DeckReader} {t : Token} (h : r.token? = (some t, r'))
    (hbare : t.quoting = .bare) (hletter : (t.text.toList.head?.map Char.isAlpha).getD false = true) :
    BareText t.text := by
  obtain ⟨first, rest, hrest, rfl, -⟩ := token?_eq_some h
  obtain ⟨hblank, hdash⟩ := r.significant_skipTrivia first rest hrest
  dsimp only at hbare hletter ⊢
  revert hbare hletter
  unfold Lexeme.ofBytes
  split
  · intro hbare
    simp only [Lexeme.afterQuote] at hbare
    split at hbare <;> cases hbare
  · next hquote =>
    split
    · next hends =>
      intro _ hletter
      simp only [Byte.endsBare, hblank, Bool.false_or, Bool.or_eq_true, beq_iff_eq] at hends
      rcases hends with rfl | rfl <;> cases hletter
    · next hends =>
      intro _ hletter
      refine (bareText_of_takeWhile (by simpa using hquote) (by simpa using hends) hdash).resolve_right
        fun hempty => ?_
      rw [hempty] at hletter
      cases hletter

/-- A bare token is one byte that ends bare words, or a word up to such a byte. -/
theorem Lexeme.ofBytes_bare {first : UInt8} {rest : List UInt8}
    (h : (Lexeme.ofBytes first rest).quoting = .bare) :
    (Byte.endsBare first = true ∧ Lexeme.ofBytes first rest = ⟨.bare, [first], 1⟩) ∨
      ∃ word, first :: rest = word ++ rest.dropWhile (!Byte.endsBare ·) ∧
        Lexeme.ofBytes first rest = ⟨.bare, word, word.length⟩ := by
  unfold Lexeme.ofBytes at h ⊢
  split at h
  · unfold Lexeme.afterQuote at h
    dsimp only at h
    split at h <;> cases h
  · next hquote =>
    rw [if_neg hquote]
    split
    · next hends => exact .inl ⟨hends, rfl⟩
    · refine .inr ⟨first :: rest.takeWhile (!Byte.endsBare ·), ?_, rfl⟩
      rw [List.cons_append, List.takeWhile_append_dropWhile]

theorem DeckReader.token?_bare {r r' : DeckReader} {t : Token} (h : r.token? = (some t, r'))
    (hbare : t.quoting = .bare) {b : UInt8} {tl : List UInt8} (hb : Text.bytes t.text = b :: tl)
    (hword : Byte.endsBare b = false) :
    r.skipTrivia.cursor.rest = Text.bytes t.text ++ r'.cursor.rest ∧ Separated r'.cursor.rest ∧
      r' = r.skipTrivia.forward (Text.bytes t.text).length := by
  obtain ⟨first, rest, hrest, rfl, rfl⟩ := token?_eq_some h
  have hcontent : Text.bytes (Text.ofBytes (Lexeme.ofBytes first rest).content) =
      (Lexeme.ofBytes first rest).content := by
    refine (Text.bytes_ofBytes _).resolve_right fun hempty => ?_
    rw [hempty] at hb
    cases hb
  dsimp only at hbare hb ⊢
  rw [hcontent] at hb ⊢
  rw [rest_forward, hrest]
  rcases Lexeme.ofBytes_bare hbare with ⟨hends, hlex⟩ | ⟨word, hsplit, hlex⟩
  · rw [hlex] at hb
    obtain rfl : first = b := (List.cons.inj hb).1
    rw [hword] at hends
    cases hends
  · rw [hlex, hsplit, List.drop_left]
    exact ⟨rfl, separated_dropWhile rest, rfl⟩

theorem isData_bare {b : UInt8} (h : Lookahead.ofByte b = .data) :
    b ≠ Byte.quote ∧ Byte.endsBare b = false := by
  have hall : ∀ b, Lookahead.ofByte b = .data → b ≠ Byte.quote ∧ Byte.endsBare b = false :=
    Byte.forall_of_digits (by decide)
  exact hall b h

theorem DeckReader.isTerminator_of_data {r r' : DeckReader} {t : Token}
    (h : r.token? = (some t, r')) {b : UInt8} {tl : List UInt8}
    (hr : r.skipTrivia.cursor.rest = b :: tl) (hb : Lookahead.ofByte b = .data) :
    t.isTerminator = false := by
  obtain ⟨first, rest, hrest, rfl, -⟩ := token?_eq_some h
  obtain ⟨rfl, rfl⟩ := List.cons.inj (hrest.symm.trans hr)
  obtain ⟨hquote, hends⟩ := isData_bare hb
  have hlex : (Lexeme.ofBytes first rest).content =
      first :: rest.takeWhile (!Byte.endsBare ·) := by
    simp [Lexeme.ofBytes, hquote, hends]
  have hslash : Text.ofBytes (first :: rest.takeWhile (!Byte.endsBare ·)) ≠ "/" := by
    intro heq
    rcases Text.bytes_ofBytes (first :: rest.takeWhile (!Byte.endsBare ·)) with h | h
    · rw [heq] at h
      obtain rfl : Byte.slash = first := (List.cons.inj h).1
      exact absurd hends (by decide)
    · rw [heq] at h
      exact absurd h (by decide)
  simp [Token.isTerminator, hlex, hslash]

theorem ReadM.lookahead_eq_data {r r' : DeckReader} (h : ReadM.lookahead r = .ok .data r') :
    ∃ b tl, r'.skipTrivia.cursor.rest = b :: tl ∧ Lookahead.ofByte b = .data := by
  simp only [ReadM.lookahead, ReadM.skipTrivia, Run.bind_modify_eq, Run.bind_get_eq] at h
  have hlook : r.skipTrivia.cursor.lookahead = .data ∧ r' = r.skipTrivia := by
    cases hnext : r.skipTrivia.cursor.lookahead <;> simp [hnext] at h
    exact ⟨rfl, h.symm⟩
  obtain ⟨hdata, rfl⟩ := hlook
  have hcursor : r.skipTrivia.cursor.skipTrivia = r.skipTrivia.skipTrivia.cursor := rfl
  rw [Cursor.lookahead, hcursor] at hdata
  split at hdata
  · cases hdata
  · next b tl hrest => exact ⟨b, tl, hrest, hdata⟩

end ReservoirDeck
