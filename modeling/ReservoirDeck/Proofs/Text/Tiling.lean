import Mathlib.Data.List.DropRight
import Mathlib.Data.List.TakeWhile
import ReservoirDeck.Proofs.Text.Words

/-!
Tokens tile a text: blanks and tokens take turns, and nothing of the text is left out. Tokens are cut
at ASCII bytes only, so what a token is cut from is whole characters and spells a text.
-/

namespace ReservoirDeck

namespace Text

/-- These bytes are the encoding of some text. -/
def IsEncoding (bs : List UInt8) : Prop :=
  ∃ s, bytes s = bs

theorem isEncoding_bytes (s : String) : IsEncoding (bytes s) :=
  ⟨s, rfl⟩

theorem IsEncoding.tail {b : UInt8} {bs : List UInt8} (h : IsEncoding (b :: bs)) (hb : b < 128) :
    IsEncoding bs := by
  obtain ⟨s, hs⟩ := h
  cases hcs : s.toList with
  | nil => simp [bytes_eq, hcs] at hs
  | cons c cs =>
    obtain ⟨b', bs', hb', hlow, hhigh⟩ := bytes_cons hcs
    obtain ⟨rfl, rfl⟩ := List.cons.inj (hs.symm.trans hb')
    have hc : c.toNat < 128 := Nat.lt_of_not_le fun hge => absurd (hhigh hge) (UInt8.not_le.mpr hb)
    exact ⟨String.ofList cs, (hlow hc).2.symm⟩

theorem IsEncoding.dropLast {b : UInt8} {bs : List UInt8} (h : IsEncoding (bs ++ [b]))
    (hb : b < 128) : IsEncoding bs := by
  obtain ⟨s, hs⟩ := h
  rcases List.eq_nil_or_concat' s.toList with hnil | ⟨cs, c, hcs⟩
  · simp [bytes_eq, hnil] at hs
  · rw [bytes_eq, hcs, List.flatMap_append, List.flatMap_singleton] at hs
    have hc : c.toNat < 128 := by
      by_contra hge
      obtain ⟨y, b', hy⟩ := (List.eq_nil_or_concat' (String.utf8EncodeChar c)).resolve_left
        String.utf8EncodeChar_ne_nil
      rw [hy, ← List.append_assoc] at hs
      obtain rfl : b' = b := by simpa using (List.append_inj' hs rfl).2
      have hle := le_of_mem_utf8EncodeChar (Nat.le_of_not_lt hge) (b := b') (by simp [hy])
      exact absurd hle (UInt8.not_le.mpr hb)
    rw [utf8EncodeChar_ascii hc, ← bytes_ofList] at hs
    exact ⟨String.ofList cs, (List.append_inj' hs rfl).1⟩

theorem IsEncoding.of_ascii_append {x bs : List UInt8} (h : IsEncoding (x ++ bs))
    (hx : ∀ b ∈ x, b < 128) : IsEncoding bs := by
  induction x with
  | nil => exact h
  | cons b x ih =>
    exact ih (h.tail (hx b List.mem_cons_self)) fun c hc => hx c (List.mem_cons_of_mem b hc)

theorem IsEncoding.of_append_replicate {b : UInt8} (hb : b < 128) {n : Nat} {bs : List UInt8}
    (h : IsEncoding (bs ++ List.replicate n b)) : IsEncoding bs := by
  induction n with
  | zero => simpa using h
  | succ n ih =>
    rw [List.replicate_succ', ← List.append_assoc] at h
    exact ih (h.dropLast hb)

theorem IsEncoding.split {x y : List UInt8} (h : IsEncoding (x ++ y)) (hy : ∀ b ∈ y.head?, b < 128) :
    IsEncoding x ∧ IsEncoding y := by
  obtain ⟨s, hs⟩ := h
  rw [bytes_eq] at hs
  generalize s.toList = cs at hs
  induction cs generalizing x with
  | nil =>
    obtain ⟨rfl, rfl⟩ := List.append_eq_nil_iff.mp hs.symm
    exact ⟨isEncoding_bytes "", isEncoding_bytes ""⟩
  | cons c cs ih =>
    have hrest : IsEncoding (cs.flatMap String.utf8EncodeChar) := ⟨String.ofList cs, bytes_ofList cs⟩
    have hchar : IsEncoding (String.utf8EncodeChar c) := by
      exact ⟨String.ofList [c], by rw [bytes_ofList, List.flatMap_singleton]⟩
    rw [List.flatMap_cons] at hs
    rcases List.append_eq_append_iff.mp hs with ⟨x', rfl, hx'⟩ | ⟨w, hw, rfl⟩
    · obtain ⟨⟨s', hs'⟩, hy'⟩ := ih hx'
      refine ⟨⟨String.ofList (c :: s'.toList), ?_⟩, hy'⟩
      rw [bytes_ofList, List.flatMap_cons, ← bytes_eq, hs']
    · cases w with
      | nil =>
        rw [List.append_nil] at hw
        exact ⟨hw ▸ hchar, hrest⟩
      | cons b w =>
        -- The ASCII byte is all of the character.
        have hc : c.toNat < 128 := by
          by_contra hge
          have hle := le_of_mem_utf8EncodeChar (Nat.le_of_not_lt hge) (b := b) (by simp [hw])
          exact absurd hle (UInt8.not_le.mpr (hy b rfl))
        obtain rfl : x = [] := by
          have hlen := congrArg List.length hw
          rw [utf8EncodeChar_ascii hc, List.length_append, List.length_cons] at hlen
          exact List.eq_nil_of_length_eq_zero (by simp at hlen; omega)
        rw [← List.nil_append (b :: w), ← hw]
        refine ⟨isEncoding_bytes "", String.ofList (c :: cs), ?_⟩
        rw [bytes_ofList, List.flatMap_cons]

section SameAscii

variable {p : UInt8 → Bool} {q : Char → Bool} {bs : List UInt8}

theorem IsEncoding.takeWhile (h : IsEncoding bs) (hp : SameAscii p q) :
    IsEncoding (bs.takeWhile p) := by
  obtain ⟨s, rfl⟩ := h
  exact ⟨_, (hp.takeWhile_bytes s).symm⟩

theorem IsEncoding.dropWhile (h : IsEncoding bs) (hp : SameAscii p q) :
    IsEncoding (bs.dropWhile p) := by
  obtain ⟨s, rfl⟩ := h
  refine ⟨String.ofList (s.toList.dropWhile q), ?_⟩
  have hsplit : bytes (String.ofList (s.toList.takeWhile q)) ++
      bytes (String.ofList (s.toList.dropWhile q)) = bytes s := by
    rw [← bytes_append, ← String.ofList_append, List.takeWhile_append_dropWhile,
      String.ofList_toList]
  rw [← hp.takeWhile_bytes] at hsplit
  exact List.append_cancel_left (hsplit.trans List.takeWhile_append_dropWhile.symm)

end SameAscii

end Text

theorem Byte.lt_of_isBlank {b : UInt8} (h : Byte.isBlank b = true) : b < 128 := by
  have hall : ∀ b, Byte.isBlank b = true → b < 128 := Byte.forall_of_digits (by decide)
  exact hall b h

/-- A token of this quoting covers `source`, its text is spelled by `content`, and `rest` comes after
it. -/
inductive Quoting.Covers : Quoting → (content source rest : List UInt8) → Prop
  /-- A slash, or a zero byte that is not at the end of the text. -/
  | delimiter {b : UInt8} {rest : List UInt8} (hb : b = Byte.slash ∨ b = 0) :
    Covers .bare [b] [b] rest
  | word {w rest : List UInt8} (hne : w ≠ []) (hquote : w.head? ≠ some Byte.quote)
    (hw : ∀ b ∈ w, Byte.endsBare b = false) (hrest : Separated rest) : Covers .bare w w rest
  | quoted {content rest : List UInt8} (hquote : Byte.quote ∉ content) :
    Covers .quoted content (Byte.quote :: content ++ [Byte.quote]) rest
  /-- Up to the end of the line, but for the carriage returns there. -/
  | unterminated {content rest : List UInt8} (returns : Nat) (hquote : Byte.quote ∉ content)
    (hend : content.getLast? ≠ some Byte.carriageReturn)
    (hrest : ∀ b ∈ rest.head?, b = Byte.newline) :
    Covers .unterminated content
      (Byte.quote :: content ++ List.replicate returns Byte.carriageReturn) rest

theorem trimReturns_append (bs : List UInt8) :
    ∃ n, bs = Cursor.trimReturns bs ++ List.replicate n Byte.carriageReturn := by
  refine ⟨(bs.rtakeWhile (· == Byte.carriageReturn)).length, ?_⟩
  have hall : bs.rtakeWhile (· == Byte.carriageReturn) =
      List.replicate (bs.rtakeWhile (· == Byte.carriageReturn)).length Byte.carriageReturn := by
    refine List.eq_replicate_iff.mpr ⟨rfl, fun b hb => ?_⟩
    simpa using List.mem_rtakeWhile_imp hb
  rw [← hall]
  exact List.rdropWhile_append_rtakeWhile.symm

theorem getLast?_trimReturns (bs : List UInt8) :
    (Cursor.trimReturns bs).getLast? ≠ some Byte.carriageReturn := by
  change (bs.rdropWhile (· == Byte.carriageReturn)).getLast? ≠ some Byte.carriageReturn
  by_cases hnil : bs.rdropWhile (· == Byte.carriageReturn) = []
  · simp [hnil]
  · have hstop := List.rdropWhile_last_not (· == Byte.carriageReturn) bs hnil
    rw [List.getLast?_eq_some_getLast hnil]
    simpa using hstop

/-- What is cut from bytes that start with no blank, and the bytes after it. -/
structure Lexeme.Fits (lexeme : Lexeme) (source rest : List UInt8) : Prop where
  covers : lexeme.quoting.Covers lexeme.content source rest
  size : lexeme.size = source.length
  ne_nil : source ≠ []
  line : Byte.newline ∉ source
  content : Text.IsEncoding lexeme.content
  rest : Text.IsEncoding rest

open Text (IsEncoding)

theorem Lexeme.afterQuote_fits {body : List UInt8} (h : IsEncoding body) :
    ∃ source rest, Byte.quote :: body = source ++ rest ∧ (afterQuote body).Fits source rest := by
  have hinside := h.takeWhile sameAscii_quotable
  have hafter := h.dropWhile sameAscii_quotable
  have hstop := List.head?_dropWhile_not (fun b => b != Byte.quote && b != Byte.newline) body
  have hmem : ∀ b ∈ body.takeWhile fun b => b != Byte.quote && b != Byte.newline,
      b ≠ Byte.quote ∧ b ≠ Byte.newline := fun b hb => by
    simpa using List.mem_takeWhile_imp hb
  have hsplit := List.takeWhile_append_dropWhile (l := body)
    (p := fun b => b != Byte.quote && b != Byte.newline)
  have hdrop : body.drop (body.takeWhile fun b => b != Byte.quote && b != Byte.newline).length =
      body.dropWhile fun b => b != Byte.quote && b != Byte.newline :=
    (congrArg (List.drop _) hsplit).symm.trans List.drop_left
  simp only [afterQuote, hdrop]
  generalize body.takeWhile (fun b => b != Byte.quote && b != Byte.newline) = inside at *
  generalize body.dropWhile (fun b => b != Byte.quote && b != Byte.newline) = after at *
  subst hsplit
  have hquote : Byte.quote ∉ inside := fun hb => (hmem _ hb).1 rfl
  have hline : Byte.newline ∉ inside := fun hb => (hmem _ hb).2 rfl
  split
  · next hclosed =>
    obtain ⟨after, rfl⟩ := List.head?_eq_some_iff.mp hclosed
    refine ⟨Byte.quote :: inside ++ [Byte.quote], after, by simp, ?_⟩
    exact ⟨.quoted hquote, by simp, by simp, by simpa [Byte.quote, Byte.newline] using hline, hinside,
      hafter.tail (by decide)⟩
  · next hopen =>
    obtain ⟨n, hreturns⟩ := trimReturns_append inside
    have hsource : Byte.quote :: inside = Byte.quote :: Cursor.trimReturns inside ++
        List.replicate n Byte.carriageReturn := by rw [List.cons_append, ← hreturns]
    refine ⟨Byte.quote :: inside, after, rfl, ?_⟩
    refine ⟨?_, rfl, by simp, by simpa [Byte.quote, Byte.newline] using hline, ?_, hafter⟩
    · rw [hsource]
      refine .unterminated n (fun hb => hquote ?_) (getLast?_trimReturns inside) fun b hb => ?_
      · exact (List.rdropWhile_prefix _ _).sublist.mem hb
      · rw [Option.mem_def.mp hb] at hstop hopen
        simpa [show b ≠ Byte.quote by simpa using hopen] using hstop
    · rw [hreturns] at hinside
      exact hinside.of_append_replicate (by decide)

theorem Lexeme.ofBytes_fits {first : UInt8} {tl : List UInt8} (h : IsEncoding (first :: tl))
    (hblank : Byte.isBlank first = false) :
    ∃ source rest, first :: tl = source ++ rest ∧ (ofBytes first tl).Fits source rest := by
  unfold ofBytes
  split
  · next hquote =>
    obtain rfl := beq_iff_eq.mp hquote
    exact afterQuote_fits (h.tail (by decide))
  · next hquote =>
    split
    · next hends =>
      have hb : first = Byte.slash ∨ first = 0 := by
        simpa [Byte.endsBare, hblank] using hends
      refine ⟨[first], tl, rfl, .delimiter hb, rfl, by simp, ?_, ?_, h.tail ?_⟩
      · rcases hb with rfl | rfl <;> decide
      · rcases hb with rfl | rfl
        · exact ⟨"/", rfl⟩
        · exact ⟨"\x00", rfl⟩
      · rcases hb with rfl | rfl <;> decide
    · next hends =>
      have hword : first :: tl.takeWhile (!Byte.endsBare ·) =
          (first :: tl).takeWhile (!Byte.endsBare ·) := by simp [hends]
      have hafter : tl.dropWhile (!Byte.endsBare ·) =
          (first :: tl).dropWhile (!Byte.endsBare ·) := by simp [hends]
      have hall : ∀ b ∈ first :: tl.takeWhile (!Byte.endsBare ·), Byte.endsBare b = false := by
        rw [hword]
        exact fun b hb => by simpa using List.mem_takeWhile_imp hb
      refine ⟨first :: tl.takeWhile (!Byte.endsBare ·), tl.dropWhile (!Byte.endsBare ·), ?_, ?_⟩
      · rw [List.cons_append, List.takeWhile_append_dropWhile]
      refine ⟨.word (by simp) (by simpa using hquote) hall ?_, rfl, by simp, ?_, ?_, ?_⟩
      · exact separated_dropWhile tl
      · exact fun hb => absurd (hall _ hb) (by decide)
      · exact hword ▸ h.takeWhile sameAscii_bare
      · exact hafter ▸ h.dropWhile sameAscii_bare

namespace Cursor

/-- Cutting tokens until there is none: these are cut in this order, and the end is reached here. -/
inductive TokensFrom : Cursor → List Token → Cursor → Prop
  | done {c c' : Cursor} (h : c.readToken = (none, c')) : TokensFrom c [] c'
  | next {c c' c'' : Cursor} {t : Token} {ts : List Token} (h : c.readToken = (some t, c'))
    (hrest : TokensFrom c' ts c'') : TokensFrom c (t :: ts) c''

theorem TokensFrom.readTokens_eq {c c' : Cursor} {ts : List Token} (h : c.TokensFrom ts c') :
    c.readTokens = (ts, c') := by
  induction h with
  | done h =>
    rw [readTokens]
    split <;> simp_all
  | next h _ ih =>
    rw [readTokens]
    split <;> simp_all

/-- A token that is cut, the blanks before it, and the bytes after it. -/
theorem fits_of_readToken {c c' : Cursor} {t : Token} (hc : Text.IsEncoding c.rest)
    (h : c.readToken = (some t, c')) :
    ∃ gap source lexeme, c.rest = gap ++ (source ++ c'.rest) ∧ Blank gap ∧
      Lexeme.Fits lexeme source c'.rest ∧ c'.pos = c.pos + gap.length + source.length ∧
      t = ⟨Text.ofBytes lexeme.content, lexeme.quoting, c.pos + gap.length⟩ := by
  obtain ⟨gap, hgap, hrest, hskip, hhead⟩ := c.skipBlanks_eq
  simp only [readToken] at h
  split at h
  · cases h
  · next first tl hmore =>
    have henc : Text.IsEncoding (first :: tl) := by
      rw [hrest, hmore] at hc
      exact hc.of_ascii_append fun b hb => Byte.lt_of_isBlank (hgap b hb)
    obtain ⟨source, rest, hsplit, hfits⟩ := Lexeme.ofBytes_fits henc (hhead first (by simp [hmore]))
    obtain ⟨ht, hc'⟩ := Prod.mk.inj h
    have hpos : c.skipBlanks.pos = c.pos + gap.length := by rw [hskip, pos_forward]
    have hafter : c'.rest = rest := by
      rw [← hc', rest_forward, hmore, hsplit, hfits.size, List.drop_left]
    refine ⟨gap, source, _, ?_, hgap, hafter ▸ hfits, ?_, ?_⟩
    · rw [hrest, hmore, hsplit, hafter]
    · rw [← hc', pos_forward, hpos, hfits.size]
    · rw [← hpos, Option.some.inj ht]

end Cursor

end ReservoirDeck
