import ReservoirDeck.Proofs.Alike.Runs
import ReservoirDeck.Proofs.Reading.Orderly
import ReservoirDeck.Proofs.RoundTrip.Lists

/-!
Two texts that start with the same bytes. After them the same letter comes next in both, or nothing.
Reading is alike until it passes beyond the bytes that the texts share.
-/

namespace ReservoirDeck

/-- A byte that starts a bare word, and neither a comment nor a slash. -/
def Byte.startsWord (b : UInt8) : Bool :=
  !Byte.endsBare b && b != Byte.quote && b != Byte.dash

theorem Byte.startsWord_bare {b : UInt8} (h : Byte.startsWord b = true) :
    Byte.endsBare b = false ∧ Byte.isBlank b = false ∧ b ≠ Byte.newline ∧ b ≠ Byte.quote ∧
      b ≠ Byte.dash := by
  have hall : ∀ b, Byte.startsWord b = true → Byte.endsBare b = false ∧ Byte.isBlank b = false ∧
      b ≠ Byte.newline ∧ b ≠ Byte.quote ∧ b ≠ Byte.dash := Byte.forall_of_digits (by decide)
  exact hall b h

theorem Byte.startsWord_of_isLetter {b : UInt8} (h : Byte.isLetter b = true) :
    Byte.startsWord b = true := by
  have hall : ∀ b, Byte.isLetter b = true → Byte.startsWord b = true :=
    Byte.forall_of_digits (by decide)
  exact hall b h

/-- A bare word starts in both texts, or both end. -/
def SameStart (w w' : List UInt8) : Prop :=
  (w = [] ∧ w' = []) ∨ ∃ b b' x x', w = b :: x ∧ w' = b' :: x' ∧
    Byte.startsWord b = true ∧ Byte.startsWord b' = true

/-- The same letter comes next, or nothing. -/
structure SameNext (w w' : List UInt8) : Prop where
  head : w'.head? = w.head?
  nextName : NextName w

theorem sameNext_nil : SameNext [] [] where
  head := rfl
  nextName := fun b hb => by cases hb

theorem sameStart_nil : SameStart [] [] :=
  .inl ⟨rfl, rfl⟩

namespace SameNext

variable {w w' : List UInt8} (hw : SameNext w w')
include hw

theorem cases : (w = [] ∧ w' = []) ∨
    ∃ b x x', w = b :: x ∧ w' = b :: x' ∧ Byte.isLetter b = true := by
  cases w with
  | nil => exact .inl ⟨rfl, List.head?_eq_none_iff.mp hw.head⟩
  | cons b x =>
    obtain ⟨x', rfl⟩ : ∃ x', w' = b :: x' := ⟨w'.tail, List.eq_cons_of_mem_head? hw.head⟩
    exact .inr ⟨b, x, x', rfl, rfl, hw.nextName b rfl⟩

theorem start : SameStart w w' := by
  rcases hw.cases with hnil | ⟨b, x, x', hx, hx', hb⟩
  · exact .inl hnil
  · exact .inr ⟨b, b, x, x', hx, hx', Byte.startsWord_of_isLetter hb,
      Byte.startsWord_of_isLetter hb⟩

theorem head_append (z : List UInt8) : (z ++ w').head? = (z ++ w).head? := by
  rw [List.head?_append, List.head?_append, hw.head]

end SameNext

/-- One size for both texts, unless it goes beyond the `n` bytes that they share. -/
def SameSize (w : List UInt8) (n m m' : Nat) : Prop :=
  m' = m ∨ w ≠ [] ∧ n < m

theorem SameSize.succ {w : List UInt8} {n m m' : Nat} (h : SameSize w n m m') :
    SameSize w (n + 1) (m + 1) (m' + 1) := by
  rcases h with rfl | ⟨hw, h⟩
  · exact .inl rfl
  · exact .inr ⟨hw, by omega⟩

namespace SameStart

variable {w w' : List UInt8} (hw : SameStart w w')
include hw

/-- A byte that starts no bare word comes next in both texts, or in neither. -/
theorem head_append {c : UInt8} (hc : Byte.startsWord c = false) (z : List UInt8) :
    (z ++ w').head? = some c ↔ (z ++ w).head? = some c := by
  cases z with
  | nil =>
    rcases hw with ⟨rfl, rfl⟩ | ⟨b, b', x, x', rfl, rfl, hb, hb'⟩
    · rfl
    · have hne : b ≠ c := fun h => by simp [h, hc] at hb
      have hne' : b' ≠ c := fun h => by simp [h, hc] at hb'
      simp [hne, hne']
  | cons b z => rfl

theorem triviaSize (inComment : Bool) (z : List UInt8) :
    SameSize w z.length (Cursor.triviaSize inComment (z ++ w))
      (Cursor.triviaSize inComment (z ++ w')) := by
  induction z generalizing inComment with
  | nil =>
    rcases hw with ⟨rfl, rfl⟩ | ⟨b, b', x, x', rfl, rfl, hb, hb'⟩
    · exact .inl rfl
    cases inComment with
    | true => exact .inr ⟨by simp, by simp [Cursor.triviaSize]⟩
    | false =>
      have hzero : ∀ b x, Byte.startsWord b = true → Cursor.triviaSize false (b :: x) = 0 := by
        intro b x hb
        obtain ⟨-, hblank, -, -, hdash⟩ := Byte.startsWord_bare hb
        exact triviaSize_eq_zero hblank fun h => hdash h.1
      left
      rw [List.nil_append, List.nil_append, hzero b x hb, hzero b' x' hb']
  | cons b z ih =>
    have hdash := hw.head_append (show Byte.startsWord Byte.dash = false by decide) z
    simp only [List.cons_append, Cursor.triviaSize, Bool.and_eq_true, beq_iff_eq, hdash]
    split
    · exact (ih _).succ
    · split
      · exact (ih _).succ
      · split
        · exact (ih _).succ
        · exact .inl rfl

theorem lineSize (z : List UInt8) :
    SameSize w z.length (Cursor.lineSize (z ++ w)) (Cursor.lineSize (z ++ w')) := by
  induction z with
  | nil =>
    rcases hw with ⟨rfl, rfl⟩ | ⟨b, b', x, x', rfl, rfl, -, -⟩
    · exact .inl rfl
    · refine .inr ⟨by simp, ?_⟩
      simp only [List.nil_append, Cursor.lineSize]
      split <;> simp
  | cons b z ih =>
    simp only [List.cons_append, Cursor.lineSize]
    split
    · exact .inl rfl
    · exact ih.succ

/-- A predicate that does not tell apart bytes that start bare words. -/
theorem takeWhile {p : UInt8 → Bool} {v : Bool} (hp : ∀ b, Byte.startsWord b = true → p b = v)
    (z : List UInt8) :
    (z ++ w').takeWhile p = (z ++ w).takeWhile p ∨
      w ≠ [] ∧ z.length < ((z ++ w).takeWhile p).length := by
  induction z with
  | nil =>
    rcases hw with ⟨rfl, rfl⟩ | ⟨b, b', x, x', rfl, rfl, hb, hb'⟩
    · exact .inl rfl
    · cases v with
      | true => exact .inr ⟨by simp, by simp [hp b hb]⟩
      | false => exact .inl (by simp [hp b hb, hp b' hb'])
  | cons b z ih =>
    by_cases hb : p b = true
    · simp only [List.cons_append, List.takeWhile_cons, hb, if_true, List.length_cons]
      rcases ih with h | ⟨hne, hlt⟩
      · exact .inl (by rw [h])
      · exact .inr ⟨hne, by omega⟩
    · exact .inl (by simp [hb])

/-- A token that starts in the shared bytes ends in them, or reaches beyond. -/
theorem lexeme (first : UInt8) (z : List UInt8) :
    Lexeme.ofBytes first (z ++ w') = Lexeme.ofBytes first (z ++ w) ∨
      w ≠ [] ∧ z.length + 1 < (Lexeme.ofBytes first (z ++ w)).size := by
  unfold Lexeme.ofBytes
  split
  · unfold Lexeme.afterQuote
    dsimp only
    have hinside : ∀ b, Byte.startsWord b = true →
        (b != Byte.quote && b != Byte.newline) = true := by
      intro b hb
      obtain ⟨-, -, hnewline, hquote, -⟩ := Byte.startsWord_bare hb
      simp [hnewline, hquote]
    rcases hw.takeWhile hinside z with h | ⟨hne, hlt⟩
    · rw [h]
      generalize hinside : (z ++ w).takeWhile (fun b => b != Byte.quote && b != Byte.newline) = inside
      by_cases hlt : inside.length ≤ z.length
      · have hhead : ((z ++ w').drop inside.length).head? = some Byte.quote ↔
            ((z ++ w).drop inside.length).head? = some Byte.quote := by
          rw [List.drop_append_of_le_length hlt, List.drop_append_of_le_length hlt]
          exact hw.head_append (by decide) _
        simp only [hhead, true_or]
      · rcases hw with ⟨rfl, rfl⟩ | ⟨b, b', x, x', rfl, rfl, -, -⟩
        · exact .inl rfl
        · refine .inr ⟨by simp, ?_⟩
          split <;> dsimp only <;> omega
    · refine .inr ⟨hne, ?_⟩
      split <;> dsimp only <;> omega
  · split
    · exact .inl rfl
    · have hbare : ∀ b, Byte.startsWord b = true → (!Byte.endsBare b) = true := by
        intro b hb
        rw [(Byte.startsWord_bare hb).1]
        rfl
      rcases hw.takeWhile hbare z with h | ⟨hne, hlt⟩
      · exact .inl (by rw [h])
      · exact .inr ⟨hne, by simpa using hlt⟩

end SameStart

theorem Cursor.atEnd_eq (c : Cursor) : c.atEnd = c.rest.head?.isNone := by
  unfold atEnd
  cases c.rest <;> rfl

theorem Cursor.length_takeWhile_le_lineSize (bs : List UInt8) :
    (bs.takeWhile (· != Byte.newline)).length ≤ lineSize bs := by
  induction bs with
  | nil => exact Nat.le_refl 0
  | cons b bs ih =>
    by_cases hb : b = Byte.newline
    · simp [hb]
    · simpa [lineSize, hb] using ih

namespace Pairing

/-- Places that are equally far before the end of the shared bytes. -/
def front (w w' : List UInt8) : Pairing where
  near c d := ∃ z, c.rest = z ++ w ∧ d.rest = z ++ w'
  past c := c.remaining < w.length
  excused _ := False

variable {w w' : List UInt8} {c d : Cursor} {r s : DeckReader}

theorem front_past_forward (h : (front w w').past c) (n : Nat) : (front w w').past (c.forward n) :=
  Nat.lt_of_le_of_lt (Cursor.remaining_forward_le c n) h

/-- Whatever moves forward from a place beyond the shared bytes stays beyond them. -/
theorem front_past_reaches {r' : DeckReader} (h : (front w w').past r.cursor) (hr : r.Reaches r') :
    (front w w').past r'.cursor :=
  Nat.lt_of_le_of_lt hr.cursor.remaining_le h

theorem front_passed {α : Type} {x : ReadM α} (hx : x.Orderly) (h : (front w w').past r.cursor) :
    (front w w').readers.Passed (x r) := by
  have hpast := front_past_reaches h (hx.reaches r)
  cases hr : x r with
  | ok a r' => rwa [hr] at hpast
  | error e r' => rwa [hr] at hpast

theorem front_beyond {z : List UInt8} (hc : c.rest = z ++ w) (hne : w ≠ []) {m : Nat}
    (hm : z.length < m) : (front w w').past (c.forward m) := by
  have hpos := List.length_pos_iff.mpr hne
  have hlen : c.remaining = z.length + w.length := by rw [Cursor.remaining, hc, List.length_append]
  change (c.forward m).remaining < w.length
  rw [Cursor.remaining_forward, hlen]
  omega

/-- How the next tokens of two texts compare. One may be at another place than the other. -/
inductive SameToken (p : Pairing) : Option Token × DeckReader → Option Token × DeckReader → Prop
  | none {r s : DeckReader} (h : p.readers.near r s) : SameToken p (none, r) (none, s)
  | some (t : Token) (n : Nat) {r s : DeckReader} (h : p.readers.near r s) :
      SameToken p (some t, r) (some { t with start := n }, s)
  | past {t? : Option Token} {r : DeckReader} {y : Option Token × DeckReader}
      (h : p.past r.cursor) : SameToken p (t?, r) y

section Tokens

variable (hw : SameStart w w')
include hw

theorem front_forward {z : List UInt8} (hc : c.rest = z ++ w) (hd : d.rest = z ++ w') {m m' : Nat}
    (hm : SameSize w z.length m m') :
    (front w w').past (c.forward m) ∨ (front w w').near (c.forward m) (d.forward m') := by
  rcases hm with rfl | ⟨hne, hlt⟩
  · by_cases hle : m' ≤ z.length
    · exact .inr ⟨z.drop m', by rw [Cursor.rest_forward, hc, List.drop_append_of_le_length hle],
        by rw [Cursor.rest_forward, hd, List.drop_append_of_le_length hle]⟩
    · rcases hw with ⟨rfl, rfl⟩ | ⟨b, b', x, x', rfl, rfl, -, -⟩
      · exact .inr ⟨z.drop m', by rw [Cursor.rest_forward, hc]; simp,
          by rw [Cursor.rest_forward, hd]; simp⟩
      · exact .inl (front_beyond hc (by simp) (by omega))
  · exact .inl (front_beyond hc hne hlt)

theorem front_skipTrivia (h : (front w w').near c d) :
    (front w w').past c.skipTrivia ∨ (front w w').near c.skipTrivia d.skipTrivia := by
  obtain ⟨z, hc, hd⟩ := h
  refine front_forward hw hc hd ?_
  rw [hc, hd]
  exact hw.triviaSize false z

theorem front_skipLine (h : (front w w').near c d) :
    (front w w').past c.skipLine ∨ (front w w').near c.skipLine d.skipLine := by
  obtain ⟨z, hc, hd⟩ := h
  refine front_forward hw hc hd ?_
  rw [hc, hd]
  exact hw.lineSize z

theorem front_token? (h : (front w w').readers.near r s) :
    (front w w').SameToken r.token? s.token? := by
  rcases front_skipTrivia hw h.1 with hpast | ⟨z, hr, hs⟩
  · exact .past (front_past_reaches (r := r.skipTrivia) hpast
      (DeckReader.reaches_token? r.token?_skipTrivia))
  change r.skipTrivia.cursor.rest = _ at hr
  change s.skipTrivia.cursor.rest = _ at hs
  cases z with
  | nil =>
    rcases hw with ⟨rfl, rfl⟩ | ⟨b, b', x, x', rfl, rfl, -, -⟩
    · rw [DeckReader.token?_of_nil hr, DeckReader.token?_of_nil hs]
      exact .none ⟨⟨[], hr, hs⟩, h.2⟩
    · rw [DeckReader.token?_of_cons hr]
      exact .past (front_beyond hr (by simp) (Lexeme.size_ofBytes_pos b x))
  | cons first z =>
    have hlen : (first :: z).length = z.length + 1 := rfl
    have hr' : r.skipTrivia.cursor.rest = first :: (z ++ w) := hr
    have hs' : s.skipTrivia.cursor.rest = first :: (z ++ w') := hs
    rw [DeckReader.token?_of_cons hr', DeckReader.token?_of_cons hs']
    rcases hw.lexeme first z with heq | ⟨hne, hlt⟩
    · rw [heq]
      rcases front_forward hw hr hs (.inl rfl) with hpast | hnear
      · exact .past hpast
      · exact .some _ _ ⟨hnear, h.2⟩
    · exact .past (front_beyond hr hne (hlen ▸ hlt))

theorem front_token?_some (h : (front w w').readers.near r s) {r' : DeckReader} {t : Token}
    (htoken : r.token? = (some t, r')) (hpast : ¬ (front w w').past r'.cursor) :
    ∃ n s', s.token? = (some { t with start := n }, s') ∧ (front w w').readers.near r' s' := by
  have hsame := front_token? hw h
  rw [htoken] at hsame
  generalize s.token? = y at hsame
  cases hsame with
  | some t n hnear => exact ⟨n, _, rfl, hnear⟩
  | past h => exact absurd h hpast

theorem front_token?_none (h : (front w w').readers.near r s) {r' : DeckReader}
    (htoken : r.token? = (none, r')) (hpast : ¬ (front w w').past r'.cursor) :
    ∃ s', s.token? = (none, s') ∧ (front w w').readers.near r' s' := by
  have hsame := front_token? hw h
  rw [htoken] at hsame
  generalize s.token? = y at hsame
  cases hsame with
  | none hnear => exact ⟨_, rfl, hnear⟩
  | past h => exact absurd h hpast

theorem front_item : (front w w').readers.Alike ReadM.item := by
  intro r
  refine ⟨fun s h => ?_, front_passed ReadM.orderly_item⟩
  have hsame := front_token? hw h
  unfold ReadM.item
  generalize r.token? = x, s.token? = y at hsame
  cases hsame with
  | none hnear => exact error_outcome hnear _
  | some t n hnear =>
    change Sides.Outcome _ (if t.isTerminator = true then _ else _)
      (if t.isTerminator = true then _ else _)
    split
    · rcases front_skipLine hw hnear.1 with hpast | hline
      · exact .past hpast
      · exact .ok ⟨hline, hnear.2⟩
    · exact .ok hnear
  | @past t? _ _ h =>
    apply Sides.Outcome.past
    cases t? with
    | none => exact h
    | some t =>
      dsimp only
      split
      · exact front_past_forward h _
      · exact h

theorem front_tokenText : (front w w').readers.Alike ReadM.tokenText := by
  intro r
  refine ⟨fun s h => ?_, front_passed ReadM.orderly_tokenText⟩
  have hsame := front_token? hw h
  rw [ReadM.tokenText_eq, ReadM.tokenText_eq]
  generalize r.token? = x, s.token? = y at hsame
  cases hsame with
  | none hnear => exact error_outcome hnear _
  | some t n hnear => exact .ok hnear
  | @past t? _ _ h =>
    apply Sides.Outcome.past
    cases t? <;> exact h

theorem front_terminator : (front w w').readers.Alike ReadM.terminator := by
  intro r
  constructor
  · intro s h
    rcases front_skipTrivia hw h.1 with hpast | hnear
    · have hpassed := front_passed ReadM.orderly_terminator (r := r.skipTrivia) hpast
      change (front w w').past r.skipTrivia.terminator.2.cursor at hpassed
      rw [r.terminator_skipTrivia] at hpassed
      exact .past hpassed
    change Sides.Outcome _ (.ok r.terminator.1 r.terminator.2) (.ok s.terminator.1 s.terminator.2)
    have hhead : s.skipTrivia.cursor.rest.head? = some Byte.slash ↔
        r.skipTrivia.cursor.rest.head? = some Byte.slash := by
      obtain ⟨z, hr, hs⟩ := hnear
      change r.skipTrivia.cursor.rest = _ at hr
      change s.skipTrivia.cursor.rest = _ at hs
      rw [hr, hs]
      exact hw.head_append (by decide) z
    unfold DeckReader.terminator
    simp only [hhead]
    split
    · rcases front_skipLine hw hnear with hpast | hline
      · exact .past hpast
      · exact .ok ⟨hline, h.2⟩
    · exact .ok ⟨hnear, h.2⟩
  · exact front_passed ReadM.orderly_terminator

/-- The line is the same in both texts, unless it goes beyond what they share. -/
theorem front_line (h : (front w w').near c d) :
    (front w w').past c.skipLine ∨ (front w w').near c.skipLine d.skipLine ∧ d.line = c.line := by
  obtain ⟨z, hc, hd⟩ := h
  have hnewline : ∀ b, Byte.startsWord b = true → (b != Byte.newline) = true := by
    intro b hb
    exact bne_iff_ne.mpr (Byte.startsWord_bare hb).2.2.1
  rcases hw.takeWhile hnewline z with heq | ⟨hne, hlt⟩
  · refine (front_skipLine hw ⟨z, hc, hd⟩).imp id fun hnear => ⟨hnear, ?_⟩
    rw [Cursor.line, Cursor.line, hc, hd]
    exact heq
  · refine .inl (front_beyond hc hne (Nat.lt_of_lt_of_le hlt ?_))
    rw [hc]
    exact Cursor.length_takeWhile_le_lineSize _

end Tokens

theorem front_progress {c' d' : Cursor} (h : (front w w').near c d) (h' : (front w w').near c' d')
    (hlt : c'.remaining < c.remaining) : d'.remaining < d.remaining := by
  obtain ⟨z, hc, hd⟩ := h
  obtain ⟨z', hc', hd'⟩ := h'
  simp only [Cursor.remaining, hc, hd, hc', hd', List.length_append] at hlt ⊢
  omega

section Letters

variable (hw : SameNext w w')
include hw

theorem front_head (h : (front w w').near c d) : d.rest.head? = c.rest.head? := by
  obtain ⟨z, hc, hd⟩ := h
  rw [hc, hd]
  exact hw.head_append z

theorem front_title : (front w w').readers.Alike ReadM.title := by
  intro r
  constructor
  · intro s h
    rw [ReadM.title_eq, ReadM.title_eq, Cursor.atEnd_eq, Cursor.atEnd_eq, front_head hw h.1]
    split
    · exact error_outcome h _
    · rcases front_line hw.start h.1 with hpast | ⟨hnear, hline⟩
      · exact .past hpast
      · rw [hline]
        exact .ok ⟨hnear, h.2⟩
  · exact front_passed ReadM.orderly_title

theorem lawful_front : (front w w').Lawful where
  past_forward := front_past_forward
  item := front_item hw.start
  tokenText := front_tokenText hw.start
  terminator := front_terminator hw.start
  skipTrivia := front_skipTrivia hw.start
  lookahead := by
    intro c d h
    refine (front_skipTrivia hw.start h).imp id fun hnear => .inl ?_
    rw [Cursor.lookahead_eq_head, Cursor.lookahead_eq_head, front_head hw hnear]

end Letters

end Pairing

variable {r s : DeckReader} {t : Token}

/-- Places with the same bytes ahead, with the same keyword being read. -/
def SameRest (r s : DeckReader) : Prop :=
  s.cursor.rest = r.cursor.rest ∧ s.keyword = r.keyword

theorem sameRest_iff : (Pairing.front [] []).readers.near r s ↔ SameRest r s := by
  constructor
  · rintro ⟨⟨z, hr, hs⟩, hkeyword⟩
    exact ⟨hs.trans hr.symm, hkeyword.symm⟩
  · rintro ⟨hrest, hkeyword⟩
    exact ⟨⟨r.cursor.rest, by simp, by simp [hrest]⟩, hkeyword.symm⟩

namespace SameRest

theorem skipTrivia (h : SameRest r s) : SameRest r.skipTrivia s.skipTrivia := by
  refine ⟨?_, h.2⟩
  change (s.cursor.forward _).rest = (r.cursor.forward _).rest
  rw [Cursor.rest_forward, Cursor.rest_forward, h.1]

theorem skipLine (h : SameRest r s) : SameRest r.skipLine s.skipLine := by
  refine ⟨?_, h.2⟩
  change (s.cursor.forward _).rest = (r.cursor.forward _).rest
  rw [Cursor.rest_forward, Cursor.rest_forward, h.1]

theorem token?_some {r₁ : DeckReader} (h : SameRest r.skipTrivia s.skipTrivia)
    (htoken : r.token? = (some t, r₁)) :
    ∃ n s₁, s.token? = (some { t with start := n }, s₁) ∧ SameRest r₁ s₁ := by
  rw [← r.token?_skipTrivia] at htoken
  obtain ⟨n, s₁, hs, hnear⟩ := Pairing.front_token?_some sameStart_nil (sameRest_iff.mpr h) htoken
    (Nat.not_lt_zero _)
  exact ⟨n, s₁, s.token?_skipTrivia ▸ hs, sameRest_iff.mp hnear⟩

end SameRest

end ReservoirDeck
