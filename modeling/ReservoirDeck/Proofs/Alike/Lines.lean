import ReservoirDeck.Proofs.Alike.Fronts

/-!
Two texts that start with the same lines. No token and no comment goes beyond its line, so reading is
alike in the lines, and it is alike after them where it is so in what comes there.
-/

namespace ReservoirDeck

theorem drop_ne_nil {α : Type} {w : List α} {n : Nat} (hn : n < w.length) : w.drop n ≠ [] :=
  mt List.drop_eq_nil_iff.mp (Nat.not_le_of_lt hn)

/-- Whole lines: the last byte is a newline, if there is one. -/
def Lines (z : List UInt8) : Prop :=
  ∀ b ∈ z.getLast?, b = Byte.newline

namespace Lines

variable {z : List UInt8}

theorem nil : Lines [] :=
  fun _ h => by cases h

theorem concat (z : List UInt8) : Lines (z ++ [Byte.newline]) := by
  intro b hb
  simpa [eq_comm] using hb

theorem tail {b : UInt8} (h : Lines (b :: z)) : Lines z := by
  intro c hc
  apply h
  cases z with
  | nil => cases hc
  | cons d z => exact hc

theorem drop (h : Lines z) (n : Nat) : Lines (z.drop n) := by
  intro b hb
  rw [List.getLast?_drop] at hb
  split at hb
  · cases hb
  · exact h b hb

theorem mem (h : Lines z) (hne : z ≠ []) : Byte.newline ∈ z := by
  have hlast := List.getLast?_eq_some_getLast hne
  rw [← h _ hlast]
  exact List.getLast_mem hne

theorem mem_tail {b : UInt8} (h : Lines (b :: z)) (hb : b ≠ Byte.newline) : Byte.newline ∈ z := by
  have hmem := h.mem (List.cons_ne_nil b z)
  exact (List.mem_cons.mp hmem).resolve_left (Ne.symm hb)

theorem bytes {s : String} (h : s = "" ∨ ∃ t, s = t ++ "\n") : Lines (Text.bytes s) := by
  rcases h with rfl | ⟨t, rfl⟩
  · exact nil
  · rw [Text.bytes_append]
    exact concat _

theorem lineSize (h : Lines z) (hne : z ≠ []) (x : List UInt8) :
    Cursor.lineSize (z ++ x) = Cursor.lineSize z ∧ Cursor.lineSize z ≤ z.length := by
  induction z with
  | nil => exact absurd rfl hne
  | cons b z ih =>
    by_cases hb : b = Byte.newline
    · simp [Cursor.lineSize, hb]
    · obtain ⟨heq, hle⟩ := ih h.tail (List.ne_nil_of_mem (h.mem_tail hb))
      simp only [List.cons_append, Cursor.lineSize, beq_eq_false_iff_ne.mpr hb, Bool.false_eq_true,
        if_false, heq, List.length_cons]
      exact ⟨trivial, Nat.succ_le_succ hle⟩

/-- Blanks and comments end in the lines, or they take all of them and go on behind. -/
theorem triviaSize (h : Lines z) (inComment : Bool) (hstart : z = [] → inComment = false) :
    (∃ n < z.length, ∀ x, Cursor.triviaSize inComment (z ++ x) = n) ∨
      ∀ x, Cursor.triviaSize inComment (z ++ x) = z.length + Cursor.triviaSize false x := by
  induction z generalizing inComment with
  | nil =>
    right
    simp [hstart rfl]
  | cons b z ih =>
    have hnext : ∀ inComment, (z = [] → inComment = false) →
        (∃ n < (b :: z).length, ∀ x, Cursor.triviaSize inComment (z ++ x) + 1 = n) ∨
          ∀ x, Cursor.triviaSize inComment (z ++ x) + 1 =
            (b :: z).length + Cursor.triviaSize false x := by
      intro inComment hstart
      rcases ih h.tail inComment hstart with ⟨n, hn, heq⟩ | heq
      · left
        refine ⟨n + 1, Nat.succ_lt_succ hn, fun x => ?_⟩
        rw [heq]
      · right
        intro x
        rw [heq, List.length_cons]
        omega
    have hlast : z = [] → b = Byte.newline := by
      rintro rfl
      exact h b rfl
    cases inComment with
    | true =>
      simp only [List.cons_append, Cursor.triviaSize, if_true]
      exact hnext _ fun hz => by simp [hlast hz]
    | false =>
      by_cases hblank : Byte.isBlank b = true
      · simp only [List.cons_append, Cursor.triviaSize, Bool.false_eq_true, if_false, hblank, if_true]
        exact hnext _ fun _ => rfl
      · have hne : z ≠ [] := fun hz => hblank (by rw [hlast hz]; rfl)
        have hhead : ∀ x, (z ++ x).head? = z.head? := fun x => by
          cases z with
          | nil => exact absurd rfl hne
          | cons c z => rfl
        simp only [List.cons_append, Cursor.triviaSize, Bool.false_eq_true, if_false, hblank, hhead]
        split
        · exact hnext _ fun hz => absurd hz hne
        · exact .inl ⟨0, Nat.succ_pos _, fun _ => rfl⟩

theorem lexeme {first : UInt8} (h : Lines (first :: z)) (hfirst : first ≠ Byte.newline)
    (x : List UInt8) :
    Lexeme.ofBytes first (z ++ x) = Lexeme.ofBytes first z ∧
      (Lexeme.ofBytes first z).size < (first :: z).length := by
  have hmem := h.mem_tail hfirst
  have hpos := List.length_pos_of_mem hmem
  rw [List.length_cons]
  unfold Lexeme.ofBytes
  split
  · have hstop : (fun b => b != Byte.quote && b != Byte.newline) Byte.newline = false := by decide
    have hlt := length_takeWhile_lt (p := fun b => b != Byte.quote && b != Byte.newline) hmem hstop
    unfold Lexeme.afterQuote
    dsimp only
    rw [takeWhile_append_of_mem (p := fun b => b != Byte.quote && b != Byte.newline) hmem hstop]
    generalize z.takeWhile (fun b => b != Byte.quote && b != Byte.newline) = inside at hlt
    have hhead : ((z ++ x).drop inside.length).head? = (z.drop inside.length).head? := by
      rw [List.head?_drop, List.head?_drop, List.getElem?_append_left hlt]
    rw [hhead]
    split
    · next hquote =>
      obtain ⟨tl, htl⟩ : ∃ tl, z.drop inside.length = Byte.quote :: tl :=
        ⟨_, List.eq_cons_of_mem_head? hquote⟩
      have hlen := congrArg List.length htl
      have hrest := List.length_pos_of_mem ((htl ▸ h.tail.drop _).mem_tail (by decide))
      rw [List.length_drop, List.length_cons] at hlen
      exact ⟨rfl, by dsimp only; omega⟩
    · exact ⟨rfl, by dsimp only; omega⟩
  · split
    · exact ⟨rfl, by dsimp only; omega⟩
    · have hstop : (!Byte.endsBare Byte.newline) = false := rfl
      have hlt := length_takeWhile_lt (p := (!Byte.endsBare ·)) hmem hstop
      rw [takeWhile_append_of_mem (p := (!Byte.endsBare ·)) hmem hstop]
      refine ⟨rfl, ?_⟩
      dsimp only
      rw [List.length_cons]
      omega

end Lines

namespace Pairing

/-- Places that are equally far before the end of the lines, `x` and `y` being what comes after them,
and the places that are near each other there. -/
def lines (x y : List UInt8) (p : Pairing) : Pairing where
  near c d := (∃ z, z ≠ [] ∧ Lines z ∧ c.rest = z ++ x ∧ d.rest = z ++ y) ∨ p.near c d
  past := p.past
  excused := p.excused

variable {α : Type} {x y z : List UInt8} {p : Pairing} {c d : Cursor} {r s : DeckReader}

theorem lines_outcome {first second : EStateM.Result DeckError DeckReader α}
    (h : p.readers.Outcome first second) : (lines x y p).readers.Outcome first second :=
  h.mono (fun _ _ hnear => ⟨.inr hnear.1, hnear.2⟩) (fun _ => id) fun _ => id

/-- An action that is alike after the lines is so in them if it is alike there. -/
theorem lines_alike {action : ReadM α} (haction : p.readers.Alike action)
    (hlines : ∀ r s z, z ≠ [] → Lines z → r.cursor.rest = z ++ x → s.cursor.rest = z ++ y →
      r.keyword = s.keyword → (lines x y p).readers.Outcome (action r) (action s)) :
    (lines x y p).readers.Alike action := by
  intro r
  constructor
  · rintro s ⟨⟨z, hne, hz, hr, hs⟩ | hnear, hkeyword⟩
    · exact hlines r s z hne hz hr hs hkeyword
    · exact lines_outcome ((haction r).near s ⟨hnear, hkeyword⟩)
  · exact (haction r).past

variable (hstart : ∀ c d : Cursor, c.rest = x → d.rest = y → p.near c d)
include hstart

theorem lines_forward (hz : Lines z) (hc : c.rest = z ++ x) (hd : d.rest = z ++ y) {n : Nat}
    (hn : n ≤ z.length) : (lines x y p).near (c.forward n) (d.forward n) := by
  have hc' : (c.forward n).rest = z.drop n ++ x := by
    rw [Cursor.rest_forward, hc, List.drop_append_of_le_length hn]
  have hd' : (d.forward n).rest = z.drop n ++ y := by
    rw [Cursor.rest_forward, hd, List.drop_append_of_le_length hn]
  by_cases hne : z.drop n = []
  · rw [hne, List.nil_append] at hc' hd'
    exact .inr (hstart _ _ hc' hd')
  · exact .inl ⟨z.drop n, hne, hz.drop n, hc', hd'⟩

theorem lines_skipLine (hz : Lines z) (hne : z ≠ []) (hc : c.rest = z ++ x) (hd : d.rest = z ++ y) :
    (lines x y p).near c.skipLine d.skipLine := by
  obtain ⟨hx, hle⟩ := hz.lineSize hne x
  obtain ⟨hy, -⟩ := hz.lineSize hne y
  rw [Cursor.skipLine, Cursor.skipLine, hc, hd, hx, hy]
  exact lines_forward hstart hz hc hd hle

theorem lines_end (hc : c.rest = z ++ x) (hd : d.rest = z ++ y) :
    p.near (c.forward z.length) (d.forward z.length) := by
  apply hstart
  · rw [Cursor.rest_forward, hc, List.drop_left]
  · rw [Cursor.rest_forward, hd, List.drop_left]

omit hstart in
/-- Blanks and comments end in the lines of both texts, or go on behind them in both. -/
theorem lines_skipTrivia (hz : Lines z) (hc : c.rest = z ++ x) (hd : d.rest = z ++ y) :
    (∃ n < z.length, c.skipTrivia = c.forward n ∧ d.skipTrivia = d.forward n) ∨
      c.skipTrivia = (c.forward z.length).skipTrivia ∧
        d.skipTrivia = (d.forward z.length).skipTrivia := by
  rcases hz.triviaSize false fun _ => rfl with ⟨n, hn, hsize⟩ | hsize
  · left
    refine ⟨n, hn, ?_, ?_⟩
    · rw [Cursor.skipTrivia, hc, hsize]
    · rw [Cursor.skipTrivia, hd, hsize]
  · right
    constructor
    · rw [Cursor.skipTrivia, Cursor.skipTrivia, Cursor.rest_forward, hc, List.drop_left, hsize,
        Cursor.forward_forward]
    · rw [Cursor.skipTrivia, Cursor.skipTrivia, Cursor.rest_forward, hd, List.drop_left, hsize,
        Cursor.forward_forward]

omit hstart in
/-- The next tokens are the same and in the lines, or they come after the lines in both texts. -/
theorem lines_token? (hz : Lines z) (hr : r.cursor.rest = z ++ x) (hs : s.cursor.rest = z ++ y) :
    (∃ t start n, n < z.length ∧ r.token? = (some t, r.forward n) ∧
      s.token? = (some { t with start }, s.forward n)) ∨
      r.token? = (r.forward z.length).token? ∧ s.token? = (s.forward z.length).token? := by
  rcases lines_skipTrivia hz hr hs with ⟨m, hm, hr', hs'⟩ | ⟨hr', hs'⟩
  · left
    obtain ⟨first, tl, htl⟩ := List.exists_cons_of_ne_nil (drop_ne_nil hm)
    have hskip : ∀ q : DeckReader, q.cursor.skipTrivia = q.cursor.forward m →
        q.skipTrivia = q.forward m := fun q h => congrArg q.moveTo h
    have hahead : ∀ (q : DeckReader) (v : List UInt8), q.cursor.rest = z ++ v →
        q.skipTrivia = q.forward m → q.skipTrivia.cursor.rest = first :: (tl ++ v) := by
      intro q v hq hskip
      rw [hskip, DeckReader.rest_forward, hq, List.drop_append_of_le_length (Nat.le_of_lt hm), htl,
        List.cons_append]
    replace hr' := hskip r hr'
    replace hs' := hskip s hs'
    have hfirst : first ≠ Byte.newline := by
      rintro rfl
      have hblank := (r.significant_skipTrivia _ _ (hahead r x hr hr')).1
      cases hblank
    have hlines : Lines (first :: tl) := by
      rw [← htl]
      exact hz.drop m
    obtain ⟨hx, hsize⟩ := hlines.lexeme hfirst x
    obtain ⟨hy, -⟩ := hlines.lexeme hfirst y
    have hlen := congrArg List.length htl
    rw [List.length_drop] at hlen
    rw [DeckReader.token?_of_cons (hahead r x hr hr'), DeckReader.token?_of_cons (hahead s y hs hs'),
      hx, hy, hr', hs', DeckReader.forward_forward, DeckReader.forward_forward]
    exact ⟨_, _, m + (Lexeme.ofBytes first tl).size, by omega, rfl, rfl⟩
  · exact .inr ⟨DeckReader.token?_congr hr' rfl, DeckReader.token?_congr hs' rfl⟩

section Lawful

variable (hp : p.Lawful)
include hp

theorem lines_item : (lines x y p).readers.Alike ReadM.item := by
  refine lines_alike hp.item fun r s z hne hz hr hs hkeyword => ?_
  rcases lines_token? hz hr hs with ⟨t, start, n, hn, hrt, hst⟩ | ⟨hrt, hst⟩
  · have hr' : (r.forward n).cursor.rest = z.drop n ++ x := by
      rw [DeckReader.rest_forward, hr, List.drop_append_of_le_length (Nat.le_of_lt hn)]
    have hs' : (s.forward n).cursor.rest = z.drop n ++ y := by
      rw [DeckReader.rest_forward, hs, List.drop_append_of_le_length (Nat.le_of_lt hn)]
    by_cases ht : t.isTerminator = true
    · rw [ReadM.item_of_terminator hrt ht, ReadM.item_of_terminator hst ht]
      have hline := lines_skipLine hstart (hz.drop n) (drop_ne_nil hn) hr' hs'
      exact .ok ⟨hline, hkeyword⟩
    · rw [ReadM.item_of_some hrt ht, ReadM.item_of_some hst ht]
      exact .ok ⟨lines_forward hstart hz hr hs (Nat.le_of_lt hn), hkeyword⟩
  · have hout := (hp.item (r.forward z.length)).near (s.forward z.length)
      ⟨lines_end hstart hr hs, hkeyword⟩
    unfold ReadM.item at hout ⊢
    rw [hrt, hst]
    exact lines_outcome hout

theorem lines_tokenText : (lines x y p).readers.Alike ReadM.tokenText := by
  refine lines_alike hp.tokenText fun r s z hne hz hr hs hkeyword => ?_
  rcases lines_token? hz hr hs with ⟨t, start, n, hn, hrt, hst⟩ | ⟨hrt, hst⟩
  · rw [ReadM.tokenText_eq, ReadM.tokenText_eq, hrt, hst]
    exact .ok ⟨lines_forward hstart hz hr hs (Nat.le_of_lt hn), hkeyword⟩
  · have hout := (hp.tokenText (r.forward z.length)).near (s.forward z.length)
      ⟨lines_end hstart hr hs, hkeyword⟩
    rw [ReadM.tokenText_eq, ReadM.tokenText_eq] at hout ⊢
    rw [hrt, hst]
    exact lines_outcome hout

theorem lines_terminator : (lines x y p).readers.Alike ReadM.terminator := by
  refine lines_alike hp.terminator fun r s z hne hz hr hs hkeyword => ?_
  rcases lines_skipTrivia hz hr hs with ⟨n, hn, hr', hs'⟩ | ⟨hr', hs'⟩
  · have hdrop := drop_ne_nil hn
    have hle := Nat.le_of_lt hn
    have hr₁ : r.cursor.skipTrivia.rest = z.drop n ++ x := by
      rw [hr', Cursor.rest_forward, hr, List.drop_append_of_le_length hle]
    have hs₁ : s.cursor.skipTrivia.rest = z.drop n ++ y := by
      rw [hs', Cursor.rest_forward, hs, List.drop_append_of_le_length hle]
    have hhead : s.skipTrivia.cursor.rest.head? = r.skipTrivia.cursor.rest.head? := by
      change s.cursor.skipTrivia.rest.head? = r.cursor.skipTrivia.rest.head?
      rw [hr₁, hs₁, List.head?_append_of_ne_nil _ hdrop, List.head?_append_of_ne_nil _ hdrop]
    change Sides.Outcome _ (.ok r.terminator.1 r.terminator.2) (.ok s.terminator.1 s.terminator.2)
    unfold DeckReader.terminator
    dsimp only
    rw [hhead]
    split
    · exact .ok ⟨lines_skipLine hstart (hz.drop n) hdrop hr₁ hs₁, hkeyword⟩
    · refine .ok ⟨?_, hkeyword⟩
      change (lines x y p).near r.cursor.skipTrivia s.cursor.skipTrivia
      rw [hr', hs']
      exact lines_forward hstart hz hr hs hle
  · have hout := (hp.terminator (r.forward z.length)).near (s.forward z.length)
      ⟨lines_end hstart hr hs, hkeyword⟩
    change Sides.Outcome _ (.ok r.terminator.1 r.terminator.2) (.ok s.terminator.1 s.terminator.2)
    rw [DeckReader.terminator_congr (s := r.forward z.length) hr' rfl,
      DeckReader.terminator_congr (s := s.forward z.length) hs' rfl]
    exact lines_outcome hout

theorem lawful_lines : (lines x y p).Lawful where
  past_forward := hp.past_forward
  item := lines_item hstart hp
  tokenText := lines_tokenText hstart hp
  terminator := lines_terminator hstart hp
  skipTrivia := by
    rintro c d (⟨z, hne, hz, hc, hd⟩ | hnear)
    · rcases lines_skipTrivia hz hc hd with ⟨n, hn, hc', hd'⟩ | ⟨hc', hd'⟩
      · rw [hc', hd']
        exact .inr (lines_forward hstart hz hc hd (Nat.le_of_lt hn))
      · rw [hc', hd']
        exact (hp.skipTrivia (lines_end hstart hc hd)).imp id .inr
    · exact (hp.skipTrivia hnear).imp id .inr
  lookahead := by
    rintro c d (⟨z, hne, hz, hc, hd⟩ | hnear)
    · rcases lines_skipTrivia hz hc hd with ⟨n, hn, hc', hd'⟩ | ⟨hc', hd'⟩
      · refine .inr (.inl ?_)
        have hdrop := drop_ne_nil hn
        have hle := Nat.le_of_lt hn
        rw [Cursor.lookahead_eq_head, Cursor.lookahead_eq_head, hc', hd', Cursor.rest_forward,
          Cursor.rest_forward, hc, hd, List.drop_append_of_le_length hle,
          List.drop_append_of_le_length hle, List.head?_append_of_ne_nil _ hdrop,
          List.head?_append_of_ne_nil _ hdrop]
      · have hsame : ∀ c c' : Cursor, c.skipTrivia = c'.skipTrivia → c.lookahead = c'.lookahead := by
          intro c c' h
          rw [Cursor.lookahead, h, Cursor.lookahead]
        rw [hc', hsame _ _ hc', hsame _ _ hd']
        exact hp.lookahead (lines_end hstart hc hd)
    · exact hp.lookahead hnear

end Lawful

end Pairing

end ReservoirDeck
