import ReservoirDeck.Proofs.Alike.Fronts
import ReservoirDeck.Proofs.Reading.Keywords

/-!
Keywords that are not understood, in two texts with the same front. Such a keyword ends before a line
that starts with a letter and holds no slash, so it also looks at the rest of the line on which the
front ends: a slash has to be there in both texts, or in neither.
-/

namespace ReservoirDeck

variable {w w' : List UInt8} {c d : Cursor} {r r' s : DeckReader}

/-- If the line here goes on after the front, then with a slash in both texts or in neither. -/
def Joins (w w' : List UInt8) (c : Cursor) : Prop :=
  ∀ z, c.rest = z ++ w → Byte.newline ∉ z →
    (Byte.slash ∈ w'.takeWhile (· != Byte.newline) ↔ Byte.slash ∈ w.takeWhile (· != Byte.newline))

/-- A line that is passed without going beyond the front does not go on after it. -/
theorem joins_of_skipLine (hw : SameNext w w') {n : Nat}
    (h : ¬ (Pairing.front w w').past (c.forward n).skipLine) : Joins w w' c := by
  intro z hc hz
  rcases hw.cases with ⟨rfl, rfl⟩ | ⟨b, x, x', rfl, rfl, hb⟩
  · rfl
  refine absurd ?_ h
  by_cases hle : n ≤ z.length
  · have hrest : (c.forward n).rest = z.drop n ++ b :: x := by
      rw [Cursor.rest_forward, hc, List.drop_append_of_le_length hle]
    refine Pairing.front_beyond hrest (by simp) (Nat.lt_of_lt_of_le ?_
      (Cursor.length_takeWhile_le_lineSize _))
    have hbreak : b ≠ Byte.newline := by
      rintro rfl
      cases hb
    have hline : ∀ a ∈ z.drop n, (a != Byte.newline) = true := fun a ha =>
      bne_iff_ne.mpr (ne_of_mem_of_not_mem (List.mem_of_mem_drop ha) hz)
    rw [hrest, List.takeWhile_append_of_pos hline]
    simp [hbreak]
  · exact Pairing.front_past_forward (Pairing.front_beyond hc (by simp) (by omega)) _

theorem SameNext.dataSize (hw : SameNext w w') (seen : Bool) (z : List UInt8) :
    SameSize w z.length (Ignored.dataSize seen (z ++ w)) (Ignored.dataSize seen (z ++ w')) := by
  induction z generalizing seen with
  | nil =>
    rcases hw.cases with ⟨rfl, rfl⟩ | ⟨b, x, x', rfl, rfl, hb⟩
    · exact .inl rfl
    · refine .inr ⟨by simp, ?_⟩
      simp only [List.nil_append, Ignored.dataSize]
      split
      · split <;> simp
      · simp
  | cons b z ih =>
    simp only [List.cons_append, Ignored.dataSize]
    split
    · split
      · exact .inl rfl
      · exact (ih _).succ
    · exact (ih _).succ

namespace Pairing

theorem front_atComment (hw : SameNext w w') (h : (front w w').near c d) :
    d.atComment = c.atComment := by
  obtain ⟨z, hc, hd⟩ := h
  unfold Cursor.atComment Cursor.current Cursor.peek
  rw [hc, hd]
  cases z with
  | nil =>
    rcases hw.cases with ⟨rfl, rfl⟩ | ⟨b, x, x', rfl, rfl, hb⟩
    · rfl
    · have hdash : (b == Byte.dash) = false := by simpa using (isLetter_keyword hb).2.1
      simp only [List.nil_append, List.headD_cons, hdash, Bool.false_and]
  | cons b z =>
    simp only [List.cons_append, List.tail_cons, List.headD_eq_head?_getD, List.head?_cons,
      hw.head_append z]

theorem front_take (hw : SameNext w w') (h : (front w w').near c d) {k m : Nat}
    (h' : (front w w').near (c.forward m) (d.forward m)) (hk : k ≤ m) :
    d.rest.take k = c.rest.take k := by
  obtain ⟨z, hc, hd⟩ := h
  obtain ⟨z', hc', -⟩ := h'
  rcases hw.cases with ⟨rfl, rfl⟩ | ⟨b, x, x', rfl, rfl, -⟩
  · rw [hc, hd]
  · have hlen := congrArg List.length hc'
    simp only [Cursor.rest_forward, hc, List.length_drop, List.length_append,
      List.length_cons] at hlen
    have hle : k ≤ z.length := by omega
    rw [hc, hd, List.take_append_of_le_length hle, List.take_append_of_le_length hle]

theorem front_skipBlanks (hw : SameNext w w') (h : (front w w').near c d) :
    (front w w').past c.skipBlanks ∨
      (front w w').near c.skipBlanks d.skipBlanks ∧
        (d.rest.takeWhile Byte.isBlank).length = (c.rest.takeWhile Byte.isBlank).length := by
  obtain ⟨z, hc, hd⟩ := h
  have hblank : ∀ b, Byte.startsWord b = true → Byte.isBlank b = false :=
    fun b hb => (Byte.startsWord_bare hb).2.1
  rcases hw.start.takeWhile hblank z with heq | ⟨hne, hlt⟩
  · have hlen : (d.rest.takeWhile Byte.isBlank).length = (c.rest.takeWhile Byte.isBlank).length := by
      rw [hc, hd, heq]
    exact (front_forward hw.start hc hd (.inl hlen)).imp id fun hnear => ⟨hnear, hlen⟩
  · refine .inl (front_beyond hc hne ?_)
    rwa [hc]

end Pairing

namespace Ignored

open Pairing (front)

variable {n : Nat} {stop stop' : Nat}

theorem Round.alike (hw : SameNext w w') (h : Round c n) (hnear : (front w w').near c d) :
    (front w w').past (c.forward n) ∨ Round d n := by
  have hcurrent : d.current = c.current := by
    rw [Cursor.current, Cursor.current, List.headD_eq_head?_getD, List.headD_eq_head?_getD,
      Pairing.front_head hw hnear]
  have hcomment := Pairing.front_atComment hw hnear
  obtain ⟨z, hc, hd⟩ := id hnear
  have hsize : ∀ {m m'}, SameSize w z.length m m' → (front w w').past (c.forward m) ∨ m' = m := by
    rintro m m' (rfl | ⟨hne, hlt⟩)
    · exact .inr rfl
    · exact .inl (Pairing.front_beyond hc hne hlt)
  have hline : (front w w').past (c.forward (Cursor.lineSize c.rest)) ∨
      Cursor.lineSize d.rest = Cursor.lineSize c.rest := by
    rw [hc, hd]
    exact hsize (hw.start.lineSize z)
  have hdata : (front w w').past (c.forward (dataSize false c.rest)) ∨
      dataSize false d.rest = dataSize false c.rest := by
    rw [hc, hd]
    exact hsize (hw.dataSize false z)
  cases h with
  | comment h =>
    refine hline.imp id fun heq => ?_
    rw [← heq]
    exact .comment (hcomment.trans h)
  | slash h =>
    refine hline.imp id fun heq => ?_
    rw [← heq]
    exact .slash (hcurrent ▸ h)
  | letter h hmark =>
    rcases Pairing.front_line hw.start hnear with hpast | ⟨-, hsame⟩
    · exact .inl hpast
    · refine hline.imp id fun heq => ?_
      rw [← heq]
      refine .letter (hcurrent ▸ h) ?_
      rwa [Cursor.lineHasTerminator, hsame]
  | data hno h =>
    refine hdata.imp id fun heq => ?_
    rw [← heq]
    exact .data (hcomment.trans hno) (hcurrent ▸ h)

theorem Leaves.alike (hw : SameNext w w') (h : Leaves c) (hnear : (front w w').near c d)
    (hjoins : Joins w w' c) : Leaves d := by
  have hhead := Pairing.front_head hw hnear
  have hend : d.atEnd = c.atEnd := by rw [Cursor.atEnd_eq, Cursor.atEnd_eq, hhead]
  cases h with
  | text h => exact .text (hend.trans h)
  | name hsome hcomment h hmark =>
    refine .name (hend.trans hsome) ((Pairing.front_atComment hw hnear).trans hcomment) ?_ ?_
    · rwa [Cursor.current, List.headD_eq_head?_getD, hhead, ← List.headD_eq_head?_getD]
    · obtain ⟨z, hc, hd⟩ := hnear
      simp only [Cursor.lineHasTerminator, Cursor.line, List.contains_eq_mem,
        decide_eq_false_iff_not] at hmark ⊢
      by_cases hz : Byte.newline ∈ z
      · rw [hc, takeWhile_append_of_mem hz (by simp)] at hmark
        rwa [hd, takeWhile_append_of_mem hz (by simp)]
      · have hstop : ∀ b ∈ z, (b != Byte.newline) = true :=
          fun b hb => bne_iff_ne.mpr (ne_of_mem_of_not_mem hb hz)
        rw [hc, List.takeWhile_append_of_pos hstop, List.mem_append, not_or] at hmark
        rw [hd, List.takeWhile_append_of_pos hstop, List.mem_append, not_or]
        exact ⟨hmark.1, (hjoins z hc hz).not.mpr hmark.2⟩

/-- A round of the first text is one of the second, over as many bytes. -/
theorem step_alike_next (hw : SameNext w w') (hnear : (front w w').readers.near r s)
    (h : step stop r = .ok (.inl stop') r') (stop₂ : Nat) :
    (front w w').past r'.cursor ∨ ∃ n, r' = r.forward n ∧ stop' = r.pos + n ∧
      step stop₂ s = .ok (.inl (s.pos + n)) (s.forward n) ∧
        (front w w').readers.near r' (s.forward n) := by
  obtain ⟨hsome, n, hround, rfl, rfl⟩ := step_eq_next.mp h
  rcases Pairing.front_skipBlanks hw hnear.1 with hpast | ⟨hblanks, hlen⟩
  · exact .inl (Pairing.front_past_forward hpast n)
  rcases hround.alike hw hblanks with hpast | hround'
  · exact .inl hpast
  obtain ⟨z, hc, hd⟩ := id hblanks
  refine (Pairing.front_forward hw.start hc hd (.inl rfl)).imp id fun hafter => ?_
  have hsome' : s.cursor.skipBlanks.atEnd = false := by
    rw [Cursor.atEnd_eq, Pairing.front_head hw hblanks, ← Cursor.atEnd_eq, hsome]
  have hforward : ∀ q : DeckReader, q.moveTo (q.cursor.skipBlanks.forward n) =
      q.forward ((q.cursor.rest.takeWhile Byte.isBlank).length + n) := by
    intro q
    rw [Cursor.skipBlanks, Cursor.skipWhile, Cursor.forward_forward]
    rfl
  refine ⟨_, hforward r, Nat.add_assoc .., ?_, ?_⟩
  · rw [← hlen, ← hforward s]
    exact step_eq_next.mpr ⟨hsome', n, hround', (Nat.add_assoc ..).symm, rfl⟩
  · rw [← hlen, ← hforward s]
    exact ⟨hafter, hnear.2⟩

theorem step_alike_done (hw : SameNext w w') (hnear : (front w w').readers.near r s)
    (h : step stop r = .ok (.inr stop') r') (hpast : ¬ (front w w').past r'.cursor)
    (hjoins : Joins w w' r'.cursor) (stop₂ : Nat) :
    stop' = stop ∧ ∃ n, r' = r.forward n ∧ step stop₂ s = .ok (.inr stop₂) (s.forward n) ∧
      (front w w').readers.near r' (s.forward n) := by
  obtain ⟨hleaves, rfl, rfl⟩ := step_eq_done_iff.mp h
  obtain ⟨hblanks, hlen⟩ := (Pairing.front_skipBlanks hw hnear.1).resolve_left hpast
  have hend : step stop₂ s = .ok (.inr stop₂) (s.moveTo s.cursor.skipBlanks) :=
    step_eq_done_iff.mpr ⟨hleaves.alike hw hblanks hjoins, rfl, rfl⟩
  have hforward : s.moveTo s.cursor.skipBlanks =
      s.forward (r.cursor.rest.takeWhile Byte.isBlank).length := by
    rw [← hlen]
    rfl
  refine ⟨rfl, _, rfl, ?_, ?_⟩
  · rw [← hforward]
    exact hend
  · rw [← hforward]
    exact ⟨hblanks, hnear.2⟩

theorem iterate_alike (hw : SameNext w w') {r₀ s₀ : DeckReader} {k m : Nat} (hk : k ≤ m)
    (hnear : (front w w').readers.near (r₀.forward m) (s₀.forward m))
    (h : ReadM.iterate step (r₀.pos + k) (r₀.forward m) = .ok stop r')
    (hpast : ¬ (front w w').past r'.cursor) (hjoins : Joins w w' r'.cursor) :
    ∃ k' m', k' ≤ m' ∧ stop = r₀.pos + k' ∧ r' = r₀.forward m' ∧
      ReadM.iterate step (s₀.pos + k) (s₀.forward m) = .ok (s₀.pos + k') (s₀.forward m') ∧
        (front w w').readers.near r' (s₀.forward m') := by
  generalize hstop : r₀.pos + k = start, hr : r₀.forward m = r at h hnear
  fun_induction ReadM.iterate step start r generalizing k m with
  | case1 => cases h
  | case2 start r _ _ hstep =>
    cases h
    obtain ⟨rfl, n, rfl, hstep', hnear'⟩ := step_alike_done hw hnear hstep hpast hjoins (s₀.pos + k)
    subst hstop hr
    simp only [DeckReader.forward_forward] at hstep' hnear' ⊢
    exact ⟨k, m + n, by omega, rfl, rfl, ReadM.iterate_of_done hstep', hnear'⟩
  | case3 start r start' r₁ hstep hlt ih =>
    rcases step_alike_next hw hnear hstep (s₀.pos + k) with hpast' | ⟨n, rfl, rfl, hstep', hnear'⟩
    · have hreaches := (Run.Orderly.iterate orderly_step step_progresses start').reaches r₁
      rw [h] at hreaches
      exact absurd (Pairing.front_past_reaches hpast' hreaches) hpast
    subst hr
    have hlt' : ((s₀.forward m).forward n).remaining < (s₀.forward m).remaining :=
      Pairing.front_progress hnear.1 hnear'.1 hlt
    have hpos : ∀ q : DeckReader, (q.forward m).pos + n = q.pos + (m + n) :=
      fun q => Nat.add_assoc ..
    simp only [DeckReader.forward_forward s₀, hpos] at hstep' hnear' hlt'
    obtain ⟨k', m', hle, hk', hm', hrest, hend⟩ := ih (Nat.le_refl (m + n)) (hpos r₀).symm
      (DeckReader.forward_forward ..).symm h hnear'
    refine ⟨k', m', hle, hk', hm', ?_, hend⟩
    rw [ReadM.iterate_of_next hstep' hlt']
    exact hrest
  | case4 => cases h

theorem slice_take (c : Cursor) (k m : Nat) :
    (c.forward m).slice c.pos (c.pos + k) = Text.ofBytes (c.rest.take k) := by
  rw [Cursor.slice, Cursor.text_forward, List.drop_take, Nat.add_sub_cancel_left, ← c.rest_eq]

theorem read_alike (hw : SameNext w w') (hnear : (front w w').readers.near r s) {body : String}
    (h : read r = .ok body r') (hpast : ¬ (front w w').past r'.cursor)
    (hjoins : Joins w w' r'.cursor) :
    ∃ s', read s = .ok body s' ∧ (front w w').readers.near r' s' := by
  simp only [read, Run.bind_get_eq, Run.bind_eq_ok, Run.pure_eq, EStateM.Result.ok.injEq] at h ⊢
  obtain ⟨stop, r₁, hlines, rfl, rfl⟩ := h
  obtain ⟨k, m, hle, rfl, rfl, hlines', hnear'⟩ :=
    iterate_alike hw (Nat.le_refl 0) hnear hlines hpast hjoins
  refine ⟨_, ⟨_, _, hlines', ?_, rfl⟩, hnear'⟩
  congr 1
  change (s.cursor.forward m).slice s.cursor.pos (s.cursor.pos + k) =
    (r.cursor.forward m).slice r.cursor.pos (r.cursor.pos + k)
  rw [slice_take, slice_take, Pairing.front_take hw hnear.1 hnear'.1 hle]

end Ignored

end ReservoirDeck
