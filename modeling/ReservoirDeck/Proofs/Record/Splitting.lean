import ReservoirDeck.Proofs.Alike.Fronts
import ReservoirDeck.Proofs.Alike.Records
import ReservoirDeck.Proofs.Record.Extent
import ReservoirDeck.Proofs.RoundTrip.Fields

/-!
Default markers in two pieces. A marker for `k + m` fields leaves out the same fields as one for `k` and
one for `m` behind it, whatever reads them: the first piece may end inside a run of numbers, inside items
that are passed over, or at a name.
-/

namespace ReservoirDeck

open Text (bytes)

variable {k m : Nat} {r r' s s' : DeckReader} {t : Token}

/-- A bare word that leaves out this many fields. -/
def Token.Omits (t : Token) (count : Nat) : Prop :=
  t.quoting = .bare ∧ defaultCount? t.text = some count

namespace Token.Omits

variable {count : Nat} (h : t.Omits count)
include h

theorem isTerminator : t.isTerminator = false := by
  obtain ⟨text, quoting, start⟩ := t
  obtain ⟨rfl, hcount⟩ := h
  exact isTerminator_of_bareText (bareText_of_defaultCount? hcount) start

theorem item? (τ : Type) [DeckNumber τ] : t.item? τ = some (.defaults count) := by
  have hquoted : t.isQuoted = false := by
    rw [isQuoted, h.1]
    rfl
  rw [Token.item?, hquoted]
  exact Item.ofText?_of_defaultCount? h.2

theorem itemExtent : RecordM.itemExtent t = (count, none) := by
  rw [RecordM.itemExtent, h.item? Float]

theorem pos : 1 ≤ count := by
  obtain ⟨digits, -, -, hcount⟩ := toList_of_defaultCount? h.2
  rcases hcount with ⟨-, rfl⟩ | hcount
  · exact Nat.le_refl 1
  · exact countOfChars?_pos hcount

end Token.Omits

namespace RecordM

theorem name_marker (default : String) (h : r.token? = (some t, r')) (ht : t.Omits k) :
    name default ⟨r, .reading⟩ = name default ⟨r', .owing k none⟩ := by
  rw [name_item default h ht.isTerminator, ht.1]
  dsimp only
  rw [ht.2]

theorem numbers_marker {τ σ : Type} [DeckNumber τ] (mark : τ → σ) {slots : List σ} (hs : slots ≠ [])
    (h : r.token? = (some t, r')) (ht : t.Omits k) :
    numbers mark slots ⟨r, .reading⟩ = numbers mark slots ⟨r', .owing k none⟩ := by
  rw [numbers_item hs h ht.isTerminator, ht.item? τ]

theorem skip_marker {n : Nat} (hn : n ≠ 0) (h : r.token? = (some t, r')) (ht : t.Omits k) :
    skip n ⟨r, .reading⟩ = skip n ⟨r', .owing k none⟩ := by
  rw [skip_item hn h ht.isTerminator, ht.itemExtent]

end RecordM

/-- A marker for `k + m` fields is ahead in the first text, and two markers for `k` and for `m` in its
place in the second. -/
inductive SplitAhead (k m : Nat) : DeckReader → DeckReader → Prop
  | here {r r' s s₁ s₂ : DeckReader} {t t₁ t₂ : Token} (hr : r.token? = (some t, r'))
    (hs : s.token? = (some t₁, s₁)) (hs₁ : s₁.token? = (some t₂, s₂)) (ht : t.Omits (k + m))
    (ht₁ : t₁.Omits k) (ht₂ : t₂.Omits m) (hrest : SameRest r' s₂) : SplitAhead k m r s
  | later {r r' s s' : DeckReader} {t : Token} {n : Nat} (hr : r.token? = (some t, r'))
    (hs : s.token? = (some { t with start := n }, s')) (ht : t.isTerminator = false)
    (hrest : SplitAhead k m r' s') : SplitAhead k m r s

/-- How two records stand: the marker is still ahead, or the second marker is where the rest of the
whole one is owed, or both are passed. A record that ended has nothing ahead. -/
inductive SplitRecord (k m : Nat) : RecordReader → RecordReader → Prop
  | ahead {r s : DeckReader} {standing : Standing} (h : SplitAhead k m r s)
    (hopen : standing ≠ .ended) : SplitRecord k m ⟨r, standing⟩ ⟨s, standing⟩
  | between {r s s' : DeckReader} {t : Token} (hs : s.token? = (some t, s')) (ht : t.Omits m)
    (hrest : SameRest r s') (a : Nat) :
    SplitRecord k m ⟨r, .owe (a + m) none⟩ ⟨s, .owe a none⟩
  | behind {r s : DeckReader} {standing : Standing} (hrest : SameRest r s) :
    SplitRecord k m ⟨r, standing⟩ ⟨s, standing⟩

/-- Records that stand so. -/
def splitSides (k m : Nat) : Sides RecordReader where
  near := SplitRecord k m
  past _ := False
  excused _ := False

theorem SplitAhead.keyword_eq (h : SplitAhead k m r s) : s.keyword = r.keyword := by
  induction h with
  | here hr hs hs₁ _ _ _ hrest =>
    have hkeyword := hrest.2
    rwa [DeckReader.keyword_of_token? hr, DeckReader.keyword_of_token? hs₁,
      DeckReader.keyword_of_token? hs] at hkeyword
  | later hr hs _ _ ih =>
    rwa [DeckReader.keyword_of_token? hr, DeckReader.keyword_of_token? hs] at ih

theorem SplitRecord.keyword_eq {p q : RecordReader} (h : SplitRecord k m p q) :
    q.reader.keyword = p.reader.keyword := by
  cases h with
  | ahead h _ => exact h.keyword_eq
  | between hs _ hrest a => exact (DeckReader.keyword_of_token? hs).symm.trans hrest.2
  | behind hrest => exact hrest.2

theorem SplitRecord.isEnded_eq {p q : RecordReader} (h : SplitRecord k m p q) :
    (q.standing == .ended) = (p.standing == .ended) := by
  cases h with
  | ahead _ _ => rfl
  | between _ _ _ a =>
    rw [beq_eq_false_iff_ne.mpr (Standing.owe_ne_ended _ none),
      beq_eq_false_iff_ne.mpr (Standing.owe_ne_ended _ none)]
  | behind _ => rfl

namespace RecordM

variable {α τ σ : Type} [DeckNumber τ]

theorem behind_outcome {x : RecordM α} (hx : (Pairing.front [] []).records.Alike x)
    (hrest : SameRest r s) (standing : Standing) :
    (splitSides k m).Outcome (x ⟨r, standing⟩) (x ⟨s, standing⟩) := by
  have hout := (hx ⟨r, standing⟩).near ⟨s, standing⟩ ⟨sameRest_iff.mpr hrest, rfl⟩
  apply hout.mono
  · rintro ⟨r', standing'⟩ ⟨s', standing''⟩ ⟨hnear, rfl⟩
    exact .behind (sameRest_iff.mp hnear)
  · exact fun s h => Nat.not_lt_zero _ h
  · exact fun cause => id

theorem not_past (p : RecordReader) : ¬ (splitSides k m).past p :=
  id

section Between

variable (hs : s.token? = (some t, s')) (ht : t.Omits m) (hrest : SameRest r s') (a : Nat)
include hs ht hrest

theorem between_name (default : String) :
    (splitSides k m).Outcome (name default ⟨r, .owe (a + m) none⟩)
      (name default ⟨s, .owe a none⟩) := by
  cases a with
  | zero =>
    rw [Nat.zero_add, ← Standing.owing_eq_owe ht.pos]
    change Sides.Outcome _ _ (name default ⟨s, .reading⟩)
    rw [name_marker default hs ht]
    exact .ok (.behind hrest)
  | succ a =>
    have howe : Standing.owe (a + 1 + m) none = .owing (a + m + 1) none := by
      rw [Nat.add_right_comm]
      rfl
    rw [howe]
    exact .ok (.between hs ht hrest a)

theorem between_numbers (mark : τ → σ) (slots : List σ) :
    (splitSides k m).Outcome (numbers mark slots ⟨r, .owe (a + m) none⟩)
      (numbers mark slots ⟨s, .owe a none⟩) := by
  rcases Nat.lt_or_ge a slots.length with hlt | hle
  -- Slots are left when the first marker is used up: there the second one is read.
  · have hne : slots.drop a ≠ [] := by simpa using hlt
    have hsecond := numbers_owe_add hlt 0 mark s
    rw [Nat.add_zero] at hsecond
    rw [numbers_owe_add hlt m mark r, hsecond, ← Standing.owing_eq_owe ht.pos]
    apply Sides.Outcome.map _ _ not_past
    change Sides.Outcome _ _ (numbers mark (slots.drop a) ⟨s, .reading⟩)
    rw [numbers_marker mark hne hs ht]
    exact behind_outcome (Pairing.numbers (Pairing.lawful_front sameNext_nil) mark _) hrest _
  · have hleft : a + m - slots.length = a - slots.length + m := by omega
    rw [numbers_owe_of_le (by omega) mark r, numbers_owe_of_le hle mark s, hleft]
    exact .ok (.between hs ht hrest _)

theorem between_skip (n : Nat) :
    (splitSides k m).Outcome (skip n ⟨r, .owe (a + m) none⟩) (skip n ⟨s, .owe a none⟩) := by
  rcases Nat.lt_or_ge a n with hlt | hle
  · have hsecond := skip_owe_add hlt 0 s none
    rw [Nat.add_zero] at hsecond
    rw [skip_owe_add hlt m r none, hsecond, ← Standing.owing_eq_owe ht.pos]
    apply Sides.Outcome.map _ _ not_past
    change Sides.Outcome _ _ (skip (n - a) ⟨s, .reading⟩)
    rw [skip_marker (by omega) hs ht]
    exact behind_outcome (Pairing.skip (Pairing.lawful_front sameNext_nil) _) hrest _
  · have hleft : a + m - n = a - n + m := by omega
    rw [skip_owe_of_le (by omega) r none, skip_owe_of_le hle s none, hleft]
    exact .ok (.between hs ht hrest _)

end Between

theorem ahead_name (default : String) (h : SplitAhead k m r s) :
    (splitSides k m).Outcome (name default ⟨r, .reading⟩) (name default ⟨s, .reading⟩) := by
  cases h with
  | here hr hs hs₁ ht ht₁ ht₂ hrest =>
    rw [name_marker default hr ht, name_marker default hs ht₁, Standing.owing_eq_owe ht.pos,
      Standing.owing_eq_owe ht₁.pos]
    exact between_name hs₁ ht₂ hrest k default
  | later hr hs ht hrest =>
    rw [name_item default hr ht, name_item default hs ht]
    dsimp only
    split
    · exact .error (.ahead hrest (by simp)) rfl hrest.keyword_eq.symm
    · exact .ok (.ahead hrest (by simp))
    · split
      · exact .ok (.ahead hrest (Standing.owe_ne_ended _ none))
      · exact .ok (.ahead hrest (by simp))

theorem ahead_numbers_nil (mark : τ → σ) (h : SplitAhead k m r s) (count : Nat)
    (value : Option String) :
    (splitSides k m).Outcome (numbers mark [] ⟨r, .owe count value⟩)
      (numbers mark [] ⟨s, .owe count value⟩) := by
  rw [numbers_nil, numbers_nil]
  exact .ok (.ahead h (Standing.owe_ne_ended count value))

/-- It is enough to know how the slots are read that are left after the owed fields. -/
theorem ahead_numbers_owing {mark : τ → σ} (h : SplitAhead k m r s)
    (hread : ∀ slots, (splitSides k m).Outcome (numbers mark slots ⟨r, .reading⟩)
      (numbers mark slots ⟨s, .reading⟩)) (slots : List σ) (count : Nat) (value : Option String) :
    (splitSides k m).Outcome (numbers mark slots ⟨r, .owing count value⟩)
      (numbers mark slots ⟨s, .owing count value⟩) := by
  rcases pay_cases mark (slots.take count) value with ⟨front, hlen, hpay⟩ | ⟨cause, hpay⟩
  · rw [numbers_of_pay hlen hpay, numbers_of_pay hlen hpay]
    apply Sides.Outcome.map _ _ not_past
    rcases Nat.lt_or_ge count slots.length with hlt | hle
    · rw [Nat.sub_eq_zero_of_le (Nat.le_of_lt hlt)]
      exact hread _
    · rw [List.drop_eq_nil_of_le hle]
      exact ahead_numbers_nil mark h _ value
  · rw [numbers_of_pay_fail hpay, numbers_of_pay_fail hpay]
    exact .error (.ahead h (by simp)) rfl h.keyword_eq.symm

theorem ahead_numbers (mark : τ → σ) (h : SplitAhead k m r s) (slots : List σ) :
    (splitSides k m).Outcome (numbers mark slots ⟨r, .reading⟩)
      (numbers mark slots ⟨s, .reading⟩) := by
  induction h generalizing slots with
  | @here r r' s s₁ s₂ t t₁ t₂ hr hs hs₁ ht ht₁ ht₂ hrest =>
    by_cases hslots : slots = []
    · subst hslots
      exact ahead_numbers_nil mark (.here hr hs hs₁ ht ht₁ ht₂ hrest) 0 none
    -- With the marker passed `k + m` fields are owed; with the first of the two passed, `k`.
    · rw [numbers_marker mark hslots hr ht, numbers_marker mark hslots hs ht₁,
        Standing.owing_eq_owe ht₁.pos, Standing.owing_eq_owe ht.pos]
      exact between_numbers hs₁ ht₂ hrest k mark slots
  | @later r r' s s' t n hr hs ht hrest ih =>
    by_cases hslots : slots = []
    · subst hslots
      exact ahead_numbers_nil mark (.later hr hs ht hrest) 0 none
    · have hitem : ({ t with start := n } : Token).item? τ = t.item? τ := rfl
      have herror : (splitSides k m).Outcome
          (.error (r'.error (.unreadable t.text)) ⟨r', .reading⟩ :
            EStateM.Result DeckError RecordReader (Nat × List σ))
          (.error (s'.error (.unreadable t.text)) ⟨s', .reading⟩) :=
        .error (.ahead hrest (by simp)) rfl hrest.keyword_eq.symm
      rw [numbers_item hslots hr ht, numbers_item hslots hs ht, hitem]
      cases t.item? τ with
      | none => exact herror
      | some i =>
        cases i with
        | value v => exact (ih _).map _ not_past
        | defaults count => exact ahead_numbers_owing hrest ih slots count none
        | repeated count v =>
          dsimp only
          split
          · exact herror
          · exact (ih _).map _ not_past

theorem ahead_skip_zero (h : SplitAhead k m r s) (count : Nat) (value : Option String) :
    (splitSides k m).Outcome (skip 0 ⟨r, .owe count value⟩) (skip 0 ⟨s, .owe count value⟩) := by
  rw [skip_zero, skip_zero]
  exact .ok (.ahead h (Standing.owe_ne_ended count value))

/-- It is enough to know how the items are passed that are left after the owed fields. -/
theorem ahead_skip_owing (h : SplitAhead k m r s)
    (hread : ∀ n, (splitSides k m).Outcome (skip n ⟨r, .reading⟩) (skip n ⟨s, .reading⟩))
    (n count : Nat) (value : Option String) :
    (splitSides k m).Outcome (skip n ⟨r, .owing count value⟩) (skip n ⟨s, .owing count value⟩) := by
  rw [skip_owing, skip_owing]
  apply Sides.Outcome.map _ _ not_past
  rcases Nat.lt_or_ge count n with hlt | hle
  · rw [Nat.sub_eq_zero_of_le (Nat.le_of_lt hlt)]
    exact hread _
  · rw [Nat.sub_eq_zero_of_le hle]
    exact ahead_skip_zero h _ value

theorem ahead_skip (h : SplitAhead k m r s) (n : Nat) :
    (splitSides k m).Outcome (skip n ⟨r, .reading⟩) (skip n ⟨s, .reading⟩) := by
  induction h generalizing n with
  | @here r r' s s₁ s₂ t t₁ t₂ hr hs hs₁ ht ht₁ ht₂ hrest =>
    by_cases hn : n = 0
    · subst hn
      exact ahead_skip_zero (.here hr hs hs₁ ht ht₁ ht₂ hrest) 0 none
    · rw [skip_marker hn hr ht, skip_marker hn hs ht₁, Standing.owing_eq_owe ht₁.pos,
        Standing.owing_eq_owe ht.pos]
      exact between_skip hs₁ ht₂ hrest k n
  | @later r r' s s' t start hr hs ht hrest ih =>
    by_cases hn : n = 0
    · subst hn
      exact ahead_skip_zero (.later hr hs ht hrest) 0 none
    · rw [skip_item hn hr ht, skip_item hn hs ht]
      exact ahead_skip_owing hrest ih n _ _

theorem split_alike {x : RecordM α} (hx : (Pairing.front [] []).records.Alike x)
    (hahead : ∀ r s standing, SplitAhead k m r s → standing ≠ .ended →
      (splitSides k m).Outcome (x ⟨r, standing⟩) (x ⟨s, standing⟩))
    (hbetween : ∀ {r s s' t}, s.token? = (some t, s') → t.Omits m → SameRest r s' → ∀ a,
      (splitSides k m).Outcome (x ⟨r, .owe (a + m) none⟩) (x ⟨s, .owe a none⟩)) :
    (splitSides k m).Alike x := by
  intro p
  refine ⟨fun q h => ?_, fun h => h.elim⟩
  cases h with
  | ahead h hopen => exact hahead _ _ _ h hopen
  | between hs ht hrest a => exact hbetween hs ht hrest a
  | behind hrest => exact behind_outcome hx hrest _

theorem split_name (default : String) : (splitSides k m).Alike (name default) := by
  refine split_alike (Pairing.name (Pairing.lawful_front sameNext_nil) default) ?_
    fun hs ht hrest a => between_name hs ht hrest a default
  intro r s standing h hopen
  cases standing with
  | ended => exact absurd rfl hopen
  | reading => exact ahead_name default h
  | owing count value => exact .ok (.ahead h (Standing.owe_ne_ended _ value))

theorem split_numbers (mark : τ → σ) (slots : List σ) :
    (splitSides k m).Alike (numbers mark slots) := by
  refine split_alike (Pairing.numbers (Pairing.lawful_front sameNext_nil) mark slots) ?_
    fun hs ht hrest a => between_numbers hs ht hrest a mark slots
  intro r s standing h hopen
  cases standing with
  | ended => exact absurd rfl hopen
  | reading => exact ahead_numbers mark h slots
  | owing count value => exact ahead_numbers_owing h (ahead_numbers mark h) slots count value

theorem split_skip (n : Nat) : (splitSides k m).Alike (skip n) := by
  refine split_alike (Pairing.skip (Pairing.lawful_front sameNext_nil) n) ?_
    fun hs ht hrest a => between_skip hs ht hrest a n
  intro r s standing h hopen
  cases standing with
  | ended => exact absurd rfl hopen
  | reading => exact ahead_skip h n
  | owing count value => exact ahead_skip_owing h (ahead_skip h) n count value

theorem split_attempt {x : RecordM α} (hx : (splitSides k m).Alike x) :
    (splitSides k m).Alike (attempt x) := by
  intro p
  refine ⟨fun q h => ?_, fun h => h.elim⟩
  have hout := (hx p).near q h
  unfold attempt
  generalize x p = first, x q = second at hout
  cases hout with
  | ok h => exact .ok h
  | error h cause _ =>
    dsimp only
    rw [cause]
    exact .ok h
  | excused h => exact h.elim
  | past h => cases first <;> exact h.elim

/-- A record stands where it would with the marker in one piece, whatever was read of it. -/
theorem Calls.split_alike {x : RecordM α} (hx : x.Calls) : (splitSides k m).Alike x := by
  induction hx with
  | pure a => exact .pure a
  | bind _ _ ihx ihf => exact ihx.bind ihf
  | fail cause => exact fun p => ⟨fun q h => .error h rfl h.keyword_eq.symm, fun h => h.elim⟩
  | attempt _ ih => exact split_attempt ih
  | isEnded =>
    refine fun p => ⟨fun q h => ?_, fun h => h.elim⟩
    change Sides.Outcome _ (.ok (p.standing == .ended) p) (.ok (q.standing == .ended) q)
    rw [h.isEnded_eq]
    exact .ok h
  | name default => exact split_name default
  | numbers mark slots => exact split_numbers mark slots
  | skip n => exact split_skip n

theorem ahead_skipToTerminator (h : SplitAhead k m r s) :
    (Pairing.front [] []).readers.Outcome (skipToTerminator r) (skipToTerminator s) := by
  induction h with
  | here hr hs hs₁ ht ht₁ ht₂ hrest =>
    rw [skipToTerminator_item hr ht.isTerminator, skipToTerminator_item hs ht₁.isTerminator,
      skipToTerminator_item hs₁ ht₂.isTerminator]
    exact (Pairing.items (Pairing.lawful_front sameNext_nil) itemCalls_skipToTerminator _).near _
      (sameRest_iff.mpr hrest)
  | later hr hs ht _ ih => rwa [skipToTerminator_item hr ht, skipToTerminator_item hs ht]

theorem split_afterRecord {p q : RecordReader} (h : SplitRecord k m p q) :
    (Pairing.front [] []).readers.Outcome p.afterRecord q.afterRecord := by
  have hskip := Pairing.items (Pairing.lawful_front sameNext_nil) itemCalls_skipToTerminator
  cases h with
  | @ahead r s standing h hopen =>
    cases standing with
    | ended => exact absurd rfl hopen
    | _ => exact ahead_skipToTerminator h
  | between hs ht hrest a =>
    rw [afterRecord_owe, afterRecord_owe, skipToTerminator_item hs ht.isTerminator]
    exact (hskip _).near _ (sameRest_iff.mpr hrest)
  | @behind r s standing hrest =>
    cases standing with
    | ended => exact .ok (sameRest_iff.mpr hrest)
    | _ => exact (hskip _).near _ (sameRest_iff.mpr hrest)

theorem split_finish {p q : RecordReader} (h : SplitRecord k m p q) :
    Run.answer (finish q) = Run.answer (finish p) ∧
      SameRest (Run.state (finish p)).reader (Run.state (finish q)).reader := by
  have hout := split_afterRecord h
  rw [finish_eq, finish_eq]
  generalize p.afterRecord = first, q.afterRecord = second at hout
  cases hout with
  | ok h => exact ⟨rfl, sameRest_iff.mp h⟩
  | error h cause keyword => exact ⟨by simp [Run.answer, cause, keyword], sameRest_iff.mp h⟩
  | excused h => exact h.elim
  | past h => cases first <;> exact absurd h (Nat.not_lt_zero _)

end RecordM

/-- The bare word `w` is a token from `c` on, before any slash; `d` is the place after it. -/
inductive Cursor.WordAhead (w : String) : Cursor → Cursor → Prop
  | here {c d : Cursor} {t : Token} (h : c.skipTrivia.readToken = (some t, d))
    (hbare : t.quoting = .bare) (hw : t.text = w) : WordAhead w c d
  | later {c c' d : Cursor} {t : Token} (h : c.skipTrivia.readToken = (some t, c'))
    (ht : t.isTerminator = false) (hrest : WordAhead w c' d) : WordAhead w c d

theorem startsWord_of_defaultCount? {w : String} {count : Nat} (h : defaultCount? w = some count) :
    ∃ b tl, bytes w = b :: tl ∧ Byte.startsWord b = true := by
  obtain ⟨b, tl, hb, hquote, hbare, -⟩ := (bareText_of_defaultCount? h).bytes
  obtain ⟨digits, hw, hdigits, -⟩ := toList_of_defaultCount? h
  have hchars : w.toList.all (· != '-') = true := by
    rw [hw, List.all_append, Bool.and_eq_true]
    refine ⟨List.all_eq_true.mpr fun c hc => ?_, rfl⟩
    rw [bne_iff_ne]
    rintro rfl
    exact absurd (hdigits _ hc) (by decide)
  rw [← sameAscii_ne_dash.all_bytes, hb, List.all_cons, Bool.and_eq_true] at hchars
  exact ⟨b, tl, hb, by simp [Byte.startsWord, hbare b List.mem_cons_self, hquote, hchars.1]⟩

namespace Cursor.WordAhead

variable {w : String} {c d : Cursor}

theorem rest_of_here {count : Nat} (hw : defaultCount? w = some count)
    (h : c.skipTrivia.readToken = (some t, d)) (hbare : t.quoting = .bare) (htext : t.text = w) :
    c.skipTrivia.rest = bytes w ++ d.rest ∧ Separated d.rest := by
  obtain ⟨b, tl, hb, hstart⟩ := startsWord_of_defaultCount? hw
  have htoken := DeckReader.token?_of_readToken h none
  subst htext
  obtain ⟨hrest, hsep, -⟩ := DeckReader.token?_bare htoken hbare hb (Byte.startsWord_bare hstart).1
  exact ⟨hrest, hsep⟩

theorem le_remaining {count : Nat} (hw : defaultCount? w = some count) (h : WordAhead w c d) :
    (bytes w ++ d.rest).length ≤ c.remaining := by
  induction h with
  | @here c d t h hbare htext =>
    rw [← (rest_of_here hw h hbare htext).1]
    exact remaining_forward_le c _
  | later h _ _ ih =>
    have hlt := DeckReader.token?_lt (DeckReader.token?_of_readToken h none)
    exact Nat.le_of_lt (Nat.lt_of_le_of_lt ih hlt)

end Cursor.WordAhead

section Text

variable {w u v : String} {gap : List UInt8} {d : Cursor} (hw : defaultCount? w = some (k + m))
  (hu : defaultCount? u = some k) (hv : defaultCount? v = some m) (hgap : Blank gap)
  (hne : gap ≠ [])
include hw hu

theorem sameStart_split :
    SameStart (bytes w ++ d.rest) (bytes u ++ (gap ++ (bytes v ++ d.rest))) := by
  obtain ⟨b, tl, hb, hstart⟩ := startsWord_of_defaultCount? hw
  obtain ⟨b', tl', hb', hstart'⟩ := startsWord_of_defaultCount? hu
  rw [hb, hb']
  exact .inr ⟨b, b', _, _, rfl, rfl, hstart, hstart'⟩

include hv hgap hne

theorem splitAhead_here {c : Cursor} {t : Token} (hc : c.skipTrivia.readToken = (some t, d))
    (hbare : t.quoting = .bare) (htext : t.text = w)
    (hs : s.skipTrivia.cursor.rest = bytes u ++ (gap ++ (bytes v ++ d.rest))) :
    SplitAhead k m ⟨c, s.keyword⟩ s := by
  obtain ⟨-, hsep⟩ := Cursor.WordAhead.rest_of_here hw hc hbare htext
  have hs₁ := (Word.bare (bareText_of_defaultCount? hu)).token? blank_nil hs
    (hgap.separated hne (bytes v ++ d.rest))
  rw [s.token?_skipTrivia, List.length_nil, Nat.zero_add] at hs₁
  have hrest₁ := DeckReader.rest_forward_length hs
  have hs₂ := (Word.bare (bareText_of_defaultCount? hv)).token? hgap hrest₁ hsep
  refine .here (DeckReader.token?_of_readToken hc s.keyword) hs₁ hs₂ ⟨hbare, htext ▸ hw⟩ ⟨rfl, hu⟩
    ⟨rfl, hv⟩ ⟨?_, rfl⟩
  rw [← DeckReader.forward_forward, DeckReader.rest_forward, DeckReader.rest_forward, hrest₁,
    List.drop_left, List.drop_left]

theorem splitAhead_of_text {c : Cursor} (hword : c.WordAhead w d) {before : List UInt8}
    (hc : c.rest = before ++ (bytes w ++ d.rest))
    (hs : s.cursor.rest = before ++ (bytes u ++ (gap ++ (bytes v ++ d.rest)))) :
    SplitAhead k m ⟨c, s.keyword⟩ s := by
  have hstart : SameStart (bytes w ++ d.rest) (bytes u ++ (gap ++ (bytes v ++ d.rest))) :=
    sameStart_split hw hu
  induction hword generalizing before s with
  | @here c d t h hbare htext =>
    apply splitAhead_here hw hu hv hgap hne h hbare htext
    obtain ⟨hword, -⟩ := Cursor.WordAhead.rest_of_here hw h hbare htext
    rcases Pairing.front_skipTrivia hstart ⟨before, hc, hs⟩ with hpast | ⟨z, hc', hs'⟩
    · change c.skipTrivia.rest.length < _ at hpast
      rw [hword] at hpast
      exact absurd hpast (Nat.lt_irrefl _)
    · obtain rfl : z = [] := List.append_left_eq_self.mp (hc'.symm.trans hword)
      exact hs'
  | @later c c' d t h ht hrest ih =>
    have hnear : (Pairing.front (bytes w ++ d.rest)
        (bytes u ++ (gap ++ (bytes v ++ d.rest)))).readers.near ⟨c, s.keyword⟩ s :=
      ⟨⟨before, hc, hs⟩, rfl⟩
    have htoken := DeckReader.token?_of_readToken h s.keyword
    -- No token before the marker reaches into it, so each is cut from bytes that both texts share.
    obtain ⟨n, s', hs', ⟨before', hc', hrest'⟩, hkeyword⟩ := Pairing.front_token?_some hstart hnear
      htoken (Nat.not_lt_of_le (hrest.le_remaining hw))
    have hahead := ih hc' hrest' hstart
    rw [← hkeyword] at hahead
    exact .later htoken hs' ht hahead

end Text

/-- A default marker for `k + m` fields leaves out the same fields as one for `k` and one for `m`.
Whatever is read of the two records gives the same and ends one if it ends the other, and both leave
the same text. -/
theorem Record.split_default {α : Type} {x : RecordM α} (hx : x.Calls) {w u v : String}
    {before gap : List UInt8} {d : Cursor} (hw : defaultCount? w = some (k + m))
    (hu : defaultCount? u = some k) (hv : defaultCount? v = some m) (hgap : Blank gap)
    (hne : gap ≠ []) (hword : r.cursor.WordAhead w d)
    (hr : r.cursor.rest = before ++ (bytes w ++ d.rest))
    (hs : s.cursor.rest = before ++ (bytes u ++ (gap ++ (bytes v ++ d.rest))))
    (hkeyword : s.keyword = r.keyword) :
    Run.answer (x ⟨s, .reading⟩) = Run.answer (x ⟨r, .reading⟩) ∧
      ((Run.state (x ⟨s, .reading⟩)).standing = .ended ↔
        (Run.state (x ⟨r, .reading⟩)).standing = .ended) ∧
      Run.answer (RecordM.finish (Run.state (x ⟨s, .reading⟩))) =
        Run.answer (RecordM.finish (Run.state (x ⟨r, .reading⟩))) ∧
      (Run.state (RecordM.finish (Run.state (x ⟨s, .reading⟩)))).reader.cursor.rest =
        (Run.state (RecordM.finish (Run.state (x ⟨r, .reading⟩)))).reader.cursor.rest := by
  have hahead := splitAhead_of_text hw hu hv hgap hne hword hr hs
  rw [hkeyword] at hahead
  have hout := (hx.split_alike ⟨r, .reading⟩).near ⟨s, .reading⟩ (.ahead hahead (by simp))
  have hnear := hout.near_state RecordM.not_past fun _ h => h
  obtain ⟨hfinish, hrest⟩ := RecordM.split_finish hnear
  exact ⟨hout.answer_eq RecordM.not_past fun _ h => h, by simpa using hnear.isEnded_eq, hfinish,
    hrest.1⟩

/-- A marker from the second of three numbers on over items that are passed. The first of the two in its
place ends among those items. -/
theorem Record.split_default_among_items :
    (Run.answer ((RecordM.optionalNumbers Int32 3 >>= fun _ => RecordM.skip 4)
        ⟨.ofString "-- a\n7 3*\n2* 'B' 8 / rest\nC", .reading⟩)).toOption = some 4 ∧
      (Run.state (RecordM.finish (Run.state
        ((RecordM.optionalNumbers Int32 3 >>= fun _ => RecordM.skip 4)
          ⟨.ofString "-- a\n7 3*\n2* 'B' 8 / rest\nC", .reading⟩)))).reader.cursor.rest =
        bytes "C" := by
  have hcalls : (RecordM.optionalNumbers Int32 3 >>= fun _ => RecordM.skip 4).Calls :=
    (RecordM.Calls.optionalNumbers 3).bind fun _ => .skip 4
  have hmarkers : defaultCount? "5*" = some (3 + 2) ∧ defaultCount? "3*" = some 3 ∧
      defaultCount? "2*" = some 2 := by decide
  have hword : (DeckReader.ofString "-- a\n7 5* 'B' 8 / rest\nC").cursor.WordAhead "5*"
      ((DeckReader.ofString "-- a\n7 5* 'B' 8 / rest\nC").cursor.forward 9) :=
    .later rfl rfl (.here rfl rfl rfl)
  obtain ⟨hanswer, -, -, hrest⟩ := Record.split_default
    (s := .ofString "-- a\n7 3*\n2* 'B' 8 / rest\nC") hcalls hmarkers.1 hmarkers.2.1 hmarkers.2.2
    blank_newline (by decide) hword (show _ = bytes "-- a\n7 " ++ _ from rfl) rfl rfl
  rw [hanswer, hrest]
  decide +kernel

end ReservoirDeck
