import ReservoirDeck.Proofs.Reading.Progress
import ReservoirDeck.Proofs.Reading.Values

/-!
What comes next by one byte, and the token that is read there. The byte of an item is one that
numbers start with, and the byte of a slash is the slash, so that where a keyword or the end of
the text comes next neither is read. What is read between two places is then one list of records.
-/

namespace ReservoirDeck

/-- The characters that an item may start with. -/
def isItemStart (c : Char) : Bool :=
  c.isDigit || c ∈ ['+', '-', '.', '*']

theorem data_of_isItemStart {c : Char} (h : isItemStart c = true) :
    c.toNat < 128 ∧ Lookahead.ofByte (byteOfChar c) = .data := by
  simp only [isItemStart, Bool.or_eq_true, decide_eq_true_eq, List.mem_cons, List.not_mem_nil,
    or_false] at h
  rcases h with hdigit | rfl | rfl | rfl | rfl
  · have hhigh := (toNat_of_isDigit hdigit).2
    exact ⟨by omega, ofByte_digit hdigit⟩
  all_goals decide

theorem isItemStart_of_natural {cs : List Char} {n : ℕ} (h : naturalOfChars? cs = some n) :
    cs.head?.any isItemStart = true := by
  rw [naturalOfChars?] at h
  split at h
  · next hcs =>
    obtain ⟨c, cs, rfl⟩ := List.exists_cons_of_ne_nil hcs.1
    simp [isItemStart, List.all_eq_true.mp hcs.2 c List.mem_cons_self]
  · cases h

theorem isItemStart_of_ofChars? {cs : List Char} {d : Decimal} (h : Decimal.ofChars? cs = some d) :
    cs.head?.any isItemStart = true := by
  simp only [Decimal.ofChars?, Option.bind_eq_bind, Option.bind_eq_some_iff] at h
  obtain ⟨u, hguard, -⟩ := h
  cases cs with
  | nil => cases hguard
  | cons c cs =>
    by_contra hstart
    obtain ⟨hdigit, hpoint⟩ : c.isDigit = false ∧ c ≠ '.' := by
      simp only [isItemStart, List.head?_cons, Option.any_some, Bool.or_eq_true, decide_eq_true_eq,
        List.mem_cons, not_or, Bool.not_eq_true] at hstart
      exact ⟨hstart.1, hstart.2.2.2.1⟩
    simp [hdigit, hpoint] at hguard

theorem isItemStart_of_realOfText? {s : String} {x : Float} (h : realOfText? s = some x) :
    s.toList.head?.any isItemStart = true := by
  simp only [realOfText?, Option.map_eq_some_iff] at h
  obtain ⟨d, hd, -⟩ := h
  have hhead := isItemStart_of_ofChars? hd
  unfold splitSign at hhead
  split at hhead
  · next hs =>
    rw [hs]
    rfl
  · next hs =>
    rw [hs]
    rfl
  · exact hhead

/-- A text that is split starts as the part before its star, or with the star. -/
theorem isItemStart_of_splitStar {s : String} {before after : List Char}
    (h : splitStar s = some (before, after))
    (hbefore : before = [] ∨ before.head?.any isItemStart = true) :
    s.toList.head?.any isItemStart = true := by
  rw [(splitStar_eq_some.mp h).1]
  cases before with
  | nil => rfl
  | cons c before => simpa using hbefore

theorem isItemStart_of_item {s : String} {i : Item Float} (h : Item.ofText? s = some i) :
    s.toList.head?.any isItemStart = true := by
  have hcount : ∀ {cs : List Char} {k : ℕ}, countOfChars? cs = some k →
      cs.head?.any isItemStart = true := fun hk =>
    isItemStart_of_natural (Option.filter_eq_some_iff.mp hk).1
  rw [Item.ofText?] at h
  split at h
  · obtain ⟨x, hx, -⟩ := Option.map_eq_some_iff.mp h
    exact isItemStart_of_realOfText? hx
  · next hsplit => exact isItemStart_of_splitStar hsplit (.inl rfl)
  · next hsplit =>
    obtain ⟨k, hk, -⟩ := Option.map_eq_some_iff.mp h
    exact isItemStart_of_splitStar hsplit (.inr (hcount hk))
  · next hsplit =>
    obtain ⟨k, hk, -⟩ := Option.bind_eq_some_iff.mp h
    exact isItemStart_of_splitStar hsplit (.inr (hcount hk))

namespace DeckReader

variable {r r' e d : DeckReader} {t : Token}

theorem head_bytes_of_bare (h : r.token? = (some t, r')) (hbare : t.quoting = .bare)
    (hne : t.text ≠ "") :
    (Text.bytes t.text).head? = r.skipTrivia.cursor.rest.head? := by
  obtain ⟨first, rest, hrest, rfl, -⟩ := token?_eq_some h
  rw [(Text.bytes_ofBytes _).resolve_right hne, hrest]
  rcases Lexeme.ofBytes_bare hbare with ⟨-, hlex⟩ | ⟨word, hword, hlex⟩
  · rw [hlex]
    rfl
  · rw [hlex, List.head?_cons]
    cases word with
    | nil =>
      rw [hlex] at hne
      exact absurd rfl hne
    | cons b word => rw [(List.cons.inj hword).1, List.head?_cons]

theorem lookahead_of_head {b : UInt8} (h : r.skipTrivia.cursor.rest.head? = some b) :
    r.cursor.lookahead = .ofByte b := by
  have hcursor : r.skipTrivia.cursor = r.cursor.skipTrivia := rfl
  rw [Cursor.lookahead_eq_head, ← hcursor, h]
  rfl

theorem lookahead_of_item {i : Item Float} (h : r.token? = (some t, r'))
    (hi : t.item? Float = some i) : r.cursor.lookahead = .data := by
  rw [Token.item?] at hi
  split at hi
  · cases hi
  next hquoted =>
  have hbare : t.quoting = .bare := by simpa [Token.isQuoted] using hquoted
  have hstart := isItemStart_of_item hi
  obtain ⟨c, cs, hs⟩ : ∃ c cs, t.text.toList = c :: cs := by
    refine List.exists_cons_of_ne_nil fun hnil => ?_
    simp [hnil] at hstart
  rw [hs, List.head?_cons, Option.any_some] at hstart
  obtain ⟨hlow, hdata⟩ := data_of_isItemStart hstart
  obtain ⟨b, bs, hbytes, hbyte, -⟩ := Text.bytes_cons hs
  have hne : t.text ≠ "" := by
    rintro hempty
    simp [hempty] at hs
  have hhead := head_bytes_of_bare h hbare hne
  rw [hbytes, List.head?_cons] at hhead
  rw [lookahead_of_head hhead.symm, (hbyte hlow).1, hdata]

theorem lookahead_of_slash (h : e.SlashAhead d) : e.cursor.lookahead = .terminator := by
  obtain ⟨t, htoken, ht⟩ := h
  simp only [Token.isTerminator, Bool.and_eq_true, beq_iff_eq] at ht
  obtain ⟨hbare, htext⟩ := ht
  have hhead := head_bytes_of_bare htoken hbare (by simp [htext])
  rw [htext] at hhead
  exact lookahead_of_head hhead.symm

/-- A slash that comes next is a token, and it is passed with the rest of its line. -/
theorem exists_slashAhead (h : r.cursor.lookahead = .terminator) :
    ∃ d, r.SlashAhead d ∧ r.terminator.2 = d.skipLine := by
  have hhead : r.skipTrivia.cursor.rest.head? = some Byte.slash := by
    have hcursor : r.skipTrivia.cursor = r.cursor.skipTrivia := rfl
    rw [Cursor.lookahead_eq_head, ← hcursor] at h
    cases hb : r.skipTrivia.cursor.rest.head? with
    | none => simp [hb] at h
    | some b =>
      rw [hb] at h
      rw [Lookahead.eq_slash_of_terminator h]
  obtain ⟨tl, hrest⟩ : ∃ tl, r.skipTrivia.cursor.rest = Byte.slash :: tl :=
    ⟨_, List.eq_cons_of_mem_head? hhead⟩
  have hlex : Lexeme.ofBytes Byte.slash tl = ⟨.bare, [Byte.slash], 1⟩ := rfl
  have htext : Text.ofBytes [Byte.slash] = "/" := by decide
  have htoken := token?_of_cons hrest
  rw [hlex, htext] at htoken
  have hline : (r.skipTrivia.forward 1).skipLine = r.skipTrivia.skipLine := by
    have hsize : Cursor.lineSize (Byte.slash :: tl) = 1 + Cursor.lineSize tl := Nat.add_comm _ 1
    change (r.skipTrivia.forward 1).forward (Cursor.lineSize (r.skipTrivia.forward 1).cursor.rest) =
      r.skipTrivia.forward (Cursor.lineSize r.skipTrivia.cursor.rest)
    rw [forward_forward, rest_forward, hrest, List.drop_one, List.tail_cons, hsize]
  refine ⟨r.skipTrivia.forward 1, ⟨_, htoken, isTerminator_slash _⟩, ?_⟩
  rw [terminator, if_pos hhead, hline]

/-- The next records are these, each with a slash behind its items; the second place is the one
after them. -/
inductive ReadsRecords : DeckReader → List (List (Item Float)) → DeckReader → Prop
  | nil (r : DeckReader) : ReadsRecords r [] r
  | cons {r m d e : DeckReader} {items : List (Item Float)} {records : List (List (Item Float))}
    (hitems : r.ReadsItems items m) (hslash : m.SlashAhead d)
    (hrest : ReadsRecords d.skipLine records e) : ReadsRecords r (items :: records) e

variable {m m' : DeckReader} {items items' : List (Item Float)}
  {records records' : List (List (Item Float))}

theorem ReadsRecords.concat (h : r.ReadsRecords records m) (hitems : m.ReadsItems items e)
    (hslash : e.SlashAhead d) : r.ReadsRecords (records ++ [items]) d.skipLine := by
  induction h with
  | nil => exact .cons hitems hslash (.nil _)
  | cons hitems' hslash' _ ih => exact .cons hitems' hslash' (ih hitems)

theorem ReadsItems.length_entries_pos (h : r.ReadsItems items m) :
    ∀ i ∈ items, 1 ≤ i.entries.length := by
  induction h with
  | nil => simp
  | cons _ _ hi _ ih => exact List.forall_mem_cons.mpr ⟨Token.length_entries_pos hi, ih⟩

theorem ReadsRecords.length_entries_pos (h : r.ReadsRecords records m) :
    ∀ i ∈ records.flatten, 1 ≤ i.entries.length := by
  induction h with
  | nil => simp
  | cons hitems _ _ ih =>
    rw [List.flatten_cons, List.forall_mem_append]
    exact ⟨hitems.length_entries_pos, ih⟩

theorem ReadsItems.isPrefix (h : r.ReadsItems items m) (h' : r.ReadsItems items' m')
    (hslash : m'.SlashAhead d) : items <+: items' := by
  induction h generalizing items' with
  | nil r => exact List.nil_prefix
  | @cons r r₁ e t i items htoken ht hi _ ih =>
    cases h' with
    | nil =>
      obtain ⟨t', htoken', ht'⟩ := hslash
      cases htoken.symm.trans htoken'
      rw [ht] at ht'
      cases ht'
    | cons htoken' _ hi' hrest' =>
      cases htoken.symm.trans htoken'
      cases hi.symm.trans hi'
      exact (List.prefix_cons_inj i).mpr (ih hrest')

theorem ReadsItems.unique (h : r.ReadsItems items m) (h' : r.ReadsItems items m') : m = m' := by
  induction h with
  | nil r =>
    cases h'
    rfl
  | cons htoken _ _ _ ih =>
    cases h' with
    | cons htoken' _ _ hrest' =>
      cases htoken.symm.trans htoken'
      exact ih hrest'

/-- A list of records that a keyword or the end of the text follows holds whatever is read
before. -/
theorem ReadsRecords.extends (h : r.ReadsRecords records m) (hitems : m.ReadsItems items e)
    (h' : r.ReadsRecords records' m')
    (hend : m'.cursor.lookahead ≠ .data ∧ m'.cursor.lookahead ≠ .terminator) :
    ∃ rest, records' = records ++ rest ∧ items <+: rest.head?.getD [] := by
  induction h generalizing records' with
  | nil r =>
    refine ⟨records', rfl, ?_⟩
    cases h' with
    | nil =>
      cases hitems with
      | nil => exact List.nil_prefix
      | cons htoken _ hi _ => exact absurd (lookahead_of_item htoken hi) hend.1
    | cons hitems' hslash' _ => exact hitems.isPrefix hitems' hslash'
  | @cons r m₁ d₁ e₁ items₁ records hitems₁ hslash₁ _ ih =>
    cases h' with
    | nil =>
      cases hitems₁ with
      | nil => exact absurd (lookahead_of_slash hslash₁) hend.2
      | cons htoken _ hi _ => exact absurd (lookahead_of_item htoken hi) hend.1
    | cons hitems' hslash' hrest' =>
      obtain rfl := List.Sublist.antisymm (hitems₁.isPrefix hitems' hslash').sublist
        (hitems'.isPrefix hitems₁ hslash₁).sublist
      obtain rfl := hitems₁.unique hitems'
      obtain ⟨t, htoken, -⟩ := hslash₁
      obtain ⟨t', htoken', -⟩ := hslash'
      cases htoken.symm.trans htoken'
      obtain ⟨rest, rfl, hprefix⟩ := ih hitems hrest'
      exact ⟨rest, rfl, hprefix⟩

end DeckReader

end ReservoirDeck
