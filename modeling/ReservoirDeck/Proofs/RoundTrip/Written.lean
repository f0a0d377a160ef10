import ReservoirDeck.Proofs.RoundTrip.Spelled

/-!
What the writer adds to a text. On an empty line it adds the same bytes whatever stands before, and
the bytes of a record spell its words.
-/

namespace ReservoirDeck

open Text (bytes)

/-- Words with a space between them; `first` if nothing stands before them on their line. -/
def spelled (first : Bool) : List String → List UInt8
  | [] => []
  | w :: ws => (if first then [] else [Byte.space]) ++ (bytes w ++ spelled false ws)

/-- A record, without its line break. -/
def recordLine (ws : List String) : List UInt8 :=
  spelled true (ws ++ ["/"])

def recordText (ws : List String) : List UInt8 :=
  recordLine ws ++ [Byte.newline]

theorem separated_spelled (ws : List String) : Separated (spelled false ws) := by
  cases ws with
  | nil => exact separated_nil
  | cons w ws => exact separated_cons.mpr rfl

theorem spells_spelled (first : Bool) (ws : List String) : Spells ws (spelled first ws) := by
  induction ws generalizing first with
  | nil => exact .nil
  | cons w ws ih =>
    refine .cons ?_ (separated_spelled ws) (ih false)
    cases first <;> simp [Blank, Byte.isBlank]

theorem spells_recordLine (ws : List String) : Spells (ws ++ ["/"]) (recordLine ws) :=
  spells_spelled true _

/-- On an empty line these bytes are added, and another empty line comes after them. -/
def Adds (write : Writer → Writer) (z : List UInt8) : Prop :=
  ∀ w, w.lineEmpty = true →
    bytes (write w).text = bytes w.text ++ z ∧ (write w).lineEmpty = true

theorem Adds.id : Adds id [] := fun _ hw => ⟨(List.append_nil _).symm, hw⟩

theorem Adds.comp {f g : Writer → Writer} {x y : List UInt8} (hf : Adds f x) (hg : Adds g y) :
    Adds (fun w => g (f w)) (x ++ y) := by
  intro w hw
  obtain ⟨hx, hline⟩ := hf w hw
  obtain ⟨hy, hline'⟩ := hg (f w) hline
  exact ⟨by rw [hy, hx, List.append_assoc], hline'⟩

theorem Adds.foldl {α : Type} {write : Writer → α → Writer} {z : α → List UInt8} {as : List α}
    (h : ∀ a ∈ as, Adds (write · a) (z a)) : Adds (as.foldl write ·) (as.flatMap z) := by
  induction as with
  | nil => exact .id
  | cons a as ih =>
    exact (h a List.mem_cons_self).comp (ih fun b hb => h b (List.mem_cons_of_mem a hb))

theorem Adds.line (s : String) : Adds (·.line s) (bytes s ++ [Byte.newline]) := by
  intro w hw
  refine ⟨?_, rfl⟩
  simp only [Writer.line, Text.bytes_append, List.append_assoc]
  rfl

theorem Adds.endList : Adds (·.endList) [Byte.slash, Byte.newline] :=
  .line "/"

theorem bytes_tokens (w : Writer) (ts : List String) :
    bytes (w.tokens ts).text = bytes w.text ++ spelled w.lineEmpty ts ∧
      (w.tokens ts).lineEmpty = (w.lineEmpty && ts.isEmpty) := by
  induction ts generalizing w with
  | nil => simp [Writer.tokens, spelled]
  | cons t ts ih =>
    obtain ⟨htext, hline⟩ := ih (w.token t)
    have hspace : bytes " " = [Byte.space] := rfl
    refine ⟨htext.trans ?_, hline.trans (by simp [Writer.token])⟩
    cases hw : w.lineEmpty <;> simp [Writer.token, hw, spelled, hspace]

theorem Adds.row (ts : List String) :
    Adds (fun w => (w.tokens ts).newline) (spelled true ts ++ [Byte.newline]) := by
  intro w hw
  refine ⟨?_, rfl⟩
  have hbreak : bytes "\n" = [Byte.newline] := rfl
  simp [Writer.newline, (bytes_tokens w ts).1, hw, hbreak]

theorem Adds.record (ts : List String) :
    Adds (·.record ts) (recordText ts) := by
  have h : (fun w : Writer => w.record ts) = fun w => (w.tokens (ts ++ ["/"])).newline := by
    funext w
    simp [Writer.record, Writer.endRecord, Writer.tokens]
  rw [h]
  exact .row (ts ++ ["/"])

/-- The lines of a region: its rows, and a slash. -/
def regionLines (rows : List (List String)) : List UInt8 :=
  (rows.flatMap fun row => spelled true row ++ [Byte.newline]) ++ [Byte.slash, Byte.newline]

theorem regionLines_cons (row : List String) (rows : List (List String)) :
    regionLines (row :: rows) = spelled true row ++ Byte.newline :: regionLines rows := by
  simp [regionLines]

theorem Adds.tableRegion (rows : List (List String)) :
    Adds (·.tableRegion rows) (regionLines rows) :=
  (Adds.foldl fun row _ => .row row).comp .endList

/-- The triples after the first, on lines of their own. -/
def tripleLines : List Float → List UInt8
  | x :: y :: z :: rest =>
    Byte.newline :: List.replicate 8 Byte.space ++
      (spelled true ([x, y, z].map deckText) ++ tripleLines rest)
  | [] => []
  | rest => Byte.newline :: List.replicate 8 Byte.space ++ spelled true (rest.map deckText)

/-- A row of a leading value and triples, without its last line break. -/
def pvtLines (row : List Float) : List UInt8 :=
  spelled true ((row.take 4).map deckText) ++ (tripleLines (row.drop 4) ++ spelled false ["/"])

theorem bytes_indented (w : Writer) (ts : List String) :
    bytes ((w.newline.indent 8).tokens ts).text =
      bytes w.text ++ (Byte.newline :: List.replicate 8 Byte.space ++ spelled true ts) ∧
    (((w.newline.indent 8).tokens ts).lineEmpty = ts.isEmpty) := by
  obtain ⟨htext, hline⟩ := bytes_tokens (w.newline.indent 8) ts
  have hindent : bytes "\n" ++ bytes (String.ofList (List.replicate 8 ' ')) =
      Byte.newline :: List.replicate 8 Byte.space := by decide
  refine ⟨htext.trans ?_, by simpa [Writer.newline, Writer.indent] using hline⟩
  simp only [Writer.newline, Writer.indent, Text.bytes_append, List.append_assoc, ← hindent]

theorem bytes_triples (w : Writer) (xs : List Float) :
    bytes (w.triples xs).text = bytes w.text ++ tripleLines xs ∧
      (w.triples xs).lineEmpty = (w.lineEmpty && xs.isEmpty) := by
  fun_induction tripleLines xs generalizing w with
  | case1 x y z rest ih =>
    obtain ⟨htext, hline⟩ := bytes_indented w ([x, y, z].map deckText)
    obtain ⟨htext', hline'⟩ := ih ((w.newline.indent 8).tokens ([x, y, z].map deckText))
    rw [Writer.triples]
    refine ⟨?_, ?_⟩
    · rw [htext', htext]
      simp
    · rw [hline', hline]
      simp
  | case2 => simp [Writer.triples]
  | case3 rest hthree hnil =>
    obtain ⟨htext, hline⟩ := bytes_indented w (rest.map deckText)
    rw [Writer.triples]
    · refine ⟨htext, ?_⟩
      rw [hline]
      cases rest with
      | nil => exact absurd rfl hnil
      | cons => simp
    · exact hthree
    · exact hnil

theorem Adds.pvtRow {row : List Float} (hrow : row ≠ []) :
    Adds (·.pvtRow row) (pvtLines row ++ [Byte.newline]) := by
  intro w hw
  refine ⟨?_, rfl⟩
  obtain ⟨htext, hline⟩ := bytes_tokens w ((row.take 4).map deckText)
  obtain ⟨htext', hline'⟩ := bytes_triples (w.tokens ((row.take 4).map deckText)) (row.drop 4)
  obtain ⟨hslash, -⟩ := bytes_tokens
    ((w.tokens ((row.take 4).map deckText)).triples (row.drop 4)) ["/"]
  have hbreak : bytes "\n" = [Byte.newline] := rfl
  have hfirst : (w.tokens ((row.take 4).map deckText)).lineEmpty = false := by
    obtain ⟨x, xs, rfl⟩ := List.exists_cons_of_ne_nil hrow
    rw [hline]
    simp
  rw [hline', hfirst, htext', htext, hw] at hslash
  simp only [Writer.pvtRow, Writer.endRecord, Writer.newline, Text.bytes_append, hbreak]
  simpa [Writer.tokens, pvtLines] using congrArg (· ++ [Byte.newline]) hslash

theorem Adds.pvtTable {t : PvtTable Float} (ht : ∀ rows ∈ t.regions, ∀ row ∈ rows, row ≠ []) :
    Adds (·.pvtTable t) (t.regions.flatMap fun rows =>
      rows.flatMap (fun row => pvtLines row ++ [Byte.newline]) ++ [Byte.slash, Byte.newline]) :=
  .foldl fun rows hrows => (Adds.foldl fun row hrow => .pvtRow (ht rows hrows row hrow)).comp .endList

theorem separated_tripleLines (xs : List Float) : Separated (tripleLines xs) := by
  fun_cases tripleLines xs with
  | case1 => exact separated_cons.mpr rfl
  | case2 => exact separated_nil
  | case3 => exact separated_cons.mpr rfl

theorem spells_tripleLines (xs : List Float) : Spells (xs.map deckText) (tripleLines xs) := by
  have hgap : Blank (Byte.newline :: List.replicate 8 Byte.space) := List.all_eq_true.mp rfl
  fun_induction tripleLines xs with
  | case1 x y z rest ih =>
    exact ((spells_spelled true ([x, y, z].map deckText)).append ih
      fun _ => separated_tripleLines rest).gap hgap (by simp)
  | case2 => exact .nil
  | case3 rest _ hnil => exact (spells_spelled true _).gap hgap (by simpa using hnil)

theorem spells_pvtLines (row : List Float) : Spells (row.map deckText ++ ["/"]) (pvtLines row) := by
  have hslash := separated_spelled ["/"]
  have h := (spells_spelled true ((row.take 4).map deckText)).append
    ((spells_tripleLines (row.drop 4)).append (spells_spelled false ["/"]) fun _ => hslash)
    fun _ => (separated_tripleLines (row.drop 4)).append hslash
  rwa [← List.append_assoc, ← List.map_append, List.take_append_drop] at h

end ReservoirDeck
