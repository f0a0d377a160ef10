import ReservoirDeck.Proofs.Rows.Entries

/-!
Bodies that are rows of reals, from the words of each row. What a body holds depends on the entries of
its rows: on how they are grouped into words, and on the slashes that may be left out, it does not.
-/

namespace ReservoirDeck

open Item (expand)
open Run (Gives)

theorem Token.isTerminator_of_real {t : Token} {i : Item Float} (h : t.item? Float = some i) :
    t.isTerminator = false := by
  by_contra hslash
  rw [Bool.not_eq_false, isTerminator, Bool.and_eq_true, beq_iff_eq, beq_iff_eq] at hslash
  have hnone : (Item.ofText? "/" : Option (Item Float)) = none := by decide
  rw [item?, hslash.2, hnone, ite_self] at h
  cases h

/-- The items that words are. A word that is none is left out. -/
def Item.ofTexts (ws : List String) : List (Item Float) :=
  ws.filterMap ofText?

namespace DeckReader

variable {r r' m e : DeckReader} {ws : List String} {rows rows' : List (List String × Bool)}

/-- The next tokens are these words, none of them quoted; the second place is the one after them. -/
inductive ReadsWords : DeckReader → List String → DeckReader → Prop
  | nil (r : DeckReader) : ReadsWords r [] r
  | cons {r r' e : DeckReader} {t : Token} {w : String} {ws : List String}
    (htoken : r.token? = (some t, r')) (hbare : t.isQuoted = false) (htext : t.text = w)
    (hrest : ReadsWords r' ws e) : ReadsWords r (w :: ws) e

/-- What comes next is rows of these words, each with a slash behind it or without one. The rest of
the line of a slash belongs to its row. -/
inductive ReadsRows : DeckReader → List (List String × Bool) → DeckReader → Prop
  | nil (r : DeckReader) : ReadsRows r [] r
  | cons {r m p e : DeckReader} {ws : List String} {closed : Bool} {rows : List (List String × Bool)}
    (hwords : r.ReadsWords ws m) (hends : m.terminator = (closed, p)) (hrest : p.ReadsRows rows e) :
    ReadsRows r ((ws, closed) :: rows) e

/-- A body ends where a keyword comes next, or nothing. -/
def EndsRows (r : DeckReader) : Prop :=
  r.cursor.lookahead = .keyword ∨ r.cursor.lookahead = .endOfInput

/-- What comes next is a body of these rows. -/
def HasRows (r : DeckReader) (rows : List (List String × Bool)) : Prop :=
  ∃ e, r.ReadsRows rows e ∧ e.EndsRows

theorem ReadsWords.readsItems (h : r.ReadsWords ws e)
    (hitems : ∀ w ∈ ws, (Item.ofText? w : Option (Item Float)).isSome) :
    r.ReadsItems (Item.ofTexts ws) e := by
  induction h with
  | nil r => exact .nil r
  | @cons r r' e t w ws htoken hbare htext _ ih =>
    obtain ⟨hword, hwords⟩ := List.forall_mem_cons.mp hitems
    obtain ⟨i, hi⟩ := Option.isSome_iff_exists.mp hword
    have hitem : t.item? Float = some i := by simpa [Token.item?, hbare, htext] using hi
    rw [Item.ofTexts, List.filterMap_cons_some hi]
    exact .cons htoken (Token.isTerminator_of_real hitem) hitem (ih hwords)

/-- The keyword that a reader names plays no part in what comes next. -/
theorem token?_inKeyword {t? : Option Token} (h : r.token? = (t?, r')) (name : Option String) :
    token? { r with keyword := name } = (t?, { r' with keyword := name }) := by
  unfold token? at h ⊢
  cases h
  rfl

theorem terminator_inKeyword {closed : Bool} (h : r.terminator = (closed, r'))
    (name : Option String) :
    terminator { r with keyword := name } = (closed, { r' with keyword := name }) := by
  have hhere : skipTrivia { r with keyword := name } = { r.skipTrivia with keyword := name } := rfl
  rw [terminator, hhere]
  rw [terminator] at h
  by_cases hhead : r.skipTrivia.cursor.rest.head? = some Byte.slash
  · rw [if_pos hhead] at h ⊢
    cases h
    rfl
  · rw [if_neg hhead] at h ⊢
    cases h
    rfl

theorem ReadsWords.inKeyword (h : r.ReadsWords ws e) (name : Option String) :
    ReadsWords { r with keyword := name } ws { e with keyword := name } := by
  induction h with
  | nil r => exact .nil _
  | cons htoken hbare htext _ ih => exact .cons (token?_inKeyword htoken name) hbare htext ih

theorem ReadsRows.inKeyword (h : r.ReadsRows rows e) (name : Option String) :
    ReadsRows { r with keyword := name } rows { e with keyword := name } := by
  induction h with
  | nil r => exact .nil _
  | cons hwords hends _ ih =>
    exact .cons (hwords.inKeyword name) (terminator_inKeyword hends name) ih

theorem ReadsRows.split (h : r.ReadsRows (rows ++ rows') e) :
    ∃ m, r.ReadsRows rows m ∧ m.ReadsRows rows' e := by
  induction rows generalizing r with
  | nil => exact ⟨r, .nil r, h⟩
  | cons row rows ih =>
    cases h with
    | cons hwords hends hrest =>
      obtain ⟨m, hfront, hback⟩ := ih hrest
      exact ⟨m, .cons hwords hends hfront, hback⟩

end DeckReader

/-- The words of a row are items that can be read in runs of these sizes. Without a slash the row is
complete. -/
structure Item.FitsRow (ns : List Nat) (row : List String × Bool) : Prop where
  items : ∀ w ∈ row.1, (ofText? w : Option (Item Float)).isSome
  fits : Fits ns (ofTexts row.1)
  ends : row.2 = true ∨ (expand (ofTexts row.1)).length = ns.sum

def rowEntries (body : List (List String × Bool)) : List (List (Option Float)) :=
  body.map fun row => expand (Item.ofTexts row.1)

/-- What a row of reals makes of its entries. It may not be empty. -/
def Record.ofRow (fields : List Field) (es : List (Option Float)) :
    Except Cause (Record Float fields) :=
  if es = [] then .error (.malformed .emptyRecord) else ofEntries fields es

/-- What a body of rows makes of the entries of each. -/
def Record.ofRows (fields : List Field) (rows : List (List (Option Float))) :
    Except Cause (List (Record Float fields)) := do
  let values ← rows.mapM (ofRow fields)
  if values.isEmpty then .error (.malformed .noRows) else return values

theorem Run.Gives.round {σ α β : Type} {step : σ → ReadM (σ ⊕ α)} {After : DeckReader → Prop}
    {s : σ} {r p : DeckReader} {x : Except Cause β} {next : β → σ} {rest : β → Except Cause α}
    (hmoves : ReadM.RoundProgresses (step s))
    (hround : Gives (· = p) (step s r) ((fun b => .inl (next b)) <$> x))
    (hrest : ∀ b, x = .ok b → Gives After (ReadM.iterate step (next b) p) (rest b)) :
    Gives After (ReadM.iterate step s r) (x >>= rest) := by
  cases x with
  | ok b =>
    generalize hrun : step s r = result at hround
    cases hround with
    | ok h =>
      subst h
      rw [ReadM.iterate_of_next hrun (hmoves hrun)]
      exact hrest b rfl
  | error cause =>
    generalize hrun : step s r = result at hround
    cases hround with
    | error e r' =>
      rw [ReadM.iterate_of_error hrun]
      exact .error e r'

/-- Fields that rows are made of: reals, one at least. -/
structure Record.IsRow (fields : List Field) : Prop where
  real : ∀ field ∈ fields, field.IsReal
  nonempty : (runs fields).sum ≠ 0
  progresses : (Record.read "" fields).Progresses

section Rows

variable {fields : List Field} {r m p : DeckReader} {ws : List String} {closed : Bool}
  {es : List (Option Float)}

theorem Run.Gives.run {α : Type} {x : RecordM α} {y : Except Cause α}
    (h : Gives (·.reader = p) (x ⟨r, .reading⟩) y) : Gives (· = p) (x.run r) y := by
  unfold RecordM.run
  generalize x ⟨r, .reading⟩ = result at h
  cases h with
  | ok h => exact .ok h
  | error e s => exact .error e _

theorem Record.row_gives (hreal : ∀ field ∈ fields, field.IsReal) {leader : String}
    (h : RecordReader.Holds ⟨r, .reading⟩ (runs fields) es p) :
    Gives (· = p) (RecordM.run (do
        let values ← Record.read leader fields
        RecordM.finishRow
        return values) r) (ofEntries fields es) := by
  refine .run ?_
  rw [← bind_pure (ofEntries fields es)]
  refine (read_gives hreal h).bind fun values s hs => ?_
  obtain ⟨s', hfinish, hplace⟩ := hs.finishRow
  rw [Run.bind_of_ok _ hfinish]
  exact .ok hplace

theorem ReadM.rowStep_gives (hfields : Record.IsRow fields)
    (hrow : Item.FitsRow (Record.runs fields) (ws, closed)) (hwords : r.ReadsWords ws m)
    (hends : m.terminator = (closed, p)) (done : List (Record Float fields)) :
    Gives (· = p) (rowStep (Record.read "" fields) done r)
      ((fun values => .inl (done ++ [values])) <$>
        Record.ofRow fields (expand (Item.ofTexts ws))) := by
  have hreads := hwords.readsItems hrow.items
  have hfits : Item.Fits (Record.runs fields) (Item.ofTexts ws) := hrow.fits
  have hslash : (expand (Item.ofTexts ws)).length = (Record.runs fields).sum ∨
      ∃ d, m.SlashAhead d := by
    obtain hclosed | hlen := hrow.ends
    · right
      obtain ⟨d, hslash, -⟩ | ⟨-, hopen⟩ := m.terminator_cases
      · exact ⟨d, hslash⟩
      · cases (congrArg Prod.fst (hends.symm.trans hopen)).symm.trans hclosed
    · exact .inl hlen
  obtain rfl : m.terminator.2 = p := congrArg Prod.snd hends
  generalize Item.ofTexts ws = items at hreads hfits hslash ⊢
  unfold rowStep
  rw [bind_lookahead_eq]
  cases hreads with
  | nil =>
    obtain ⟨d, hslash⟩ := hslash.resolve_left fun hlen => hfields.nonempty hlen.symm
    rw [DeckReader.lookahead_of_slash hslash]
    exact .error _ _
  | @cons _ r' _ t i others htoken ht hi hrest =>
    have hne : expand (i :: others) ≠ [] := by
      have hpos := Token.length_entries_pos hi
      rw [Item.expand_cons, ← List.length_pos_iff, List.length_append]
      omega
    have hhere : r.skipTrivia.ReadsItems (i :: others) m :=
      .cons (r.token?_skipTrivia.symm ▸ htoken) ht hi hrest
    rw [DeckReader.lookahead_of_item htoken hi, Record.ofRow, if_neg hne, map_eq_pure_bind]
    exact (Record.row_gives hfields.real (.reading hhere hfits hslash)).bind fun values s hs => .ok hs

/-- The rows ahead are read one by one, and the loop goes on behind them. -/
theorem ReadM.iterate_rows_gives (hfields : Record.IsRow fields)
    {body : List (List String × Bool)} (hbody : ∀ row ∈ body, Item.FitsRow (Record.runs fields) row)
    (h : r.ReadsRows body m) {After : DeckReader → Prop}
    {rest : List (Record Float fields) → Except Cause (List (Record Float fields))}
    {done : List (Record Float fields)}
    (hrest : ∀ values, Gives After (iterate (rowStep (Record.read "" fields)) (done ++ values) m)
      (rest values)) :
    Gives After (iterate (rowStep (Record.read "" fields)) done r)
      ((rowEntries body).mapM (Record.ofRow fields) >>= rest) := by
  induction h generalizing done rest with
  | nil r => simpa [rowEntries] using hrest []
  | cons hwords hends _ ih =>
    obtain ⟨hrow, hrows⟩ := List.forall_mem_cons.mp hbody
    rw [rowEntries, List.map_cons, List.mapM_cons, bind_assoc]
    refine Run.Gives.round (rowStep_progresses hfields.progresses done)
      (rowStep_gives hfields hrow hwords hends done) fun v _ => ?_
    rw [bind_assoc]
    refine ih hrows fun values => ?_
    simpa using hrest (v :: values)

theorem ReadM.rowStep_ends {α : Type} {fields : RecordM α} (h : m.EndsRows) (done : List α) :
    rowStep fields done m = .ok (.inr done) m.skipTrivia := by
  unfold rowStep
  rw [bind_lookahead_eq]
  obtain h | h := h
  all_goals
    rw [h]
    rfl

theorem ReadM.rows_gives (hfields : Record.IsRow fields) {body : List (List String × Bool)}
    (hbody : ∀ row ∈ body, Item.FitsRow (Record.runs fields) row)
    (h : r.ReadsRows body m) (hend : m.EndsRows) :
    Gives (fun _ => True) (ReadM.rows (Record.read "" fields) r)
      (Record.ofRows fields (rowEntries body)) := by
  have hloop : Gives (fun _ => True) (iterate (rowStep (Record.read "" fields)) [] r)
      ((rowEntries body).mapM (Record.ofRow fields)) := by
    rw [← bind_pure ((rowEntries body).mapM _)]
    refine iterate_rows_gives hfields hbody h fun values => ?_
    rw [iterate_of_done (rowStep_ends hend _)]
    exact .ok trivial
  refine hloop.bind fun values s _ => ?_
  split
  · exact .error _ _
  · exact .ok trivial

end Rows

theorem Kind.isRow {k : Kind} {fields : List Field} (h : k.layout = .rows fields) :
    Record.IsRow fields := by
  have hreal : (∀ field ∈ fields, field.IsReal) ∧ (Record.runs fields).sum ≠ 0 := by
    cases k
    all_goals cases h
    all_goals simp [Record.runs, Field.runs, Field.IsReal, Field.run, referenceRow, Field.requiredReal]
  have hw := k.isWritable_layout
  rw [h, Layout.isWritable, Bool.and_eq_true] at hw
  exact ⟨hreal.1, hreal.2, Record.read_progresses hw.2 ""⟩

theorem Keyword.answer_read [Calendar] {k : Kind} {r : DeckReader} {After : DeckReader → Prop}
    {y : Except Cause (k.layout.Body Float)}
    (h : Gives After (k.layout.read { r with keyword := some k.name }) y) :
    Run.answer (Keyword.read k.name r) = (y.map (.typed k)).mapError (·, some k.name) := by
  generalize hrun : k.layout.read { r with keyword := some k.name } = result at h
  cases h with
  | @ok body r' =>
    have hread := Keyword.read_name_eq_ok.mpr ⟨r', hrun, rfl⟩
    rw [hread]
    rfl
  | error e r' =>
    have hread : ∃ r₁, Keyword.read k.name r = .error e r₁ := by
      rw [Keyword.read, Kind.ofName?_name]
      exact ⟨_, ReadM.inKeyword_eq_error.mpr ⟨r', Run.bind_of_error _ hrun, rfl⟩⟩
    obtain ⟨r₁, hread⟩ := hread
    have hkeyword := ((Keyword.read_error_context k.name r).2 e r₁ hread).1
    rw [hread, Run.answer, hkeyword]
    rfl

section Keywords

variable {k : Kind} {fields : List Field}

theorem Keyword.answer_rows [Calendar] (hlayout : k.layout = .rows fields) :
    ∃ typed : List (Record Float fields) → Keyword Float, ∀ {r : DeckReader}
      {y : Except Cause (List (Record Float fields))}, Gives (fun _ => True)
        (ReadM.rows (Record.read "" fields) { r with keyword := some k.name }) y →
          Run.answer (Keyword.read k.name r) = (y.map typed).mapError (·, some k.name) := by
  -- The type of a body depends on the layout, so that the layout is taken for what it is first.
  have hbody : ∀ (layout : Layout) (typed : layout.Body Float → Keyword Float),
      layout = .rows fields → (∀ {r : DeckReader} {y : Except Cause (layout.Body Float)},
        Gives (fun _ => True) (layout.read { r with keyword := some k.name }) y →
          Run.answer (Keyword.read k.name r) = (y.map typed).mapError (·, some k.name)) →
      ∃ typed : List (Record Float fields) → Keyword Float, ∀ {r : DeckReader}
        {y : Except Cause (List (Record Float fields))}, Gives (fun _ => True)
          (ReadM.rows (Record.read "" fields) { r with keyword := some k.name }) y →
            Run.answer (Keyword.read k.name r) = (y.map typed).mapError (·, some k.name) := by
    intro layout typed h hanswer
    subst h
    exact ⟨typed, hanswer⟩
  exact hbody k.layout (.typed k) hlayout answer_read

theorem Keyword.answer_entries [Calendar] (hlayout : k.layout = .rows fields) :
    ∃ typed : List (Record Float fields) → Keyword Float, ∀ {r : DeckReader}
      {body : List (List String × Bool)}, (∀ row ∈ body, Item.FitsRow (Record.runs fields) row) →
        r.HasRows body → Run.answer (Keyword.read k.name r) =
          ((Record.ofRows fields (rowEntries body)).map typed).mapError (·, some k.name) := by
  obtain ⟨typed, hanswer⟩ := answer_rows hlayout
  refine ⟨typed, fun hbody ⟨m, hreads, hend⟩ => hanswer ?_⟩
  exact ReadM.rows_gives (k.isRow hlayout) hbody (hreads.inKeyword _) hend

end Keywords

end ReservoirDeck
