import ReservoirDeck.Keyword.Gregorian
import ReservoirDeck.Proofs.Rows.Slashes

/-!
Repetitions in rows. A row that is read in one run of slots takes a repetition for the numbers it
stands for. A row that is read field by field refuses it: no field has room for more than one number.
-/

namespace ReservoirDeck

open Item (expand)
open Run (Gives)

namespace Item

variable {u : String} {v : Float} {n : Nat} {vs a b : List String}

theorem number_of_value (h : ofText? u = some (.value v)) :
    (DeckNumber.ofText? u : Option Float) = some v := by
  unfold ofText? at h
  split at h
  · obtain ⟨x, hx, hv⟩ := Option.map_eq_some_iff.mp h
    cases hv
    exact hx
  · cases h
  · obtain ⟨k, -, hk⟩ := Option.map_eq_some_iff.mp h
    cases hk
  · obtain ⟨k, -, hk⟩ := Option.bind_eq_some_iff.mp h
    obtain ⟨x, -, hx⟩ := Option.bind_eq_some_iff.mp hk
    cases hx

theorem ofText?_of_splitStar {s : String} {count cs : List Char} {c : Char}
    (h : splitStar s = some (count, c :: cs)) : (ofText? s : Option (Item Float)) =
      (countOfChars? count).bind fun k =>
        (DeckNumber.ofText? (String.ofList (c :: cs))).map (.repeated k) := by
  unfold ofText?
  rw [h]
  cases count
  all_goals
    refine congrArg (Option.bind _) (funext fun k => ?_)
    cases (DeckNumber.ofText? (String.ofList (c :: cs)) : Option Float) <;> rfl

theorem ofText?_repeated (h : ofText? u = some (.value v)) (hpos : n ≠ 0) (hcount : n ≤ maxCount) :
    ofText? (toString n ++ "*" ++ u) = some (.repeated n v) := by
  have hlist : (toString n ++ "*" ++ u).toList = Nat.toDigits 10 n ++ '*' :: u.toList := by
    simp [String.toList_append]
  have hstar : '*' ∉ Nat.toDigits 10 n := fun hmem =>
    absurd (isNumberChar_toDigits n '*' hmem) (by decide)
  have hsplit := splitStar_eq_some.mpr ⟨hlist, hstar⟩
  have hnumber : countOfChars? (Nat.toDigits 10 n) = some n := by
    simp [countOfChars?, naturalOfChars?_toDigits, Option.filter, hcount, Nat.one_le_iff_ne_zero, hpos]
  obtain ⟨c, cs, hu⟩ : ∃ c cs, u.toList = c :: cs := by
    refine List.exists_cons_of_ne_nil fun hnil => ?_
    have hempty : (ofText? "" : Option (Item Float)) = none := by decide
    rw [String.toList_eq_nil_iff.mp hnil, hempty] at h
    cases h
  have hreal := number_of_value h
  rw [← String.ofList_toList (s := u), hu] at hreal
  rw [hu] at hsplit
  rw [ofText?_of_splitStar hsplit, hnumber, Option.bind_some, hreal, Option.map_some]

theorem ofTexts_append (a b : List String) : ofTexts (a ++ b) = ofTexts a ++ ofTexts b :=
  List.filterMap_append

theorem expand_ofTexts_values (h : ∀ w ∈ vs, ofText? w = some (.value v)) :
    expand (ofTexts vs) = List.replicate vs.length (some v) := by
  induction vs with
  | nil => rfl
  | cons w vs ih =>
    obtain ⟨hw, hvs⟩ := List.forall_mem_cons.mp h
    rw [ofTexts, List.filterMap_cons_some hw, expand_cons, List.length_cons, List.replicate_succ]
    exact congrArg (some v :: ·) (ih hvs)

theorem expand_ofTexts_repeated (h : ∀ w ∈ u :: vs, ofText? w = some (.value v)) (hne : vs ≠ [])
    (hcount : vs.length ≤ maxCount) :
    expand (ofTexts (a ++ (toString vs.length ++ "*" ++ u) :: b)) =
      expand (ofTexts (a ++ vs ++ b)) := by
  obtain ⟨hu, hvs⟩ := List.forall_mem_cons.mp h
  have hword := ofText?_repeated hu (List.length_pos_iff.mpr hne).ne' hcount
  have hrepeated : ofTexts ((toString vs.length ++ "*" ++ u) :: b) =
      .repeated vs.length v :: ofTexts b := List.filterMap_cons_some hword
  rw [ofTexts_append, ofTexts_append, ofTexts_append, hrepeated, List.append_assoc, expand_append,
    expand_append, expand_append, expand_cons, expand_ofTexts_values hvs]
  rfl

theorem Fits.of_run {items : List (Item Float)} (h : (expand items).length ≤ n) : Fits [n] items := by
  rcases Nat.lt_or_eq_of_le h with hshort | hfull
  · exact .short hshort
  · rw [← List.append_nil items]
    exact .full hfull .nil

end Item

/-- Keywords whose rows are read one number at a time. -/
def Kind.fieldwise : List Kind :=
  [.rock, .plymax, .tlmixpar]

/-- The rows of the others are read in one run. -/
theorem Kind.runs_rows {k : Kind} {fields : List Field} (h : k.layout = .rows fields) :
    k ∈ fieldwise ∧ Record.runs fields = [1, 1] ∨ k ∉ fieldwise ∧ ∃ n, Record.runs fields = [n] := by
  cases k
  all_goals cases h
  all_goals simp [fieldwise, Record.runs, Field.runs, Field.run, referenceRow, Field.requiredReal]

section Refused

variable {fields : List Field} {r r' m : DeckReader} {t : Token} {k n : Nat} {v : Float} {e : DeckError}
  {s s' : RecordReader} {leader : String}

theorem RecordM.optionalNumbers_of_long (htoken : r.token? = (some t, r'))
    (hitem : t.item? Float = some (.repeated k v)) (hn : n ≠ 0) (hlong : n < k) :
    optionalNumbers Float n ⟨r, .reading⟩ =
      .error (r'.error (.unreadable t.text)) ⟨r', .reading⟩ := by
  have hslots : List.replicate n (none : Option Float) ≠ [] := by simpa using hn
  rw [optionalNumbers_eq, fillNext, fillSlots_of_long_repeated hslots htoken
    (Token.isTerminator_of_real hitem) hitem (by simpa using hlong)]
  rfl

theorem Field.read_of_refused {field : Field} (hreal : field.IsReal)
    (hfirst : field.runs.head? = some n) (h : RecordM.optionalNumbers Float n s = .error e s') :
    field.read leader s = .error e s' := by
  cases field with
  | reals slots incomplete =>
    cases hfirst
    exact Run.bind_of_error _ h
  | companions first what second =>
    cases hfirst
    exact Run.bind_of_error _ (Run.bind_of_error _ h)
  | _ => exact hreal.elim

theorem Record.read_of_refused (hreal : ∀ field ∈ fields, field.IsReal)
    (hfirst : (runs fields).head? = some n) (h : RecordM.optionalNumbers Float n s = .error e s') :
    Record.read leader fields s = .error e s' := by
  cases fields with
  | nil => cases hfirst
  | cons field fields =>
    have hfield := hreal field List.mem_cons_self
    have hhead : field.runs.head? = some n := by
      cases field with
      | reals | companions => exact hfirst
      | _ => exact hfield.elim
    exact Run.bind_of_error _ (Field.read_of_refused hfield hhead h)

theorem ReadM.rowStep_of_refused (hreal : ∀ field ∈ fields, field.IsReal)
    (hfirst : (Record.runs fields).head? = some n) (hn : n ≠ 0) (htoken : r.token? = (some t, r'))
    (hitem : t.item? Float = some (.repeated k v)) (hlong : n < k) (done : List (Record Float fields)) :
    rowStep (Record.read "" fields) done r = .error (r'.error (.unreadable t.text)) r' := by
  have hhere : r.skipTrivia.token? = (some t, r') := r.token?_skipTrivia.symm ▸ htoken
  have hrefused : Record.read "" fields ⟨r.skipTrivia, .reading⟩ =
      .error (r'.error (.unreadable t.text)) ⟨r', .reading⟩ :=
    Record.read_of_refused hreal hfirst (RecordM.optionalNumbers_of_long hhere hitem hn hlong)
  have hrow : RecordM.run (do
      let values ← Record.read "" fields
      RecordM.finishRow
      return values) r.skipTrivia = .error (r'.error (.unreadable t.text)) r' := by
    rw [RecordM.run, Run.bind_of_error _ hrefused]
  unfold rowStep
  rw [bind_lookahead_eq, DeckReader.lookahead_of_item htoken hitem]
  exact Run.bind_of_error _ hrow

theorem ReadM.rows_of_refused (hfields : Record.IsRow fields)
    {body : List (List String × Bool)} (hbody : ∀ row ∈ body, Item.FitsRow (Record.runs fields) row)
    (h : r.ReadsRows body m) {values : List (Record Float fields)}
    (hread : (rowEntries body).mapM (Record.ofRow fields) = .ok values)
    (hrefused : ∀ done, rowStep (Record.read "" fields) done m = .error e r') :
    Gives (fun _ => True) (rows (Record.read "" fields) r) (.error e.cause) := by
  have hloop : Gives (fun _ => True) (iterate (rowStep (Record.read "" fields)) [] r)
      ((rowEntries body).mapM (Record.ofRow fields) >>= fun _ =>
        (.error e.cause : Except Cause (List (Record Float fields)))) := by
    refine iterate_rows_gives hfields hbody h fun values => ?_
    rw [iterate_of_error (hrefused _)]
    exact .error e r'
  rw [hread] at hloop
  exact hloop.bind_error _

end Refused

/-- Rows that all end with a slash. -/
def slashed (rows : List (List String)) : List (List String × Bool) :=
  rows.map (·, true)

theorem Record.front_of_ofRows {fields : List Field} {front behind : List (List (Option Float))}
    {values : List (Record Float fields)} (h : ofRows fields (front ++ behind) = .ok values) :
    ∃ us, front.mapM (ofRow fields) = .ok us := by
  unfold ofRows at h
  rw [List.mapM_append, bind_assoc] at h
  cases hfront : front.mapM (ofRow fields) with
  | ok us => exact ⟨us, rfl⟩
  | error cause =>
    rw [hfront] at h
    cases h

section Rows

variable {k : Kind} {fields : List Field} {front behind : List (List String)} {a vs b : List String}
  {u : String} {v : Float} {r r' m m' : DeckReader}

theorem rowEntries_repeated (hvalue : ∀ w ∈ u :: vs, Item.ofText? w = some (.value v)) (hne : vs ≠ [])
    (hcount : vs.length ≤ maxCount) :
    rowEntries (slashed (front ++ (a ++ (toString vs.length ++ "*" ++ u) :: b) :: behind)) =
      rowEntries (slashed (front ++ (a ++ vs ++ b) :: behind)) := by
  simp only [rowEntries, slashed, List.map_map, List.map_append, List.map_cons, Function.comp_def,
    Item.expand_ofTexts_repeated hvalue hne hcount]

/-- A row with a repetition can be read unless it is read field by field. -/
theorem Item.FitsRow.of_repeated (hlayout : k.layout = .rows fields)
    (hlen : (a ++ vs ++ b).length ≤ (Record.runs fields).sum)
    (hsingle : ∀ w ∈ a ++ vs ++ b, Item.IsSingle w)
    (hvalue : ∀ w ∈ u :: vs, Item.ofText? w = some (.value v)) (hne : vs ≠ [])
    (hcount : vs.length ≤ maxCount) (htaken : vs.length = 1 ∨ k ∉ Kind.fieldwise) :
    FitsRow (Record.runs fields) (a ++ (toString vs.length ++ "*" ++ u) :: b, true) := by
  have hword := ofText?_repeated (hvalue u List.mem_cons_self) (List.length_pos_iff.mpr hne).ne' hcount
  have hrow : ∀ w ∈ a ++ (toString vs.length ++ "*" ++ u) :: b,
      ofText? w = some (.repeated vs.length v) ∨ IsSingle w := by
    intro w hw
    rcases List.mem_append.mp hw with ha | hb
    · exact .inr (hsingle w (by simp [ha]))
    · rcases List.mem_cons.mp hb with rfl | hb
      · exact .inl hword
      · exact .inr (hsingle w (by simp [hb]))
  by_cases hone : vs.length = 1
  · have hlength := (length_entries_repeated vs.length v).trans hone
    refine .of_single (fun w hw => (hrow w hw).elim (fun h => ⟨_, h, hlength⟩) id) ?_ (.inl rfl)
    · simp only [List.length_append, List.length_cons] at hlen ⊢
      omega
  obtain ⟨-, n, hruns⟩ := (k.runs_rows hlayout).resolve_left fun h => htaken.elim hone (· h.1)
  refine ⟨fun w hw => ?_, ?_, .inl rfl⟩
  · obtain h | ⟨i, h, -⟩ := hrow w hw
    all_goals exact Option.isSome_iff_exists.mpr ⟨_, h⟩
  · have hcount : (expand (ofTexts (a ++ (toString vs.length ++ "*" ++ u) :: b))).length ≤ n := by
      rw [expand_ofTexts_repeated hvalue hne hcount,
        length_expand_of_single (length_of_mem_ofTexts hsingle), length_ofTexts hsingle]
      simpa [hruns] using hlen
    rw [hruns]
    exact .of_run hcount

/-- A row that is read field by field starts with the repetition if there is room for its numbers. -/
theorem ReadM.rowStep_repeated {word : String} {n : Nat} (hlayout : k.layout = .rows fields)
    (hkind : k ∈ Kind.fieldwise) (hword : Item.ofText? word = some (.repeated n v)) (hn : 1 < n)
    (hlen : a.length + n ≤ (Record.runs fields).sum) (h : r.ReadsWords (a ++ word :: b) m) :
    ∃ r', ∀ done, rowStep (Record.read "" fields) done r =
      .error (r'.error (.unreadable word)) r' := by
  have hreal := (k.isRow hlayout).real
  obtain ⟨-, hruns⟩ := (k.runs_rows hlayout).resolve_right fun h => h.1 hkind
  have hsum : (Record.runs fields).sum = 2 := by rw [hruns]; rfl
  obtain rfl : a = [] := List.length_eq_zero_iff.mp (by omega)
  cases h with
  | @cons _ r' _ t _ _ htoken hbare htext _ =>
    subst htext
    have hitem : t.item? Float = some (.repeated n v) := by simpa [Token.item?, hbare] using hword
    exact ⟨r', rowStep_of_refused hreal (by rw [hruns]; rfl) one_ne_zero htoken hitem hn⟩

end Rows

namespace Keyword

variable {k : Kind} {fields : List Field} {front behind : List (List String)} {a vs b : List String}
  {u : String} {v : Float} {r r' : DeckReader} {kw : Keyword Float}

/-- A body in which a row that is read field by field has a repetition is refused for it. -/
theorem answer_of_refused [Calendar] {word : String} {n : Nat} (hlayout : k.layout = .rows fields)
    (hkind : k ∈ Kind.fieldwise) (hword : Item.ofText? word = some (.repeated n v)) (hn : 1 < n)
    (hlen : a.length + n ≤ (Record.runs fields).sum)
    (hfits : ∀ row ∈ slashed front, Item.FitsRow (Record.runs fields) row)
    {values : List (Record Float fields)}
    (hread : (rowEntries (slashed front)).mapM (Record.ofRow fields) = .ok values)
    (h : r.HasRows (slashed (front ++ (a ++ word :: b) :: behind))) :
    Run.answer (Keyword.read k.name r) = .error (.unreadable word, some k.name) := by
  obtain ⟨typed, hanswer⟩ := answer_rows hlayout
  obtain ⟨m, h, -⟩ := h
  rw [slashed, List.map_append] at h
  obtain ⟨p, hreads, hback⟩ := h.split
  cases hback with
  | cons hwords _ _ =>
    obtain ⟨place, hrefused⟩ := ReadM.rowStep_repeated hlayout hkind hword hn hlen
      (hwords.inKeyword (some k.name))
    rw [hanswer (ReadM.rows_of_refused (k.isRow hlayout) hfits (hreads.inKeyword _) hread hrefused)]
    rfl

/-- A body with a repetition in one of its rows, instead of the numbers that it stands for, is read as
the same keyword. Only a row that is read field by field refuses it. -/
theorem read_rows_repeated [Calendar] (hlayout : k.layout = .rows fields)
    (hsingle : ∀ row ∈ front ++ (a ++ vs ++ b) :: behind,
      row.length ≤ (Record.runs fields).sum ∧ ∀ w ∈ row, Item.IsSingle w)
    (hvalue : ∀ w ∈ u :: vs, Item.ofText? w = some (.value v)) (hne : vs ≠ [])
    (hcount : vs.length ≤ maxCount)
    (h : r.HasRows (slashed (front ++ (a ++ vs ++ b) :: behind)))
    (hlong : Run.answer (Keyword.read k.name r) = .ok kw)
    (h' : r'.HasRows (slashed (front ++ (a ++ (toString vs.length ++ "*" ++ u) :: b) :: behind))) :
    Run.answer (Keyword.read k.name r') = if vs.length = 1 ∨ k ∉ Kind.fieldwise then .ok kw
      else .error (.unreadable (toString vs.length ++ "*" ++ u), some k.name) := by
  have hfits : ∀ row ∈ front ++ (a ++ vs ++ b) :: behind,
      Item.FitsRow (Record.runs fields) (row, true) :=
    fun row hrow => .of_single (hsingle row hrow).2 (hsingle row hrow).1 (.inl rfl)
  obtain ⟨typed, hentries⟩ := answer_entries hlayout
  rw [hentries (by simpa [slashed] using hfits) h] at hlong
  obtain ⟨hlen, hwords⟩ := hsingle (a ++ vs ++ b) (by simp)
  split
  · next htaken =>
    have hrow := Item.FitsRow.of_repeated hlayout hlen hwords hvalue hne hcount htaken
    have hrows : ∀ row ∈ slashed (front ++ (a ++ (toString vs.length ++ "*" ++ u) :: b) :: behind),
        Item.FitsRow (Record.runs fields) row := by
      unfold slashed
      rw [List.forall_mem_map, List.forall_mem_append, List.forall_mem_cons] at *
      exact ⟨hfits.1, hrow, hfits.2.2⟩
    rw [hentries hrows h', rowEntries_repeated hvalue hne hcount, hlong]
  · next hrefused =>
    obtain ⟨hmany, hkind⟩ : vs.length ≠ 1 ∧ k ∈ Kind.fieldwise := by simpa using hrefused
    have hpos := List.length_pos_iff.mpr hne
    have hword := Item.ofText?_repeated (hvalue u List.mem_cons_self) hpos.ne' hcount
    have hroom : a.length + vs.length ≤ (Record.runs fields).sum := by
      simp only [List.length_append] at hlen
      omega
    have hfront : ∀ row ∈ slashed front, Item.FitsRow (Record.runs fields) row := by
      rw [slashed, List.forall_mem_map]
      exact fun row hrow => hfits row (List.mem_append_left _ hrow)
    -- The rows in front are read, since they were read with the numbers written out.
    obtain ⟨values, hread⟩ : ∃ values,
        (rowEntries (slashed front)).mapM (Record.ofRow fields) = .ok values := by
      simp only [slashed, rowEntries, List.map_append] at hlong
      cases hread : Record.ofRows fields _ with
      | error cause =>
        rw [hread] at hlong
        cases hlong
      | ok values => exact Record.front_of_ofRows hread
    exact answer_of_refused hlayout hkind hword (by omega) hroom hfront hread h'

/-- Two densities that are equal, behind a row without repetitions. -/
theorem read_rows_repeated_density :
    ∃ kw, Run.answer (Keyword.read Kind.density.name (.ofString "1* 2 /\n800 1 1 / x\n")) = .ok kw ∧
      Run.answer (Keyword.read Kind.density.name (.ofString "1* 2 /\n800 2*1 /\n")) = .ok kw := by
  have hok : (Run.answer (Keyword.read Kind.density.name
      (.ofString "1* 2 /\n800 1 1 / x\n"))).isOk = true := by decide +kernel
  obtain ⟨kw, q, hread⟩ := Run.exists_of_isOk hok
  have hlong := congrArg Run.answer hread
  refine ⟨kw, hlong, ?_⟩
  have hmarker : Item.IsSingle "1*" := ⟨.defaults 1, rfl, rfl⟩
  have htwo : Item.IsSingle "2" := ⟨.value 2, rfl, rfl⟩
  have hfirst : Item.IsSingle "800" := ⟨.value 800, rfl, rfl⟩
  have hnumber : Item.ofText? "1" = some (.value (1 : Float)) := rfl
  have hone : Item.IsSingle "1" := ⟨_, hnumber, rfl⟩
  have hsingle : ∀ row ∈ [["1*", "2"]] ++ (["800"] ++ ["1", "1"] ++ []) :: [],
      row.length ≤ (Record.runs Kind.density.layout.fields).sum ∧ ∀ w ∈ row, Item.IsSingle w := by
    simp [hmarker, htwo, hfirst, hone, Kind.layout, Layout.fields, Record.runs, Field.runs, Field.run]
  have hvalue : ∀ w ∈ "1" :: ["1", "1"], Item.ofText? w = some (.value (1 : Float)) := by
    simp [hnumber]
  have h : (DeckReader.ofString "1* 2 /\n800 1 1 / x\n").HasRows
      (slashed [["1*", "2"], ["800", "1", "1"]]) :=
    ⟨_, .cons (.cons rfl rfl rfl (.cons rfl rfl rfl (.nil _))) rfl (.cons
      (.cons rfl rfl rfl (.cons rfl rfl rfl (.cons rfl rfl rfl (.nil _)))) rfl (.nil _)), .inr rfl⟩
  have h' : (DeckReader.ofString "1* 2 /\n800 2*1 /\n").HasRows
      (slashed [["1*", "2"], ["800", "2*1"]]) :=
    ⟨_, .cons (.cons rfl rfl rfl (.cons rfl rfl rfl (.nil _))) rfl (.cons
      (.cons rfl rfl rfl (.cons rfl rfl rfl (.nil _))) rfl (.nil _)), .inr rfl⟩
  exact read_rows_repeated (k := .density) rfl hsingle hvalue (by simp) (by decide) h hlong h'

/-- The same number twice, instead of two equal numbers, where a row is read field by field. -/
theorem read_rows_repeated_rock :
    (Run.answer (Keyword.read Kind.rock.name (.ofString "1 1 /\n"))).isOk = true ∧
      Run.answer (Keyword.read Kind.rock.name (.ofString "2*1 /\n")) =
        .error (.unreadable "2*1", some Kind.rock.name) := by
  constructor
  · decide +kernel
  have h : (DeckReader.ofString "2*1 /\n").HasRows (slashed ([] ++ ([] ++ "2*1" :: []) :: [])) := by
    change DeckReader.HasRows _ (slashed [["2*1"]])
    exact ⟨_, .cons (.cons rfl rfl rfl (.nil _)) rfl (.nil _), .inr rfl⟩
  have hword : Item.ofText? "2*1" = some (.repeated 2 (1 : Float)) := rfl
  exact answer_of_refused (k := .rock) rfl (by decide) hword (by decide) (by decide) (by simp [slashed])
    rfl h

end Keyword

end ReservoirDeck
