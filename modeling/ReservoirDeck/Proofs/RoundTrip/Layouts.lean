import ReservoirDeck.Keyword.Kind
import ReservoirDeck.Proofs.RoundTrip.Dates
import ReservoirDeck.Proofs.RoundTrip.Depth
import ReservoirDeck.Proofs.Text.Trimming

/-!
Bodies of keywords read back, layout by layout.
-/

namespace ReservoirDeck

namespace ReadM

theorem title_reads {s : String} (h : Text.IsLine s) :
    Reads ReadM.title (Text.bytes s ++ [Byte.newline]) s := by
  intro r rest hr _
  rw [List.append_assoc] at hr
  have hsome : r.cursor.atEnd = false := by simp [Cursor.atEnd, hr]
  have hline := skipLine_of_line (r := r)
    (fun hmem => by simpa using Text.ne_newline_of_mem_bytes h.line _ hmem) hr
  have hread : ReadM.line r = .ok s (r.forward ((Text.bytes s).length + 1)) := by
    rw [ReadM.line, Run.modifyGet_eq]
    simp only [Cursor.readLine, Text.line_of_bytes h.line hr, Text.trimReturns_bytes h.trimmed,
      Text.ofBytes_bytes]
    exact congrArg _ hline
  rw [ReadM.title, Run.bind_get_eq, hsome, if_neg Bool.false_ne_true, Run.bind_of_ok _ hread,
    h.trimmed, List.length_append]
  rfl

theorem startDate_reads [Calendar] {d : Date} (h : d.IsDay) :
    Reads ReadM.startDate (recordText d.tokens) d := by
  intro r rest hr _
  obtain ⟨w, t, q, vs, hws, hw, -, hx⟩ := Date.leads h
  rw [hws] at hr ⊢
  obtain ⟨x, y, hxy, hword, hvs, hsep⟩ := (spells_recordLine (w :: vs)).uncons
  have hr' : r.cursor.rest = x ++ (y ++ Byte.newline :: rest) := by
    rw [rest_recordText hr, hxy, List.append_assoc]
  obtain ⟨start, htoken⟩ := hw.token hword hr' (hsep.append (separated_cons.mpr rfl))
  have hrecord := record_reads hx hvs (DeckReader.rest_forward_length hr')
  rw [startDate, Run.bind_of_ok _ htoken, hrecord, DeckReader.forward_forward]
  simp [recordText, hxy]

theorem steps_reads {xs : List Float} (h : AllFinite xs) :
    Reads (readValues Float) (recordText (xs.map deckText)) xs := by
  intro r rest hr _
  rw [readValues_words h (spells_recordLine _) (rest_recordText hr), recordText, List.length_append]
  rfl

end ReadM

/-- The words of the field start with a number. -/
def Field.isNumeric : Field → Bool
  | .reals (slot :: _) _ => !slot.isUnused
  | .companions .. => true
  | _ => false

theorem Field.tokens_eq_cons {field : Field} (hfield : field.isNumeric = true)
    {v : field.Value Float} (hv : field.Sound v) (hreal : AllFinite (field.stored v)) :
    ∃ w ws, field.tokens v = w :: ws ∧ DataText w := by
  cases field with
  | reals slots incomplete =>
    cases v with
    | nil => cases hfield
    | @cons slot slots v vs =>
      obtain ⟨w, e, htokens, hw, -⟩ := RealSlot.entryWord (by simpa [isNumeric] using hfield) hv.1
        fun x hx => hreal x (by simp [stored, Row.collect, hx])
      exact ⟨w, vs.collect RealSlot.tokens, by simp [tokens, Row.collect, htokens], hw.dataText⟩
  | companions first what second =>
    exact ⟨_, _, rfl, (entryWord_deckText (hreal v.1 (by simp [stored]))).dataText⟩
  | _ => cases hfield

theorem Record.tokens_eq_cons {fields : List Field}
    (hfields : (fields.head?.map Field.isNumeric).getD false = true) {r : Record Float fields}
    (hr : r.Sound) (hreal : AllFinite r.stored) :
    ∃ w ws, r.tokens = w :: ws ∧ DataText w := by
  cases r with
  | nil => cases hfields
  | @cons field fields v vs =>
    obtain ⟨w, ws, htokens, hw⟩ := Field.tokens_eq_cons (v := v) (by simpa using hfields) hr.1
      fun x hx => hreal x (by simp [stored, Row.collect, hx])
    exact ⟨w, ws ++ vs.collect Field.tokens, by simp [tokens, Row.collect, htokens], hw⟩

namespace Layout

/-- The layout can be written: fields that leave slots over come last, rows start with a number, and
tables have columns. -/
def isWritable : Layout → Bool
  | .record fields => Record.isWritable fields
  | .named _ fields => Record.isWritable fields
  | .rows fields => Record.isWritable fields && (fields.head?.map Field.isNumeric).getD false
  | .table columns _ => columns != 0
  | .depth layout =>
    layout.kept.head? == some 0 && decide (layout.kept.Pairwise (· < ·)) &&
      layout.kept.all (· < layout.width)
  | _ => true

/-- What holds of every body that was read. -/
def Sound [Calendar] : (layout : Layout) → layout.Body Float → Prop
  | .record _, body => Record.Sound body
  | .named _ fields, body =>
    ∀ r ∈ (body : List (NamedRecord Float fields)), NameText r.1 ∧ Record.Sound r.2
  | .rows fields, body =>
    (body : List (Record Float fields)) ≠ [] ∧ ∀ r ∈ (body : List (Record Float fields)), Record.Sound r
  | .title, body => Text.IsLine body
  | .startDate, body => Date.IsDay body
  | .dates, body => ∀ d ∈ (body : List Date), Date.IsDay d
  | .steps, _ => True
  | .table columns _, body => RegionTable.Sound columns body
  | .pvt .., body => PvtTable.Sound body
  | .depth layout, body => EndpointTable.Sound layout body

theorem isOrdered_of_isWritable {layout : DepthLayout} (h : (Layout.depth layout).isWritable = true) :
    layout.IsOrdered := by
  simp only [isWritable, Bool.and_eq_true, beq_iff_eq, decide_eq_true_eq, List.all_eq_true] at h
  exact ⟨h.1.1, h.1.2, h.2⟩

/-- A body that can be written adds a text that is read as the body again. -/
theorem reads [Calendar] {layout : Layout} (hw : layout.isWritable = true) {body : layout.Body Float}
    (hbody : layout.Sound body) (hreal : AllFinite (layout.stored body)) :
    ∃ z, Adds (layout.write body) z ∧ Reads layout.read z body := by
  cases layout with
  | record fields =>
    exact ⟨_, .record _, ReadM.reads_record (Record.reads "" hw body hbody hreal)⟩
  | named leader fields =>
    refine ⟨_, (Adds.foldl fun r _ => .record (nameToken r.1 :: Record.tokens r.2)).comp .endList,
      ReadM.namedRecords_reads fun r hr => ?_⟩
    obtain ⟨hname, hrecord⟩ := hbody r hr
    obtain ⟨q, hword, -, hquote⟩ := hname.word
    exact ⟨_, r.1, q, _, rfl, hword, NameText.isTerminator hquote,
      (Record.reads r.1 hw r.2 hrecord fun x hx =>
        hreal x (List.mem_flatMap.mpr ⟨r, hr, hx⟩)).bind_pure (r.1, ·)⟩
  | rows fields =>
    rw [isWritable, Bool.and_eq_true] at hw
    refine ⟨_, .foldl fun r _ => .record (Record.tokens r), ReadM.rows_reads hbody.1 fun r hr => ?_⟩
    have hfinite : AllFinite (Record.stored r) := fun x hx =>
      hreal x (List.mem_flatMap.mpr ⟨r, hr, hx⟩)
    obtain ⟨w, ws, htokens, hdata⟩ := Record.tokens_eq_cons hw.2 (hbody.2 r hr) hfinite
    exact ⟨w, ws, htokens, hdata, Record.reads "" hw.1 r (hbody.2 r hr) hfinite⟩
  | title => exact ⟨_, .line body, ReadM.title_reads hbody⟩
  | startDate => exact ⟨_, .record _, ReadM.startDate_reads hbody⟩
  | dates =>
    exact ⟨_, (Adds.foldl fun d _ => .record (Date.tokens d)).comp .endList,
      ReadM.namedRecords_reads fun d hd => Date.leads (hbody d hd)⟩
  | steps => exact ⟨_, .record _, ReadM.steps_reads hreal⟩
  | table columns units =>
    have hcolumns : columns ≠ 0 := by simpa [isWritable] using hw
    exact ⟨_, .foldl fun rows _ => .tableRegion _, ReadM.regionTable_reads hcolumns hbody hreal⟩
  | pvt lead first second third =>
    refine ⟨_, .pvtTable fun rows hrows row hrow => ?_, ReadM.pvtTable_reads hbody hreal⟩
    rintro rfl
    exact absurd ((hbody.2 rows hrows).2 [] hrow).1 (by decide)
  | depth layout =>
    exact ⟨_, .foldl fun rows _ => .tableRegion _,
      ReadM.endpointTable_reads (isOrdered_of_isWritable hw) hbody hreal⟩

end Layout

end ReservoirDeck
