import ReservoirDeck.Keyword.Gregorian
import ReservoirDeck.Proofs.Reading.Keywords
import ReservoirDeck.Proofs.Record.Extent

/-!
Quotes that are left open. A body is refused for one exactly where a field reads a name and comes upon
it. The name that leads a record is taken as it stands, quoted or not.
-/

namespace ReservoirDeck

namespace Run

variable {σ α β : Type} {cause : Cause} {x : EStateM DeckError σ α} {f : α → EStateM DeckError σ β}

/-- Why a run failed, if it did. -/
def cause? : EStateM.Result DeckError σ α → Option Cause
  | .ok _ _ => none
  | .error e _ => some e.cause

/-- The action fails for this cause from these states and from no others. -/
def FailsAt (cause : Cause) (x : EStateM DeckError σ α) (At : σ → Prop) : Prop :=
  ∀ s, cause? (x s) = some cause ↔ At s

/-- The action does not fail for this cause. -/
def Never (cause : Cause) (x : EStateM DeckError σ α) : Prop :=
  ∀ s, cause? (x s) ≠ some cause

theorem Never.pure (a : α) : Never cause (pure a : EStateM DeckError σ α) :=
  fun _ h => by cases h

theorem Never.modify (f : σ → σ) : Never cause (modify f : EStateM DeckError σ PUnit) :=
  fun _ h => by cases h

theorem Never.get_bind {f : σ → EStateM DeckError σ α} (hf : ∀ s, Never cause (f s)) :
    Never cause (get >>= f) :=
  fun s => hf s s

theorem FailsAt.of_iff {At At' : σ → Prop} (hx : FailsAt cause x At) (h : ∀ s, At s ↔ At' s) :
    FailsAt cause x At' :=
  fun s => (hx s).trans (h s)

theorem FailsAt.bind {At : σ → Prop} {Next : α → σ → Prop} (hx : FailsAt cause x At)
    (hf : ∀ a, FailsAt cause (f a) (Next a)) :
    FailsAt cause (x >>= f) fun s => At s ∨ ∃ a s', x s = .ok a s' ∧ Next a s' := by
  intro s
  have hs := hx s
  change cause? ((x >>= f) s) = some cause ↔ At s ∨ ∃ a s', x s = .ok a s' ∧ Next a s'
  cases hrun : x s with
  | ok a s' =>
    rw [hrun] at hs
    have hno : ¬ At s := fun h => by cases hs.mpr h
    rw [bind_of_ok _ hrun, hf a s', or_iff_right hno]
    constructor
    · exact fun hnext => ⟨a, s', rfl, hnext⟩
    · rintro ⟨a', s'', hsame, hnext⟩
      cases hsame
      exact hnext
  | error e s' =>
    rw [hrun] at hs
    rw [bind_of_error _ hrun, ← hs]
    simp [cause?]

theorem Never.failsAt (hx : Never cause x) : FailsAt cause x fun _ => False :=
  fun s => iff_false_intro (hx s)

theorem FailsAt.bind_never {At : σ → Prop} (hx : FailsAt cause x At)
    (hf : ∀ a, Never cause (f a)) : FailsAt cause (x >>= f) At :=
  (hx.bind fun a => (hf a).failsAt).of_iff fun s => by simp

theorem Never.bind_failsAt {Next : α → σ → Prop} (hx : Never cause x)
    (hf : ∀ a, FailsAt cause (f a) (Next a)) :
    FailsAt cause (x >>= f) fun s => ∃ a s', x s = .ok a s' ∧ Next a s' :=
  (hx.failsAt.bind hf).of_iff fun _ => iff_of_eq (false_or _)

theorem Never.bind (hx : Never cause x) (hf : ∀ a, Never cause (f a)) : Never cause (x >>= f) :=
  fun s h => (hx.failsAt.bind_never hf s).mp h

theorem Never.map (hx : Never cause x) (g : α → β) : Never cause (g <$> x) := by
  rw [map_eq_pure_bind]
  exact hx.bind fun a => .pure (g a)

end Run

open Run (FailsAt Never cause?)

namespace RecordM

variable {α : Type} {defect : Defect}

theorem fail_never {cause cause' : Cause} (h : cause ≠ cause') :
    Never cause' (fail cause : RecordM α) :=
  fun _ hcause => h (Option.some.inj hcause)

theorem ofRead_never {x : ReadM α} {cause : Cause} (hx : Never cause x) : Never cause (ofRead x) := by
  intro s
  have hs := hx s.reader
  unfold ofRead
  cases hrun : x s.reader with
  | ok a r => exact fun h => by cases h
  | error e r =>
    rw [hrun] at hs
    exact hs

section Numbers

variable {τ σ : Type} [DeckNumber τ] (mark : τ → σ)

theorem fillSlots_failed {slots : List σ} {r : DeckReader} {e : DeckError}
    (h : (fillSlots mark slots r).1.stop = .failed e) : e.cause ≠ .malformed defect := by
  fun_induction fillSlots mark slots r with
  | case1 => cases h
  | case2 => cases h; exact Cause.noConfusion
  | case3 => cases h
  | case4 _ _ _ _ _ _ _ _ _ _ run _ hrun ih => exact ih (by rw [hrun]; exact h)
  | case5 => cases h
  | case6 _ _ _ _ _ _ _ _ _ _ _ run _ hrun ih => exact ih (by rw [hrun]; exact h)
  | case7 => cases h; exact Cause.noConfusion
  | case8 _ _ _ _ _ _ _ _ _ _ _ _ run _ hrun ih => exact ih (by rw [hrun]; exact h)
  | case9 => cases h; exact Cause.noConfusion

theorem fillNext_never (slots : List σ) : Never (.malformed defect) (fillNext mark slots) := by
  intro s
  change cause? (ofSlotRun (fillSlots mark slots s.reader).1 (fillSlots mark slots s.reader).2) ≠ _
  unfold ofSlotRun
  cases hstop : (fillSlots mark slots s.reader).1.stop with
  | failed e => exact fun h => fillSlots_failed mark hstop (Option.some.inj h)
  | _ => exact fun h => by cases h

theorem pay_never (slots : List σ) (value : Option String) :
    Never (.malformed defect) (pay mark slots value) := by
  unfold pay
  split
  · exact .pure _
  · split
    · exact .pure _
    · split
      · exact .pure _
      · exact fail_never Cause.noConfusion

theorem numbers_never (slots : List σ) : Never (.malformed defect) (numbers mark slots) := by
  rw [numbers_eq]
  refine .get_bind fun s => ?_
  split
  · exact .pure _
  · exact fillNext_never mark slots
  · refine (pay_never mark _ _).bind fun front => (Never.modify _).bind fun _ => ?_
    split
    · exact .pure _
    · exact (fillNext_never mark _).bind fun _ => .pure _

theorem number_never (default : τ) : Never (.malformed defect) (number default) :=
  (numbers_never some _).bind fun _ => .pure _

theorem requiredNumber_never {text : String} (what : String) :
    Never (.malformed (.openQuote text)) (requiredNumber τ what) := by
  refine (numbers_never some _).bind fun entries => ?_
  dsimp only
  split
  · exact .pure _
  · exact fail_never (by simp)

end Numbers

theorem skipNext_never (n : Nat) : Never (.malformed defect) (skipNext n) := by
  intro r
  fun_induction skipNext n r <;> simp_all [cause?, DeckReader.error]

theorem skipToTerminator_never : Never (.malformed defect) skipToTerminator := by
  intro r
  fun_induction skipToTerminator r <;> simp_all [cause?, DeckReader.error]

theorem skip_never (n : Nat) : Never (.malformed defect) (skip n) := by
  refine .get_bind fun s => ?_
  split
  · exact .pure _
  · exact (ofRead_never (skipNext_never n)).bind fun _ => (Never.modify _).bind fun _ => .pure _
  · refine (Never.modify _).bind fun _ => ?_
    split
    · exact .pure _
    · exact (ofRead_never (skipNext_never _)).bind fun _ => (Never.modify _).bind fun _ => .pure _

theorem finish_never : Never (.malformed defect) finish := by
  refine .get_bind fun s => ?_
  split
  · exact .pure _
  · exact ofRead_never skipToTerminator_never

end RecordM

/-- A field that is read here comes upon a quote with this text that is not closed on its line. -/
def RecordReader.AtOpenQuote (text : String) (s : RecordReader) : Prop :=
  s.standing = .reading ∧
    ∃ t r, s.reader.token? = (some t, r) ∧ t.quoting = .unterminated ∧ t.text = text

/-- Whether a token is an open quote with this text decides what it is read as. -/
theorem RecordReader.atOpenQuote_iff {text : String} {r r' : DeckReader} {t : Token}
    (h : r.token? = (some t, r')) :
    RecordReader.AtOpenQuote text ⟨r, .reading⟩ ↔ t.quoting = .unterminated ∧ t.text = text := by
  simp [AtOpenQuote, h]

namespace RecordM

variable {text : String}

theorem name_owing (default : String) (r : DeckReader) (count : Nat) (value : Option String) :
    name default ⟨r, .owing count value⟩ =
      .ok (value.elim (.missing default) .given) ⟨r, .owe (count - 1) value⟩ := rfl

/-- A field that is a name fails so. Owed fields are no tokens, and a marker is not quoted. -/
theorem name_failsAt (default : String) :
    FailsAt (.malformed (.openQuote text)) (name default) (RecordReader.AtOpenQuote text) := by
  rintro ⟨r, standing⟩
  cases standing with
  | ended => simp [name, cause?, RecordReader.AtOpenQuote]
  | owing count value =>
    rw [name_owing]
    simp [cause?, RecordReader.AtOpenQuote]
  | reading =>
    rcases htoken : r.token? with ⟨_ | t, r'⟩
    · rw [name_none default htoken]
      simp [cause?, DeckReader.error, RecordReader.AtOpenQuote, htoken]
    rw [RecordReader.atOpenQuote_iff htoken]
    cases ht : t.isTerminator with
    | true =>
      have hbare : t.quoting = .bare := by
        simp only [Token.isTerminator, Bool.and_eq_true, beq_iff_eq] at ht
        exact ht.1
      rw [name_terminator default htoken ht, hbare]
      simp [cause?]
    | false =>
      rw [name_item default htoken ht]
      cases hquoting : t.quoting with
      | unterminated => simp [cause?, DeckReader.error]
      | quoted => simp [cause?]
      | bare => cases defaultCount? t.text <;> simp [name_owing, cause?]

theorem requiredName_failsAt (what : String) :
    FailsAt (.malformed (.openQuote text)) (requiredName what) (RecordReader.AtOpenQuote text) := by
  refine (name_failsAt "").bind_never fun given => ?_
  cases given with
  | given s => exact .pure s
  | missing s => exact fail_never (by simp)

end RecordM

namespace Field

def IsName : Field → Prop
  | .name .. | .requiredName .. | .answer _ => True
  | _ => False

/-- What is wrong with a run of numbers is not an open quote. -/
def HasOwnDefect (text : String) : Field → Prop
  | .reals _ incomplete => incomplete ≠ .openQuote text
  | .ints _ incomplete => ∀ leader, incomplete leader ≠ .openQuote text
  | _ => True

variable {text leader : String}

theorem read_never {field : Field} (hname : ¬ field.IsName) (h : field.HasOwnDefect text) :
    Never (.malformed (.openQuote text)) (field.read leader) := by
  cases field with
  | name label default => exact absurd trivial hname
  | requiredName label what => exact absurd trivial hname
  | answer label => exact absurd trivial hname
  | reals slots incomplete =>
    refine (RecordM.numbers_never _ _).bind fun entries => ?_
    dsimp only
    split
    · exact .pure _
    · exact RecordM.fail_never fun heq => h (Cause.malformed.inj heq)
  | ints slots incomplete =>
    refine (RecordM.numbers_never _ _).bind fun entries => ?_
    dsimp only
    split
    · exact .pure _
    · exact RecordM.fail_never fun heq => h leader (Cause.malformed.inj heq)
  | companions first what second =>
    exact (RecordM.requiredNumber_never what).bind fun x =>
      (RecordM.number_never (-1)).bind fun y => .pure _
  | skipped count => exact (RecordM.skip_never count).map _

/-- A field fails on an open quote exactly if it is a name and comes upon one. -/
theorem read_failsAt {field : Field} (h : field.HasOwnDefect text) :
    FailsAt (.malformed (.openQuote text)) (field.read leader)
      fun s => field.IsName ∧ s.AtOpenQuote text := by
  intro s
  change cause? (field.read leader s) = _ ↔ field.IsName ∧ s.AtOpenQuote text
  by_cases hname : field.IsName
  · rw [and_iff_right hname]
    cases field with
    | name label default => exact RecordM.name_failsAt default s
    | requiredName label what => exact RecordM.requiredName_failsAt what s
    | answer label => exact (RecordM.name_failsAt "NO").bind_never (fun answer => .pure _) s
    | _ => exact hname.elim
  · exact iff_of_false (read_never hname h s) fun hat => hname hat.1

end Field

/-- A record of these fields, read from here, comes upon an open quote where it reads a name. -/
def Record.MeetsOpenQuote (text leader : String) : List Field → RecordReader → Prop
  | [], _ => False
  | field :: fields, s =>
    (field.IsName ∧ s.AtOpenQuote text) ∨
      ∃ value s', field.read leader s = .ok value s' ∧ MeetsOpenQuote text leader fields s'

theorem Record.read_failsAt {text leader : String} {fields : List Field}
    (h : ∀ field ∈ fields, field.HasOwnDefect text) :
    FailsAt (.malformed (.openQuote text)) (Record.read leader fields)
      (Record.MeetsOpenQuote text leader fields) := by
  induction fields with
  | nil => exact (Never.pure _).failsAt
  | cons field fields ih =>
    obtain ⟨hfield, hfields⟩ := List.forall_mem_cons.mp h
    exact (Field.read_failsAt hfield).bind fun value => (ih hfields).bind_never fun values => .pure _

theorem Date.read_failsAt [Calendar] {text : String} (day : String) :
    FailsAt (.malformed (.openQuote text)) (Date.read day) (RecordReader.AtOpenQuote text) := by
  refine (RecordM.requiredName_failsAt "month").bind_never fun month =>
    (RecordM.requiredNumber_never "year").bind fun year => ?_
  dsimp only
  split
  · exact .pure _
  · exact RecordM.fail_never (by simp)

namespace ReadM

variable {α σ : Type} {cause : Cause}

/-- A loop comes to such a place: in the round that starts here, or in a later one. -/
inductive Comes (step : σ → ReadM (σ ⊕ α)) (At : DeckReader → Prop) : σ → DeckReader → Prop
  | here {s : σ} {r : DeckReader} (hat : At r) : Comes step At s r
  | later {s s' : σ} {r r' : DeckReader} (hround : step s r = .ok (.inl s') r')
    (hrest : Comes step At s' r') : Comes step At s r

theorem iterate_failsAt {step : σ → ReadM (σ ⊕ α)} {At : DeckReader → Prop}
    (hmoves : ∀ s, RoundProgresses (step s)) (hstep : ∀ s, FailsAt cause (step s) At) (s : σ) :
    FailsAt cause (iterate step s) (Comes step At s) := by
  intro r
  obtain ⟨n, -, hrounds⟩ := iterate_ends hmoves s r
  generalize iterate step s r = result at hrounds ⊢
  induction hrounds with
  | @done s r r' a hround =>
    have hnot : ¬ At r := by
      rw [← hstep s r, hround]
      exact fun h => by cases h
    refine iff_of_false (fun h => by cases h) fun hcomes => ?_
    cases hcomes with
    | here hat => exact hnot hat
    | later hround' => cases hround.symm.trans hround'
  | @failed s r r' e hround =>
    have hat := hstep s r
    rw [hround] at hat
    refine Iff.trans hat ⟨.here, fun hcomes => ?_⟩
    cases hcomes with
    | here hat => exact hat
    | later hround' => cases hround.symm.trans hround'
  | @next n s s' r r' result hround _ ih =>
    have hnot : ¬ At r := by
      rw [← hstep s r, hround]
      exact fun h => by cases h
    rw [ih]
    constructor
    · exact .later hround
    · intro hcomes
      cases hcomes with
      | here hat => exact absurd hat hnot
      | later hround' hrest =>
        cases hround.symm.trans hround'
        exact hrest

theorem run_failsAt {x : RecordM α} {At : RecordReader → Prop} (hx : FailsAt cause x At) :
    FailsAt cause x.run fun r => At ⟨r, .reading⟩ := by
  intro r
  have hr := hx ⟨r, .reading⟩
  unfold RecordM.run
  cases hrun : x ⟨r, .reading⟩ <;> rwa [hrun] at hr

theorem token_never {defect : Defect} : Never (.malformed defect) token := by
  intro r
  rcases htoken : r.token? with ⟨_ | t, r'⟩
  · rw [token_of_none htoken]
    simp [cause?, DeckReader.error]
  · rw [token_of_some htoken]
    simp [cause?]

/-- A name comes next that leads a record, and what follows it is such a place. -/
def LeadsTo (At : String → RecordReader → Prop) (r : DeckReader) : Prop :=
  ∃ t r', r.token? = (some t, r') ∧ t.isTerminator = false ∧ At t.text ⟨r', .reading⟩

theorem namedStep_failsAt {fields : String → RecordM α} {At : String → RecordReader → Prop}
    {defect : Defect} (h : ∀ leader, FailsAt (.malformed defect) (fields leader) (At leader))
    (records : List α) : FailsAt (.malformed defect) (namedStep fields records) (LeadsTo At) := by
  have hstep : ∀ t : Token, FailsAt (.malformed defect)
      (if t.isTerminator then do skipLine; return .inr records
        else do return .inl (records ++ [← record (fields t.text)]) : ReadM (List α ⊕ List α))
      fun r => t.isTerminator = false ∧ At t.text ⟨r, .reading⟩ := by
    intro t
    cases t.isTerminator with
    | true => exact ((Never.modify _).bind fun _ => .pure _).failsAt.of_iff (by simp)
    | false =>
      have hrecord := (h t.text).bind_never fun a => RecordM.finish_never.bind fun _ => .pure a
      exact ((run_failsAt hrecord).bind_never fun a => .pure _).of_iff (by simp)
  refine (token_never.bind_failsAt hstep).of_iff fun r => ?_
  refine exists_congr fun t => exists_congr fun r' => and_congr_left fun _ => ?_
  exact ⟨token?_of_token, token_of_some⟩

/-- A list of records comes upon an open quote in one of its records, once those before it are read. -/
theorem namedRecords_failsAt {fields : String → RecordM α} {At : String → RecordReader → Prop}
    {defect : Defect} (hcalls : ∀ leader, (fields leader).FieldCalls)
    (h : ∀ leader, FailsAt (.malformed defect) (fields leader) (At leader)) :
    FailsAt (.malformed defect) (namedRecords fields) (Comes (namedStep fields) (LeadsTo At) []) :=
  iterate_failsAt (namedStep_progresses hcalls) (namedStep_failsAt h) []

end ReadM

/-- No field takes an open quote for what is wrong with its numbers. -/
theorem Kind.hasOwnDefect (k : Kind) (text : String) :
    ∀ field ∈ k.layout.fields, field.HasOwnDefect text := by
  cases k <;> simp [layout, Layout.fields, Field.HasOwnDefect, Field.run, Field.real, Field.int,
    Field.requiredReal, specgridFields, scalecrsFields, referenceRow, wgrupconFields, gruptreeFields]

/-- A body that is a list of records comes upon an open quote with this text where a field of a record
reads a name. The name that leads the record is none of its fields; the month of a date is one. -/
def Layout.MeetsOpenQuote [Calendar] (text : String) : Layout → DeckReader → Prop
  | .named _ fields => ReadM.Comes
      (ReadM.namedStep fun leader => do return (leader, ← Record.read leader fields))
      (ReadM.LeadsTo fun leader => Record.MeetsOpenQuote text leader fields) []
  | .dates => ReadM.Comes (ReadM.namedStep Date.read)
      (ReadM.LeadsTo fun _ => RecordReader.AtOpenQuote text) []
  | _ => fun _ => False

theorem Layout.read_failsAt [Calendar] {k : Kind} (hlist : k.layout.IsRecordList) (text : String) :
    FailsAt (.malformed (.openQuote text)) k.layout.read (k.layout.MeetsOpenQuote text) := by
  have hdefect := k.hasOwnDefect text
  generalize k.layout = layout at hlist hdefect
  cases layout with
  | named leader fields =>
    refine ReadM.namedRecords_failsAt (fun name => (Record.calls_read name fields).bind fun _ => .pure _)
      fun name => ?_
    exact (Record.read_failsAt hdefect).bind_never fun record => .pure _
  | dates => exact ReadM.namedRecords_failsAt Date.calls_read Date.read_failsAt
  | _ => exact hlist.elim

theorem ReadM.inKeyword_failsAt {α : Type} {cause : Cause} {x : ReadM α} {At : DeckReader → Prop}
    (hx : FailsAt cause x At) (name : String) :
    FailsAt cause (inKeyword name x) fun r => At { r with keyword := some name } := by
  intro r
  have hr := hx { r with keyword := some name }
  unfold inKeyword
  cases hrun : x { r with keyword := some name } <;> rwa [hrun] at hr

/-- Reading a list of records is refused for an open quote exactly where one comes in the place of a
field that is a name. -/
theorem Keyword.read_openQuote [Calendar] {k : Kind} (hlist : k.layout.IsRecordList) (r : DeckReader)
    (text : String) :
    Run.answer (Keyword.read k.name r) = .error (.malformed (.openQuote text), some k.name) ↔
      k.layout.MeetsOpenQuote text { r with keyword := some k.name } := by
  have hbody := (Layout.read_failsAt hlist text).bind_never
    fun body => Never.pure (Keyword.typed k body)
  have hread : FailsAt (.malformed (.openQuote text)) (Keyword.read k.name)
      fun r => k.layout.MeetsOpenQuote text { r with keyword := some k.name } := by
    rw [Keyword.read, Kind.ofName?_name]
    exact ReadM.inKeyword_failsAt hbody k.name
  refine Iff.trans ?_ (hread r)
  cases h : Keyword.read k.name r with
  | ok a r' => simp [Run.answer, cause?]
  | error e r' =>
    have hkeyword := ((Keyword.read_error_context k.name r).2 e r' h).1
    simp [Run.answer, cause?, hkeyword]

/-- A quote that is left open in the place of a state. -/
theorem Keyword.read_openQuote_state :
    Kind.welopen.layout.IsRecordList ∧
      Run.answer (Keyword.read Kind.welopen.name (.ofString "'W 1' 'SHUT /\n/\n")) =
        .error (.malformed (.openQuote "SHUT /"), some Kind.welopen.name) := by
  refine ⟨trivial, (Keyword.read_openQuote (k := .welopen) trivial _ _).mpr (.here ?_)⟩
  exact ⟨_, _, rfl, rfl, .inl ⟨trivial, rfl, _, _, rfl, rfl, rfl⟩⟩

/-- A quote that is left open in front of a record leads it with the rest of its line, the slash
included, and the record goes on over the next line. -/
theorem Keyword.read_openQuote_leader :
    ∃ t r body r', (DeckReader.ofString "'W1 SHUT /\n'W2' OPEN /\n/\n").token? = (some t, r) ∧
      t.quoting = .unterminated ∧
      Keyword.read Kind.welopen.name (.ofString "'W1 SHUT /\n'W2' OPEN /\n/\n") =
        .ok (.typed .welopen body) r' ∧ body.map Prod.fst = ["W1 SHUT /"] := by
  have hbody : (Run.answer (Kind.welopen.layout.read
      ⟨.ofString "'W1 SHUT /\n'W2' OPEN /\n/\n", some Kind.welopen.name⟩)).toOption.map
        (fun body => body.map Prod.fst) = some ["W1 SHUT /"] := by decide +kernel
  obtain ⟨body, hanswer, hnames⟩ := Option.map_eq_some_iff.mp hbody
  cases hread : Kind.welopen.layout.read
      ⟨.ofString "'W1 SHUT /\n'W2' OPEN /\n/\n", some Kind.welopen.name⟩ with
  | error e r' =>
    rw [hread] at hanswer
    cases hanswer
  | ok body' r' =>
    rw [hread] at hanswer
    cases hanswer
    exact ⟨_, _, body, _, rfl, rfl, Keyword.read_name_eq_ok.mpr ⟨r', hread, rfl⟩, hnames⟩

end ReservoirDeck
