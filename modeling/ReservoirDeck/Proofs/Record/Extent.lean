import Mathlib.Data.List.Forall2
import ReservoirDeck.Keyword.Basic
import ReservoirDeck.Keyword.Gregorian
import ReservoirDeck.Proofs.Reading.Tokens
import ReservoirDeck.Proofs.Record.Calls
import ReservoirDeck.Proofs.Record.Steps

/-!
Where a record ends. The calls that read its fields may pass its slash or stop before it, but how far
the record reaches is decided by the text alone: to the first slash, whatever was read of it.
-/

namespace ReservoirDeck

variable {α : Type}

/-- `d` is the place after the first slash that is a token of its own, from `c` on. -/
inductive Cursor.FirstSlash : Cursor → Cursor → Prop
  | here {c d : Cursor} {t : Token} (h : c.skipTrivia.readToken = (some t, d))
    (ht : t.isTerminator = true) : FirstSlash c d
  | later {c c' d : Cursor} {t : Token} (h : c.skipTrivia.readToken = (some t, c'))
    (ht : t.isTerminator = false) (hrest : FirstSlash c' d) : FirstSlash c d

theorem DeckReader.token?_of_readToken {c c' : Cursor} {t? : Option Token}
    (h : c.skipTrivia.readToken = (t?, c')) (keyword : Option String) :
    token? ⟨c, keyword⟩ = (t?, ⟨c', keyword⟩) := by
  rw [token?, h]
  rfl

theorem DeckReader.readToken_of_token? {r r' : DeckReader} {t? : Option Token}
    (h : r.token? = (t?, r')) : r.cursor.skipTrivia.readToken = (t?, r'.cursor) := by
  rw [token?] at h
  cases h
  rfl

theorem DeckReader.keyword_of_token? {r r' : DeckReader} {t? : Option Token}
    (h : r.token? = (t?, r')) : r'.keyword = r.keyword := by
  rw [token?] at h
  cases h
  rfl

namespace Cursor.FirstSlash

variable {c d d' : Cursor}

theorem unique (h : FirstSlash c d) (h' : FirstSlash c d') : d = d' := by
  induction h with
  | here h ht =>
    cases h' with
    | here h' ht' => simp_all
    | later h' ht' _ => simp_all
  | later h ht _ ih =>
    cases h' with
    | here h' ht' => simp_all
    | later h' ht' hrest' =>
      obtain ⟨-, rfl⟩ := Prod.mk.inj (h.symm.trans h')
      exact ih hrest'

end Cursor.FirstSlash

namespace RecordM

theorem skipToTerminator_of_firstSlash {c d : Cursor} (h : c.FirstSlash d)
    (keyword : Option String) :
    skipToTerminator ⟨c, keyword⟩ = .ok () ⟨d.skipLine, keyword⟩ := by
  induction h with
  | here h ht => exact skipToTerminator_terminator (DeckReader.token?_of_readToken h keyword) ht
  | later h ht _ ih =>
    rw [skipToTerminator_item (DeckReader.token?_of_readToken h keyword) ht]
    exact ih

theorem skipToTerminator_of_not_firstSlash {r : DeckReader} (h : ∀ d, ¬ r.cursor.FirstSlash d) :
    ∃ r', skipToTerminator r = .error (r'.error .unexpectedEnd) r' := by
  fun_induction skipToTerminator r with
  | case1 r r' htoken => exact ⟨r', rfl⟩
  | case2 r t r' htoken _ ht =>
    exact absurd (.here (DeckReader.readToken_of_token? htoken) ht) (h _)
  | case3 r t r' htoken _ ht ih =>
    apply ih
    intro d hd
    exact h d (.later (DeckReader.readToken_of_token? htoken) (by simpa using ht) hd)

end RecordM

/-- The place after the record: its slash may be passed already, or else is still ahead. -/
def RecordReader.afterRecord (s : RecordReader) : EStateM.Result DeckError DeckReader Unit :=
  match s.standing with
  | .ended => .ok () s.reader
  | _ => RecordM.skipToTerminator s.reader

namespace RecordM

theorem afterRecord_owe (r : DeckReader) (count : Nat) (value : Option String) :
    RecordReader.afterRecord ⟨r, .owe count value⟩ = skipToTerminator r := by
  unfold Standing.owe
  split <;> rfl

theorem finish_eq (s : RecordReader) : finish s = match s.afterRecord with
    | .ok u r => .ok u ⟨r, s.standing⟩
    | .error e r => .error e ⟨r, s.standing⟩ := by
  obtain ⟨r, standing⟩ := s
  cases standing with
  | ended => rfl
  | _ =>
    change ofRead skipToTerminator _ = _
    unfold ofRead RecordReader.afterRecord
    cases skipToTerminator r <;> rfl

/-- No run of the action moves the end of the record. -/
def KeepsEnd (x : RecordM α) : Prop :=
  ∀ s, (Run.state (x s)).afterRecord = s.afterRecord

/-- Without a token ahead there is no slash, and still none at the place reached. -/
theorem skipToTerminator_of_none {r r' : DeckReader} (h : r.token? = (none, r')) :
    skipToTerminator r' = skipToTerminator r := by
  rw [skipToTerminator_none h, skipToTerminator_none (DeckReader.token?_of_none h)]

theorem afterRecord_fillSlots {τ σ : Type} [DeckNumber τ] (mark : τ → σ) (slots : List σ)
    (r : DeckReader) :
    match (fillSlots mark slots r).1.stop with
    | .terminated => .ok () (fillSlots mark slots r).2 = skipToTerminator r
    | _ => skipToTerminator (fillSlots mark slots r).2 = skipToTerminator r := by
  fun_induction fillSlots mark slots r with
  | case1 => rfl
  | case2 slots r hne r' htoken => exact skipToTerminator_of_none htoken
  | case3 slots r hne t r' htoken _ ht => exact (skipToTerminator_terminator htoken ht).symm
  | case4 slots r hne t r' htoken _ ht v hv run r'' hrun ih =>
    rw [hrun] at ih
    rw [skipToTerminator_item htoken (by simpa using ht)]
    exact ih
  | case5 slots r hne t r' htoken _ ht =>
    exact (skipToTerminator_item htoken (by simpa using ht)).symm
  | case6 slots r hne t r' htoken _ ht k hk hle run r'' hrun ih =>
    rw [hrun] at ih
    rw [skipToTerminator_item htoken (by simpa using ht)]
    exact ih
  | case7 slots r hne t r' htoken _ ht =>
    exact (skipToTerminator_item htoken (by simpa using ht)).symm
  | case8 slots r hne t r' htoken _ ht k v hk hle run r'' hrun ih =>
    rw [hrun] at ih
    rw [skipToTerminator_item htoken (by simpa using ht)]
    exact ih
  | case9 slots r hne t r' htoken _ ht =>
    exact (skipToTerminator_item htoken (by simpa using ht)).symm

theorem afterRecord_fillNext {τ σ : Type} [DeckNumber τ] (mark : τ → σ) (slots : List σ)
    (s : RecordReader) :
    (Run.state (fillNext mark slots s)).afterRecord = skipToTerminator s.reader := by
  have hfill := afterRecord_fillSlots mark slots s.reader
  unfold fillNext
  dsimp only
  split
  · next overflow hstop =>
    rw [hstop] at hfill
    exact (afterRecord_owe _ overflow none).trans hfill
  · next hstop =>
    rw [hstop] at hfill
    exact hfill
  · next e hstop =>
    rw [hstop] at hfill
    exact hfill

theorem KeepsEnd.numbers {τ σ : Type} [DeckNumber τ] (mark : τ → σ) (slots : List σ) :
    KeepsEnd (numbers mark slots) := by
  rintro ⟨r, standing⟩
  cases standing with
  | ended => rfl
  | reading => exact afterRecord_fillNext mark slots _
  | owing count value =>
    rcases pay_cases mark (slots.take count) value with ⟨front, hlen, hpay⟩ | ⟨cause, hpay⟩
    · rw [numbers_of_pay hlen hpay, Run.state_map]
      rcases Nat.lt_or_ge count slots.length with hlt | hle
      · rw [Nat.sub_eq_zero_of_le (Nat.le_of_lt hlt)]
        exact afterRecord_fillNext mark _ _
      · rw [List.drop_eq_nil_of_le hle, numbers_nil]
        exact afterRecord_owe r _ value
    · rw [numbers_of_pay_fail hpay]
      rfl

theorem afterRecord_skipNext (n : Nat) (r : DeckReader) :
    match skipNext n r with
    | .ok result r' => RecordReader.afterRecord ⟨r', result.2⟩ = skipToTerminator r
    | .error _ r' => skipToTerminator r' = skipToTerminator r := by
  fun_induction skipNext n r with
  | case1 => rfl
  | case2 n r hn r' htoken => exact skipToTerminator_of_none htoken
  | case3 n r hn t r₁ htoken _ ht => exact (skipToTerminator_terminator htoken ht).symm
  | case4 n r hn t r₁ htoken _ ht =>
    exact (skipToTerminator_item htoken (by simpa using ht)).symm
  | case5 n r hn t r₁ htoken _ ht count value hextent hle skipped standing r₂ hrest ih =>
    rw [hrest] at ih
    rw [skipToTerminator_item htoken (by simpa using ht)]
    exact ih
  | case6 n r hn t r₁ htoken _ ht count value hextent hle e r₂ hrest ih =>
    rw [hrest] at ih
    rw [skipToTerminator_item htoken (by simpa using ht)]
    exact ih

theorem afterRecord_skip (n : Nat) (r : DeckReader) :
    (Run.state (skip n ⟨r, .reading⟩)).afterRecord = skipToTerminator r := by
  have hnext := afterRecord_skipNext n r
  rw [skip_reading]
  cases h : skipNext n r with
  | ok result r' => rwa [h] at hnext
  | error e r' => rwa [h] at hnext

theorem KeepsEnd.skip (n : Nat) : KeepsEnd (skip n) := by
  rintro ⟨r, standing⟩
  cases standing with
  | ended => rfl
  | reading => exact afterRecord_skip n r
  | owing count value =>
    rw [skip_owing, Run.state_map]
    rcases Nat.lt_or_ge count n with hlt | hle
    · rw [Nat.sub_eq_zero_of_le (Nat.le_of_lt hlt)]
      exact afterRecord_skip _ r
    · rw [Nat.sub_eq_zero_of_le hle, skip_zero]
      exact afterRecord_owe r _ value

theorem KeepsEnd.name (default : String) : KeepsEnd (name default) := by
  rintro ⟨r, standing⟩
  cases standing with
  | ended => rfl
  | owing count value => exact afterRecord_owe r _ value
  | reading =>
    change _ = skipToTerminator r
    rcases htoken : r.token? with ⟨_ | t, r'⟩
    · rw [name_none default htoken]
      exact skipToTerminator_of_none htoken
    by_cases ht : t.isTerminator = true
    · rw [name_terminator default htoken ht]
      exact (skipToTerminator_terminator htoken ht).symm
    · have ht' : t.isTerminator = false := by simpa using ht
      rw [name_item default htoken ht', skipToTerminator_item htoken ht']
      split
      · rfl
      · rfl
      · split
        · exact afterRecord_owe r' _ none
        · rfl

theorem Calls.keepsEnd {x : RecordM α} (h : Calls x) : KeepsEnd x := by
  intro s
  apply h.preserves (P := fun s' => s'.afterRecord = s.afterRecord) ?_ ?_ ?_ s rfl
  · intro default s' hs'
    exact (KeepsEnd.name default s').trans hs'
  · intro _ _ _ mark slots s' hs'
    exact (KeepsEnd.numbers mark slots s').trans hs'
  · intro n s' hs'
    exact (KeepsEnd.skip n s').trans hs'

end RecordM

/-- Whatever was read of a record, its end is the line of the first slash, or there is none. -/
theorem RecordM.finish_of_calls {x : RecordM α} (hx : x.Calls) {r : DeckReader} {a : α}
    {s : RecordReader} (h : x ⟨r, .reading⟩ = .ok a s) :
    (∀ d, r.cursor.FirstSlash d → finish s = .ok () ⟨r.moveTo d.skipLine, s.standing⟩) ∧
      ((¬ ∃ d, r.cursor.FirstSlash d) →
        ∃ e s', finish s = .error e s' ∧ e.code = .unexpectedEnd) := by
  have hend := hx.keepsEnd ⟨r, .reading⟩
  rw [h] at hend
  change s.afterRecord = skipToTerminator r at hend
  rw [finish_eq, hend]
  constructor
  · intro d hd
    have hskip : skipToTerminator r = .ok () (r.moveTo d.skipLine) :=
      skipToTerminator_of_firstSlash hd r.keyword
    rw [hskip]
  · intro hnone
    obtain ⟨r', hskip⟩ := skipToTerminator_of_not_firstSlash (not_exists.mp hnone)
    rw [hskip]
    exact ⟨_, _, rfl, rfl⟩

/-- Records up to a slash of their own, and the names that lead them. Each is a name and what comes
before the next slash. -/
inductive Cursor.NamedRecords : Cursor → List String → Cursor → Prop
  | done {c d : Cursor} {t : Token} (h : c.skipTrivia.readToken = (some t, d))
    (ht : t.isTerminator = true) : NamedRecords c [] d.skipLine
  | next {c c' d e : Cursor} {t : Token} {names : List String}
    (h : c.skipTrivia.readToken = (some t, c')) (ht : t.isTerminator = false)
    (hend : FirstSlash c' d) (hrest : NamedRecords d.skipLine names e) :
    NamedRecords c (t.text :: names) e

theorem Cursor.NamedRecords.unique {c d d' : Cursor} {names names' : List String}
    (h : NamedRecords c names d) (h' : NamedRecords c names' d') : names = names' ∧ d = d' := by
  induction h generalizing names' with
  | done h ht =>
    cases h' with
    | done h' ht' => simp_all
    | next h' ht' => simp_all
  | next h ht hend _ ih =>
    cases h' with
    | done h' ht' => simp_all
    | next h' ht' hend' hrest' =>
      obtain ⟨ht, rfl⟩ := Prod.mk.inj (h.symm.trans h')
      obtain rfl := hend.unique hend'
      obtain ⟨rfl, rfl⟩ := ih hrest'
      cases ht
      exact ⟨rfl, rfl⟩

namespace ReadM

theorem token?_of_token {r r' : DeckReader} {t : Token} (h : token r = .ok t r') :
    r.token? = (some t, r') := by
  rcases htoken : r.token? with ⟨_ | t', r₁⟩
  · rw [token_of_none htoken] at h
    cases h
  · rw [token_of_some htoken] at h
    cases h
    rfl

/-- A record that was read reaches over the line of its first slash. -/
theorem firstSlash_of_record {fields : RecordM α} (hfields : fields.Calls) {r r' : DeckReader} {a : α}
    (h : record fields r = .ok a r') :
    ∃ d s, r.cursor.FirstSlash d ∧ r'.cursor = d.skipLine ∧ fields ⟨r, .reading⟩ = .ok a s := by
  unfold record RecordM.run at h
  split at h
  · next a' s' hrun =>
    cases h
    obtain ⟨a, s, ha, hrun⟩ := Run.bind_eq_ok.mp hrun
    obtain ⟨_, s₁, hfinish, hdone⟩ := Run.bind_eq_ok.mp hrun
    cases hdone
    obtain ⟨hslash, hnone⟩ := RecordM.finish_of_calls hfields ha
    by_cases hd : ∃ d, r.cursor.FirstSlash d
    · obtain ⟨d, hd⟩ := hd
      rw [hslash d hd] at hfinish
      cases hfinish
      exact ⟨d, s, hd, rfl, ha⟩
    · obtain ⟨e, s', herror, -⟩ := hnone hd
      rw [herror] at hfinish
      cases hfinish
  · cases h

variable {fields : String → RecordM α} {Led : String → α → Prop}

theorem namedRecords_extent (hfields : ∀ name, (fields name).Calls)
    (hled : ∀ name s a s', fields name s = .ok a s' → Led name a) {r r' : DeckReader} {as : List α}
    (h : namedRecords fields r = .ok as r') :
    ∃ names, r.cursor.NamedRecords names r'.cursor ∧ List.Forall₂ Led names as := by
  -- What was read so far is followed by what is still to be read.
  refine iterate_invariant
    (I := fun as q => ∃ before, List.Forall₂ Led before as ∧
      ∀ names d, q.cursor.NamedRecords names d → r.cursor.NamedRecords (before ++ names) d)
    (Q := fun as q => ∃ names, r.cursor.NamedRecords names q.cursor ∧ List.Forall₂ Led names as)
    ?_ ?_ ⟨[], .nil, fun _ _ hrest => hrest⟩ h
  · rintro as q as' q' ⟨before, hbefore, hrest⟩ hstep
    obtain ⟨t, q₁, htoken, hstep⟩ := Run.bind_eq_ok.mp hstep
    split at hstep
    · cases hstep
    next ht =>
    obtain ⟨a, q₂, hrecord, hdone⟩ := Run.bind_eq_ok.mp hstep
    cases hdone
    obtain ⟨d, s, hslash, hq', ha⟩ := firstSlash_of_record (hfields t.text) hrecord
    have hread := DeckReader.readToken_of_token? (token?_of_token htoken)
    refine ⟨before ++ [t.text], ?_, ?_⟩
    · exact List.rel_append hbefore (.cons (hled _ _ _ _ ha) .nil)
    · intro names e hnames
      rw [hq'] at hnames
      rw [List.append_assoc]
      exact hrest _ _ (.next hread (by simpa using ht) hslash hnames)
  · rintro as q as' q' ⟨before, hbefore, hrest⟩ hstep
    obtain ⟨t, q₁, htoken, hstep⟩ := Run.bind_eq_ok.mp hstep
    split at hstep
    · next ht =>
      cases hstep
      have hread := DeckReader.readToken_of_token? (token?_of_token htoken)
      refine ⟨before, ?_, hbefore⟩
      have hnames := hrest [] _ (.done hread ht)
      rwa [List.append_nil] at hnames
    · obtain ⟨a, q₂, -, hdone⟩ := Run.bind_eq_ok.mp hstep
      cases hdone

end ReadM

theorem Date.day?_of_read [Calendar] {day : String} {date : Date} {s s' : RecordReader}
    (h : Date.read day s = .ok date s') : day? day = some date.day := by
  obtain ⟨month, s₁, -, h⟩ := Run.bind_eq_ok.mp h
  obtain ⟨year, s₂, -, h⟩ := Run.bind_eq_ok.mp h
  cases hdate : (do of? year (← month? month) (← day? day) : Option Date) with
  | none =>
    rw [hdate] at h
    cases h
  | some date' =>
    rw [hdate] at h
    cases h
    obtain ⟨m, -, hdate⟩ := Option.bind_eq_some_iff.mp hdate
    obtain ⟨d, hd, hdate⟩ := Option.bind_eq_some_iff.mp hdate
    unfold of? at hdate
    split at hdate <;> cases hdate
    exact hd

namespace Layout

/-- Bodies of records that start with a name, up to an empty one. -/
def IsRecordList : Layout → Prop
  | .named _ _ | .dates => True
  | _ => False

/-- The names that lead the records of a body, one for each. A date is led by its day. -/
def LedBy : (layout : Layout) → List String → layout.Body Float → Prop
  | .named _ _, names, body => List.Forall₂ (fun name record => record.1 = name) names body
  | .dates, names, body => List.Forall₂ (fun name date => Date.day? name = some date.day) names body
  | _, _, _ => False

theorem extent [Calendar] {layout : Layout} (hlayout : layout.IsRecordList) {r r' : DeckReader}
    {body : layout.Body Float} (h : layout.read r = .ok body r') :
    ∃ names, r.cursor.NamedRecords names r'.cursor ∧ layout.LedBy names body := by
  cases layout with
  | named leader fields =>
    change ∃ names, _ ∧ List.Forall₂ (fun name record => record.1 = name) names body
    apply ReadM.namedRecords_extent ?_ ?_ h
    · intro name
      exact (Record.calls_read name fields).calls.bind fun record => .pure _
    · intro name s record s' hrecord
      obtain ⟨values, s₁, -, hdone⟩ := Run.bind_eq_ok.mp hrecord
      cases hdone
      rfl
  | dates =>
    exact ReadM.namedRecords_extent (fun day => (Date.calls_read day).calls)
      (fun _ _ _ _ => Date.day?_of_read) h
  | _ => exact hlayout.elim

end Layout

theorem Keyword.read_name_eq_ok [Calendar] {k : Kind} {body : k.layout.Body Float} {r r' : DeckReader} :
    Keyword.read k.name r = .ok (.typed k body) r' ↔
      ∃ r₁, k.layout.read { r with keyword := some k.name } = .ok body r₁ ∧
        r' = { r₁ with keyword := none } := by
  rw [Keyword.read, Kind.ofName?_name]
  refine ReadM.inKeyword_eq_ok.trans (exists_congr fun r₁ => and_congr_left fun _ => ?_)
  constructor
  · intro h
    obtain ⟨body', r₂, hbody, hdone⟩ := Run.bind_eq_ok.mp h
    cases hdone
    exact hbody
  · exact fun h => Run.bind_eq_ok.mpr ⟨body, r₁, h, rfl⟩

/-- A record ends at its first slash, however its fields are read. So two keywords whose bodies are
lists of records read the same text as records of the same names, and stop at the same place. -/
theorem Record.extent_independent [Calendar] :
    (∀ {α : Type} {x : RecordM α} {r : DeckReader} {a : α} {s : RecordReader}, x.Calls →
      x ⟨r, .reading⟩ = .ok a s →
        (∀ d, r.cursor.FirstSlash d →
          RecordM.finish s = .ok () ⟨r.moveTo d.skipLine, s.standing⟩) ∧
        ((¬ ∃ d, r.cursor.FirstSlash d) →
          ∃ e s', RecordM.finish s = .error e s' ∧ e.code = .unexpectedEnd)) ∧
      ∀ {k k' : Kind} {body : k.layout.Body Float} {body' : k'.layout.Body Float}
        {r r₁ r₁' : DeckReader}, k.layout.IsRecordList → k'.layout.IsRecordList →
        Keyword.read k.name r = .ok (.typed k body) r₁ →
        Keyword.read k'.name r = .ok (.typed k' body') r₁' →
          r₁' = r₁ ∧ ∃ names, k.layout.LedBy names body ∧ k'.layout.LedBy names body' := by
  constructor
  · intro α x r a s hx h
    exact RecordM.finish_of_calls hx h
  · intro k k' body body' r r₁ r₁' hk hk' h h'
    obtain ⟨q, hread, rfl⟩ := Keyword.read_name_eq_ok.mp h
    obtain ⟨q', hread', rfl⟩ := Keyword.read_name_eq_ok.mp h'
    obtain ⟨names, hrecords, hled⟩ := Layout.extent hk hread
    obtain ⟨names', hrecords', hled'⟩ := Layout.extent hk' hread'
    obtain ⟨rfl, hstop⟩ := hrecords.unique hrecords'
    rw [hstop]
    exact ⟨rfl, names, hled, hled'⟩

/-- Two items of a record with three and a comment; two records that are read as names and as
numbers. -/
theorem Record.extent_independent_welopen :
    (∃ a s, RecordM.skip 2 ⟨.ofString "A 2* -- a / b\nB / rest\nC", .reading⟩ = .ok a s ∧
      ∃ s', RecordM.finish s = .ok () s' ∧ s'.reader.cursor.rest = Text.bytes "C") ∧
    ∃ body body' r₁,
      Keyword.read Kind.welopen.name (.ofString "A 2 /\nB\n-- / \n 3 / x\n/\nC") =
        .ok (.typed .welopen body) r₁ ∧
      Keyword.read Kind.multflt.name (.ofString "A 2 /\nB\n-- / \n 3 / x\n/\nC") =
        .ok (.typed .multflt body') r₁ ∧
      ∃ names, Kind.welopen.layout.LedBy names body ∧ Kind.multflt.layout.LedBy names body' := by
  have hskip : (Run.answer (RecordM.skip 2
      ⟨.ofString "A 2* -- a / b\nB / rest\nC", .reading⟩)).isOk = true := by decide +kernel
  have hwelopen : (Run.answer (Kind.welopen.layout.read
      ⟨.ofString "A 2 /\nB\n-- / \n 3 / x\n/\nC", some Kind.welopen.name⟩)).isOk = true := by
    decide +kernel
  have hmultflt : (Run.answer (Kind.multflt.layout.read
      ⟨.ofString "A 2 /\nB\n-- / \n 3 / x\n/\nC", some Kind.multflt.name⟩)).isOk = true := by
    decide +kernel
  have hlists : Kind.welopen.layout.IsRecordList ∧ Kind.multflt.layout.IsRecordList :=
    ⟨trivial, trivial⟩
  obtain ⟨a, s, hskip⟩ := Run.exists_of_isOk hskip
  obtain ⟨body, r₁, hwelopen⟩ := Run.exists_of_isOk hwelopen
  obtain ⟨body', r₁', hmultflt⟩ := Run.exists_of_isOk hmultflt
  have hslash : (DeckReader.ofString "A 2* -- a / b\nB / rest\nC").cursor.FirstSlash
      ((DeckReader.ofString "A 2* -- a / b\nB / rest\nC").cursor.forward 17) :=
    .later rfl rfl (.later rfl rfl (.later rfl rfl (.here rfl rfl)))
  have hfinish := (Record.extent_independent.1 (.skip 2) hskip).1 _ hslash
  have hread := Keyword.read_name_eq_ok (r := .ofString "A 2 /\nB\n-- / \n 3 / x\n/\nC") |>.mpr
    ⟨_, hwelopen, rfl⟩
  have hread' := Keyword.read_name_eq_ok (r := .ofString "A 2 /\nB\n-- / \n 3 / x\n/\nC") |>.mpr
    ⟨_, hmultflt, rfl⟩
  obtain ⟨hstop, hnames⟩ := Record.extent_independent.2 hlists.1 hlists.2 hread hread'
  rw [hstop] at hread'
  exact ⟨⟨a, s, hskip, _, hfinish, rfl⟩, body, body', _, hread, hread', hnames⟩

end ReservoirDeck
