import ReservoirDeck.Proofs.Decimal.Reals
import ReservoirDeck.Proofs.RoundTrip.Names
import ReservoirDeck.Proofs.RoundTrip.Stored

/-!
Fields read back. What was read of a field is written as words that are read as the same.
-/

namespace ReservoirDeck

/-- A field that was left out holds its default. -/
def Defaulted.Holds {α : Type} (p : α → Prop) (default : α) : Defaulted α → Prop
  | .given v => p v
  | .missing v => v = default

def Row.All {ι : Type} {V : ι → Type} (P : (i : ι) → V i → Prop) : {is : List ι} → Row V is → Prop
  | [], .nil => True
  | i :: _, .cons v vs => P i v ∧ vs.All P

def RealSlot.Sound : (slot : RealSlot) → slot.Value Float → Prop
  | .tagged _ default _, v => Defaulted.Holds (fun _ => True) default v
  | .index _, v => Defaulted.Holds (fun _ => True) 0 v
  | .needed .., _ => True
  | .optional .., _ => True
  | .unused, _ => True

def IntSlot.Sound : (slot : IntSlot) → slot.Value → Prop
  | .tagged _ default, v => Defaulted.Holds (fun _ => True) default v
  | .needed _, _ => True

def Field.Sound : (field : Field) → field.Value Float → Prop
  | .name _ default, v => Defaulted.Holds NameText default v
  | .requiredName .., v => NameText v
  | .answer _, v => Defaulted.Holds (fun _ => True) false v
  | .reals _ _, v => Row.All RealSlot.Sound v
  | .ints _ _, v => Row.All IntSlot.Sound v
  | .companions .., v => Defaulted.Holds (fun x => x < 0 → x = v.1) v.1 v.2
  | .skipped _, _ => True

section Numbers

variable {τ : Type} [DeckNumber τ] {w : String}

theorem RecordM.number_reads {e : Option τ} (default : τ) (h : EntryWord τ w e) :
    FieldReads (number default) [w] (Defaulted.ofOption default e) :=
  (optionalNumbers_reads (.cons h .nil)).bind (.pure _)

theorem RecordM.requiredNumber_reads {v : τ} (what : String) (h : EntryWord τ w (some v)) :
    FieldReads (requiredNumber τ what) [w] v :=
  (optionalNumbers_reads (.cons h .nil)).bind (.pure v)

theorem Defaulted.entryWord {default : τ} {d : Defaulted τ} {text : τ → String}
    (hd : d.Holds (fun _ => True) default) (h : EntryWord τ (text d.value) (some d.value)) :
    ∃ e, EntryWord τ (Defaulted.token text d) e ∧ Defaulted.ofOption default e = d := by
  cases d with
  | given v => exact ⟨some v, h, rfl⟩
  | missing v =>
    obtain rfl : v = default := hd
    exact ⟨none, .missing, rfl⟩

end Numbers

namespace RealSlot

def isUnused : RealSlot → Bool
  | .unused => true
  | _ => false

/-- Slots that are not kept come last. -/
def unusedLast : List RealSlot → Bool
  | [] => true
  | slot :: slots => if slot.isUnused then slots.all isUnused else unusedLast slots

theorem entryWord {slot : RealSlot} (hused : slot.isUnused = false) {v : slot.Value Float}
    (hv : slot.Sound v) (hreal : ∀ x ∈ slot.stored v, x.isFinite = true) :
    ∃ w e, slot.tokens v = [w] ∧ EntryWord Float w e ∧ slot.ofEntry? e = some v := by
  cases slot with
  | tagged label default scale =>
    obtain ⟨e, he, rfl⟩ := Defaulted.entryWord hv (entryWord_deckText (hreal _ (by simp [stored])))
    exact ⟨_, e, rfl, he, rfl⟩
  | index label =>
    cases v with
    | given n =>
      obtain ⟨y, hy, rfl⟩ := entryWord_index n
      exact ⟨_, some y, rfl, hy, rfl⟩
    | missing n =>
      obtain rfl : n = 0 := hv
      have hzero : wholeNumber 0 = 0 := by decide +kernel
      exact ⟨_, none, rfl, .missing, congrArg (fun n => some (Defaulted.missing n)) hzero⟩
  | needed label scale =>
    exact ⟨_, some v, rfl, entryWord_deckText (hreal v (by simp [stored])), rfl⟩
  | optional label default scale =>
    exact ⟨_, some v, rfl, entryWord_deckText (hreal v (by simp [stored])), rfl⟩
  | unused => cases hused

theorem unused_row {slots : List RealSlot} (h : slots.all isUnused = true)
    (row : Row (RealSlot.Value Float) slots) (entries : List (Option Float)) :
    row.collect tokens = [] ∧ Row.ofEntries? ofEntry? slots entries = some row := by
  induction row generalizing entries with
  | nil => exact ⟨rfl, rfl⟩
  | @cons slot slots v vs ih =>
    rw [List.all_cons, Bool.and_eq_true] at h
    cases slot with
    | unused =>
      obtain ⟨htokens, hentries⟩ := ih h.2 entries.tail
      refine ⟨by simp [Row.collect, tokens, htokens], ?_⟩
      simp [Row.ofEntries?, ofEntry?, hentries]
    | _ => cases h.1

/-- The words of a run of reals, with a slot left for each that is not kept. -/
theorem entryWords {slots : List RealSlot} (hslots : unusedLast slots = true)
    (row : Row (RealSlot.Value Float) slots) (hrow : row.All Sound)
    (hreal : ∀ x ∈ row.collect stored, x.isFinite = true) :
    ∃ es, List.Forall₂ (EntryWord Float) (row.collect tokens) es ∧
      slots.length = es.length + slots.countP isUnused ∧
      Row.ofEntries? ofEntry? slots (es ++ List.replicate (slots.countP isUnused) none) =
        some row := by
  induction row with
  | nil => exact ⟨[], .nil, rfl, rfl⟩
  | @cons slot slots v vs ih =>
    by_cases hused : slot.isUnused = true
    · have hall : (slot :: slots).all isUnused = true := by
        simpa [unusedLast, hused] using hslots
      obtain ⟨htokens, hentries⟩ := unused_row hall (.cons v vs)
        (List.replicate ((slot :: slots).countP isUnused) none)
      refine ⟨[], by rw [htokens]; exact .nil, ?_, hentries⟩
      rw [List.countP_eq_length.mpr fun s hs => List.all_eq_true.mp hall s hs]
      simp
    · rw [Bool.not_eq_true] at hused
      obtain ⟨w, e, htoken, he, hentry⟩ := entryWord hused hrow.1
        fun x hx => hreal x (by simp [Row.collect, hx])
      obtain ⟨es, hes, hlen, hentries⟩ := ih (by simpa [unusedLast, hused] using hslots) hrow.2
        fun x hx => hreal x (by simp [Row.collect, hx])
      refine ⟨e :: es, ?_, ?_, ?_⟩
      · simpa [Row.collect, htoken] using List.Forall₂.cons he hes
      · simp [hused, hlen]
        omega
      · simp [Row.ofEntries?, hused, hentry, hentries]

end RealSlot

namespace IntSlot

theorem entryWord {slot : IntSlot} {v : slot.Value} (hv : slot.Sound v) :
    ∃ w e, slot.tokens v = [w] ∧ EntryWord Int32 w e ∧ slot.ofEntry? e = some v := by
  cases slot with
  | tagged label default =>
    obtain ⟨e, he, rfl⟩ := Defaulted.entryWord hv (entryWord_integerText _)
    exact ⟨_, e, rfl, he, rfl⟩
  | needed label => exact ⟨_, some v, rfl, entryWord_integerText v, rfl⟩

theorem entryWords {slots : List IntSlot} (row : Row IntSlot.Value slots) (hrow : row.All Sound) :
    ∃ es, List.Forall₂ (EntryWord Int32) (row.collect tokens) es ∧ es.length = slots.length ∧
      Row.ofEntries? ofEntry? slots es = some row := by
  induction row with
  | nil => exact ⟨[], .nil, rfl, rfl⟩
  | @cons slot slots v vs ih =>
    obtain ⟨w, e, htoken, he, hentry⟩ := entryWord hrow.1
    obtain ⟨es, hes, hlen, hentries⟩ := ih hrow.2
    refine ⟨e :: es, ?_, by simp [hlen], ?_⟩
    · simpa [Row.collect, htoken] using List.Forall₂.cons he hes
    · simp [Row.ofEntries?, hentry, hentries]

end IntSlot

/-- A default marker is a star, alone or after the digits of a count. -/
theorem toList_of_defaultCount? {s : String} {count : Nat} (h : defaultCount? s = some count) :
    ∃ digits : List Char, s.toList = digits ++ ['*'] ∧ (∀ c ∈ digits, c.isDigit = true) ∧
      (digits = [] ∧ count = 1 ∨ countOfChars? digits = some count) := by
  unfold defaultCount? at h
  split at h
  · next hs =>
    cases h
    exact ⟨[], by simpa using hs, by simp, .inl ⟨rfl, rfl⟩⟩
  · next digits hne hs =>
    refine ⟨digits.reverse, by simpa using congrArg List.reverse hs, ?_, .inr h⟩
    obtain ⟨hnatural, -⟩ := Option.filter_eq_some_iff.mp h
    unfold naturalOfChars? at hnatural
    split at hnatural
    · next hdigits => exact List.all_eq_true.mp hdigits.2
    · cases hnatural
  · cases h

theorem bareText_of_defaultCount? {s : String} {count : Nat} (h : defaultCount? s = some count) :
    BareText s := by
  obtain ⟨digits, hs, hdigits, -⟩ := toList_of_defaultCount? h
  have hall : (digits ++ ['*']).all (!endsBareChar ·) = true := by
    rw [List.all_append, Bool.and_eq_true]
    refine ⟨List.all_eq_true.mpr fun c hc => ?_, by decide⟩
    have hnumber : isNumberChar c = true := by simp [isNumberChar, hdigits c hc]
    simp [(isNumberChar_bare hnumber).1]
  constructor
  · rintro rfl
    simp at hs
  · unfold readsBackBare
    rw [hs, hall]
    cases digits with
    | nil => decide
    | cons c cs =>
      have hc := hdigits c List.mem_cons_self
      have hquote : c ≠ '\'' := by
        rintro rfl
        exact absurd hc (by decide)
      have hdash : c ≠ '-' := by
        rintro rfl
        exact absurd hc (by decide)
      simp [hquote, hdash]

/-- What leaves out fields when it is read as a name does so among numbers. -/
theorem Item.ofText?_of_defaultCount? {τ : Type} [DeckNumber τ] {s : String} {count : Nat}
    (h : defaultCount? s = some count) :
    (Item.ofText? s : Option (Item τ)) = some (.defaults count) := by
  obtain ⟨digits, hs, hdigits, hcount⟩ := toList_of_defaultCount? h
  have hstar : '*' ∉ digits := fun hmem => absurd (hdigits '*' hmem) (by decide)
  rw [Item.ofText?, splitStar_eq_some.mpr ⟨hs, hstar⟩]
  rcases hcount with ⟨rfl, rfl⟩ | hcount
  · rfl
  · cases digits with
    | nil => cases hcount
    | cons c cs => simp [hcount]

theorem defaultCount?_of_count {s : String} {run : List Char} {count : Nat}
    (hcount : countOfChars? run = some count) (hs : s.toList = run ++ ['*']) :
    defaultCount? s = some count := by
  have hne : run ≠ [] := by
    rintro rfl
    cases hcount
  have hlist : s.toList.reverse = '*' :: run.reverse := by
    rw [hs, List.reverse_append]
    rfl
  unfold defaultCount?
  rw [hlist]
  split
  · next h => exact absurd (List.reverse_eq_nil_iff.mp (List.cons.inj h).2) hne
  · next h =>
    obtain rfl := (List.cons.inj h).2
    rw [List.reverse_reverse]
    exact hcount
  · next h => exact absurd rfl (h _)

theorem defaultCount?_toString {count : Nat} (hcount : 1 ≤ count ∧ count ≤ maxCount) :
    defaultCount? (toString count ++ "*") = some count := by
  have hvalue : countOfChars? (Nat.toDigits 10 count) = some count := by
    simp [countOfChars?, naturalOfChars?_toDigits, hcount]
  refine defaultCount?_of_count hvalue ?_
  rw [String.toList_append, toList_toString_nat]
  rfl

namespace Field

/-- Every slot of the field has a word. -/
def isFull : Field → Bool
  | .reals slots _ => slots.countP RealSlot.isUnused == 0
  | _ => true

/-- The field can be written. -/
def isWritable : Field → Bool
  | .reals slots _ => RealSlot.unusedLast slots
  | .skipped count => 1 ≤ count && count ≤ maxCount
  | _ => true

variable (leader : String)

theorem name_reads {default : String} {v : Defaulted String}
    (hv : v.Holds NameText default) :
    FieldReads (RecordM.name default) [Defaulted.token nameToken v] v := by
  cases v with
  | given s => exact RecordM.name_reads_given default hv
  | missing s =>
    obtain rfl : s = default := hv
    exact RecordM.name_reads_missing s

theorem nameText_answerText (yes : Bool) : NameText (answerText yes) := by
  left
  cases yes <;> simp [QuotableText, answerText]

theorem answer_reads {label : String} {v : Defaulted Bool}
    (hv : v.Holds (fun _ => True) false) :
    FieldReads ((Field.answer label).read leader) ((Field.answer label).tokens v) v := by
  cases v with
  | given yes =>
    have hyes : isYes (answerText yes) = yes := by cases yes <;> decide
    have h := (RecordM.name_reads_given "NO" (nameText_answerText yes)).bind
      (f := fun answer => return answer.map isYes) (.pure _)
    rwa [Defaulted.map, hyes] at h
  | missing yes =>
    obtain rfl : yes = false := hv
    have h := (RecordM.name_reads_missing "NO").bind
      (f := fun answer => return answer.map isYes) (.pure _)
    have hno : isYes "NO" = false := by decide
    rwa [Defaulted.map, hno] at h

theorem reals_reads {slots : List RealSlot} (incomplete : Defect)
    (hslots : RealSlot.unusedLast slots = true) (hfull : slots.countP RealSlot.isUnused = 0)
    {v : Row (RealSlot.Value Float) slots} (hv : v.All RealSlot.Sound)
    (hreal : ∀ x ∈ v.collect RealSlot.stored, x.isFinite = true) :
    FieldReads ((Field.reals slots incomplete).read leader)
      ((Field.reals slots incomplete).tokens v) v := by
  obtain ⟨es, hes, hlen, hentries⟩ := RealSlot.entryWords hslots v hv hreal
  rw [hfull] at hlen hentries
  rw [List.replicate_zero, List.append_nil] at hentries
  have hread := RecordM.optionalNumbers_reads hes
  rw [← Nat.add_zero es.length, ← hlen] at hread
  apply hread.bind_nil
  simp only [hentries]
  exact .pure v

theorem reals_ends {slots : List RealSlot} (incomplete : Defect)
    (hslots : RealSlot.unusedLast slots = true) (hrest : slots.countP RealSlot.isUnused ≠ 0)
    {v : Row (RealSlot.Value Float) slots} (hv : v.All RealSlot.Sound)
    (hreal : ∀ x ∈ v.collect RealSlot.stored, x.isFinite = true) :
    FieldEnds ((Field.reals slots incomplete).read leader)
      ((Field.reals slots incomplete).tokens v) v := by
  obtain ⟨es, hes, hlen, hentries⟩ := RealSlot.entryWords hslots v hv hreal
  have hread := RecordM.optionalNumbers_ends hes hrest
  rw [← hlen] at hread
  apply hread.bind
  simp only [hentries]
  exact fun _ => rfl

theorem ints_reads {slots : List IntSlot} (incomplete : String → Defect)
    {v : Row IntSlot.Value slots} (hv : v.All IntSlot.Sound) :
    FieldReads ((Field.ints slots incomplete).read leader)
      ((Field.ints slots incomplete).tokens v) v := by
  obtain ⟨es, hes, hlen, hentries⟩ := IntSlot.entryWords v hv
  have hread := RecordM.optionalNumbers_reads hes
  rw [hlen] at hread
  apply hread.bind_nil
  simp only [hentries]
  exact .pure v

theorem companions_reads {first what second : String} {v : Float × Defaulted Float}
    (hv : v.2.Holds (fun x => x < 0 → x = v.1) v.1) (hfirst : v.1.isFinite = true)
    (hsecond : v.2.value.isFinite = true) :
    FieldReads ((Field.companions first what second).read leader)
      ((Field.companions first what second).tokens v) v := by
  obtain ⟨x, y⟩ := v
  refine (RecordM.requiredNumber_reads what (entryWord_deckText hfirst)).bind ?_
  cases y with
  | given y =>
    have h := (RecordM.number_reads (-1) (entryWord_deckText hsecond)).bind
      (f := fun second => return (x, second.map fun y => if y < 0 then x else y)) (.pure _)
    have hy : (if y < 0 then x else y) = y := by
      split
      · next hneg => exact (hv hneg).symm
      · rfl
    rwa [Defaulted.ofOption, Defaulted.value, Defaulted.map, hy] at h
  | missing y =>
    obtain rfl : y = x := hv
    have h := (RecordM.number_reads (-1) (EntryWord.missing : EntryWord Float _ _)).bind
      (f := fun second => return (y, second.map fun x => if x < 0 then y else x)) (.pure _)
    have hneg : (-1 : Float) < 0 := by decide
    rwa [Defaulted.ofOption, Defaulted.map, if_pos hneg] at h

theorem skipped_reads {count : Nat} (hcount : 1 ≤ count ∧ count ≤ maxCount) :
    FieldReads ((Field.skipped count).read leader) [toString count ++ "*"] () := by
  intro r z rest hz hr hrest
  have hmarker := defaultCount?_toString hcount
  have hbare := bareText_of_defaultCount? hmarker
  obtain ⟨start, htoken⟩ := hz.token? (.bare hbare) hr (hrest (by simp))
  have hitem : Token.item? Float ⟨toString count ++ "*", .bare, start⟩ =
      some (.defaults count) := by
    simpa [Token.item?, Token.isQuoted] using Item.ofText?_of_defaultCount? hmarker
  have hskip := RecordM.skipNext_default (Nat.ne_of_gt hcount.1) htoken
    (isTerminator_of_bareText hbare start) hitem
  have hrun : RecordM.skip count ⟨r, .reading⟩ = .ok count ⟨r.forward z.length, .reading⟩ := by
    rw [RecordM.skip, Run.bind_get_eq]
    exact Run.bind_of_ok _ (RecordM.ofRead_of_ok hskip)
  exact Run.discard_eq_ok.mpr ⟨count, hrun⟩

theorem reads {field : Field} (hw : field.isWritable = true) (hfull : field.isFull = true)
    {v : field.Value Float} (hv : field.Sound v)
    (hreal : ∀ x ∈ field.stored v, x.isFinite = true) :
    FieldReads (field.read leader) (field.tokens v) v := by
  cases field with
  | name label default => exact name_reads hv
  | requiredName label what => exact RecordM.requiredName_reads what hv
  | answer label => exact answer_reads leader hv
  | reals slots incomplete =>
    exact reals_reads leader incomplete hw (by simpa [isFull] using hfull) hv hreal
  | ints slots incomplete => exact ints_reads leader incomplete hv
  | companions first what second =>
    exact companions_reads leader hv (hreal _ (by simp [stored])) (hreal _ (by simp [stored]))
  | skipped count => exact skipped_reads leader (by simpa [isWritable] using hw)

/-- A field that leaves slots over reads back at the end of a record. -/
theorem ends {field : Field} (hw : field.isWritable = true) (hfull : field.isFull = false)
    {v : field.Value Float} (hv : field.Sound v)
    (hreal : ∀ x ∈ field.stored v, x.isFinite = true) :
    FieldEnds (field.read leader) (field.tokens v) v := by
  cases field with
  | reals slots incomplete =>
    exact reals_ends leader incomplete hw (by simpa [isFull] using hfull) hv hreal
  | _ => cases hfull

end Field

end ReservoirDeck
