import ReservoirDeck.Proofs.Alike.Runs
import ReservoirDeck.Proofs.Reading.Calls

/-!
Records of two texts. Every action of a record is alike, since it looks at the text one item at a time
and keeps only how the record stands.
-/

namespace ReservoirDeck

variable {α τ σ : Type} {p : Pairing}

namespace Pairing

theorem items (hp : p.Lawful) {x : ReadM α} (hx : x.ItemCalls) : p.readers.Alike x := by
  induction hx with
  | pure a => exact .pure a
  | bind _ _ hx hf => exact hx.bind hf
  | malformed defect => exact p.malformed defect
  | unreadable found => exact p.fail _
  | item => exact hp.item
  | iterate _ hmoves s hstep => exact iterate hmoves hstep s

theorem ofRead {x : ReadM α} (hx : p.readers.Alike x) : p.records.Alike (RecordM.ofRead x) := by
  have hlifts : p.readers.Lifts p.records x (RecordM.ofRead x) RecordReader.reader id
      (fun s _ r => { s with reader := r }) (fun s r => { s with reader := r }) :=
    { ok := fun h => by
        rw [RecordM.ofRead, h]
        rfl
      error := fun h => by rw [RecordM.ofRead, h]
      near := fun h => h.1
      past := id
      excused := id
      put_near := fun h h' => ⟨h', h.2⟩
      put_past := id
      giveUp_near := fun h h' => ⟨h', h.2⟩
      giveUp_past := id }
  exact fun s => hlifts.alikeFrom (hx s.reader)

/-- Records are read from the place that was reached, with nothing owed. -/
theorem run {x : RecordM α} (hx : p.records.Alike x) : p.readers.Alike (RecordM.run x) := by
  have hlifts : p.records.Lifts p.readers x (RecordM.run x) (fun r => ⟨r, .reading⟩) id
      (fun _ _ s => s.reader) (fun _ s => s.reader) :=
    { ok := fun h => by
        rw [RecordM.run, h]
        rfl
      error := fun h => by rw [RecordM.run, h]
      near := fun h => ⟨h, rfl⟩
      past := id
      excused := id
      put_near := fun _ h => h.1
      put_past := id
      giveUp_near := fun _ h => h.1
      giveUp_past := id }
  exact fun r => hlifts.alikeFrom (hx _)

theorem setStanding (standing : Standing) : p.records.Alike (RecordM.setStanding standing) :=
  fun _ => ⟨fun _ h => .ok ⟨h.1, rfl⟩, fun h => h⟩

theorem failRecord (cause : Cause) : p.records.Alike (RecordM.fail cause : RecordM α) :=
  fun _ => ⟨fun _ h => .error h rfl h.1.2, fun h => h⟩

theorem malformedRecord (defect : Defect) :
    p.records.Alike (RecordM.malformed defect : RecordM α) :=
  failRecord _

/-- An action that looks at how the record stands, and at nothing else. -/
theorem getStanding {f : RecordReader → RecordM α}
    (hf : ∀ standing r r', f ⟨r, standing⟩ = f ⟨r', standing⟩) (h : ∀ s, p.records.Alike (f s)) :
    p.records.Alike (get >>= f) := by
  rintro ⟨r, standing⟩
  obtain ⟨hnear, hpast⟩ := h ⟨r, standing⟩ ⟨r, standing⟩
  constructor
  · rintro ⟨r', standing'⟩ hst
    obtain rfl : standing = standing' := hst.2
    rw [Run.bind_get_eq, Run.bind_get_eq, hf standing r' r]
    exact hnear _ hst
  · intro hst
    rw [Run.bind_get_eq]
    exact hpast hst

section Fields

variable (hp : p.Lawful)
include hp

/-- A terminator that ends the record, or a token that is looked at. -/
theorem recordToken {x : RecordM α} {f : Token → RecordM α} (hx : p.records.Alike x)
    (hf : ∀ t, p.records.Alike (f t)) (hstart : ∀ t n, f { t with start := n } = f t) :
    p.records.Alike (do
      let t ← RecordM.ofRead ReadM.token
      if t.isTerminator then
        RecordM.endRecord
        x
      else f t) := by
  have hitem : (do
      let t ← RecordM.ofRead ReadM.token
      if t.isTerminator then
        RecordM.endRecord
        x
      else f t) = RecordM.ofRead ReadM.item >>= fun t? =>
        t?.elim (RecordM.setStanding .ended >>= fun _ => x) f := by
    funext s
    obtain ⟨r, standing⟩ := s
    rcases htoken : r.token? with ⟨_ | t, r'⟩
    · rw [Run.bind_of_error _ (RecordM.ofRead_of_error (ReadM.token_of_none htoken)),
        Run.bind_of_error _ (RecordM.ofRead_of_error (ReadM.item_of_none htoken))]
    rw [Run.bind_of_ok _ (RecordM.ofRead_of_ok (ReadM.token_of_some htoken))]
    by_cases ht : t.isTerminator = true
    · rw [Run.bind_of_ok _ (RecordM.ofRead_of_ok (ReadM.item_of_terminator htoken ht)), if_pos ht]
      rfl
    · rw [Run.bind_of_ok _ (RecordM.ofRead_of_ok (ReadM.item_of_some htoken ht)), if_neg ht]
      exact congrFun (hstart t 0).symm _
  rw [hitem]
  refine (ofRead hp.item).bind fun t? => ?_
  cases t? with
  | none => exact (setStanding _).bind fun _ => hx
  | some t => exact hf t

theorem name (default : String) : p.records.Alike (RecordM.name default) := by
  refine getStanding (fun standing _ _ => by cases standing <;> rfl) fun s => ?_
  obtain ⟨r, standing⟩ := s
  cases standing with
  | ended => exact .pure _
  | owing count value => exact (setStanding _).bind fun _ => .pure _
  | reading =>
    refine recordToken hp (.pure _) (fun t => ?_) fun t n => rfl
    split
    · exact malformedRecord _
    · exact .pure _
    · split
      · exact (setStanding _).bind fun _ => .pure _
      · exact .pure _

section Numbers

variable [DeckNumber τ]

theorem fillNext (mark : τ → σ) (slots : List σ) :
    p.records.Alike (RecordM.fillNext mark slots) := by
  have hlifts : p.readers.Lifts p.records (ReadM.fill mark slots) (RecordM.fillNext mark slots)
      RecordReader.reader (fun run => (run.visited, run.slots))
      (fun _ run r => ⟨r, run.stop.standing⟩) (fun _ r => ⟨r, .reading⟩) :=
    { ok := fun h => by rw [RecordM.fillNext_eq, h]
      error := fun h => by rw [RecordM.fillNext_eq, h]
      near := fun h => h.1
      past := id
      excused := id
      put_near := fun _ h => ⟨h, rfl⟩
      put_past := id
      giveUp_near := fun _ h => ⟨h, rfl⟩
      giveUp_past := id }
  exact fun s => hlifts.alikeFrom (items hp (itemCalls_fill mark slots) s.reader)

omit hp in
theorem pay (mark : τ → σ) (slots : List σ) (value : Option String) :
    p.records.Alike (RecordM.pay mark slots value) := by
  rcases RecordM.pay_cases mark slots value with ⟨front, -, hpay⟩ | ⟨cause, hpay⟩
  · exact hpay ▸ .pure front
  · exact hpay ▸ failRecord cause

theorem numbers (mark : τ → σ) (slots : List σ) : p.records.Alike (RecordM.numbers mark slots) := by
  rw [RecordM.numbers_eq]
  refine getStanding (fun standing _ _ => by cases standing <;> rfl) fun s => ?_
  obtain ⟨r, standing⟩ := s
  cases standing with
  | ended => exact .pure _
  | reading => exact fillNext hp mark slots
  | owing count value =>
    refine (pay mark _ value).bind fun front => (setStanding _).bind fun _ => ?_
    split
    · exact .pure _
    · exact (fillNext hp mark _).bind fun _ => .pure _

end Numbers

theorem skip (n : Nat) : p.records.Alike (RecordM.skip n) := by
  have hnext : ∀ n, p.records.Alike (RecordM.ofRead (RecordM.skipNext n)) :=
    fun n => ofRead (items hp (itemCalls_skipNext n))
  refine getStanding (fun standing _ _ => by cases standing <;> rfl) fun s => ?_
  obtain ⟨r, standing⟩ := s
  cases standing with
  | ended => exact .pure _
  | reading => exact (hnext n).bind fun result => (setStanding _).bind fun _ => .pure _
  | owing count value =>
    refine (setStanding _).bind fun _ => ?_
    split
    · exact .pure _
    · exact (hnext _).bind fun result => (setStanding _).bind fun _ => .pure _

theorem finish : p.records.Alike RecordM.finish := by
  refine getStanding (fun standing _ _ => by cases standing <;> rfl) fun s => ?_
  obtain ⟨r, standing⟩ := s
  cases standing with
  | ended => exact .pure _
  | _ => exact ofRead (items hp itemCalls_skipToTerminator)

theorem finishRow : p.records.Alike RecordM.finishRow := by
  refine getStanding (fun standing _ _ => by cases standing <;> rfl) fun s => ?_
  obtain ⟨r, standing⟩ := s
  cases standing with
  | ended => exact .pure _
  | _ => exact (ofRead hp.terminator).discard

theorem fields {x : RecordM α} (hx : x.FieldCalls) : p.records.Alike x := by
  induction hx with
  | pure a => exact .pure a
  | bind _ _ hx hf => exact hx.bind hf
  | malformed defect => exact malformedRecord defect
  | name default => exact name hp default
  | numbers mark slots => exact numbers hp mark slots
  | skip n => exact skip hp n

end Fields

end Pairing

end ReservoirDeck
