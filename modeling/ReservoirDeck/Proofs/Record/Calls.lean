import ReservoirDeck.Keyword.Layout
import ReservoirDeck.Proofs.Reading.Run

/-!
Sequences of calls. Whatever reads a record does so through the calls of its reader, and knows nothing
of the record but what they gave. What every call keeps, all of it keeps.
-/

namespace ReservoirDeck

/-- An action that may fail. The record is then left as the failure left it, and its cause is given. -/
def RecordM.attempt {α : Type} (x : RecordM α) : RecordM (Except Cause α) := fun s =>
  match x s with
  | .ok a s' => .ok (.ok a) s'
  | .error e s' => .ok (.error e.cause) s'

/-- A sequence of calls. Which call comes next may depend on what the ones before it gave. The
sequence may fail at any point, and may go on after a call that failed. -/
inductive RecordM.Calls : {α : Type} → RecordM α → Prop
  | pure {α : Type} (a : α) : Calls (Pure.pure a)
  | bind {α β : Type} {x : RecordM α} {f : α → RecordM β} (hx : Calls x) (hf : ∀ a, Calls (f a)) :
    Calls (x >>= f)
  | fail {α : Type} (cause : Cause) : Calls (RecordM.fail cause : RecordM α)
  | attempt {α : Type} {x : RecordM α} (hx : Calls x) : Calls (RecordM.attempt x)
  | isEnded : Calls RecordM.isEnded
  | name (default : String) : Calls (RecordM.name default)
  | numbers {τ σ : Type} [DeckNumber τ] (mark : τ → σ) (slots : List σ) :
    Calls (RecordM.numbers mark slots)
  | skip (n : Nat) : Calls (RecordM.skip n)

/-- What every call keeps of a record, a sequence of them keeps, failed calls included. -/
theorem RecordM.Calls.preserves {α : Type} {P : RecordReader → Prop}
    (hname : ∀ default s, P s → P (Run.state (RecordM.name default s)))
    (hnumbers : ∀ {τ σ : Type} [DeckNumber τ] (mark : τ → σ) (slots : List σ) (s : RecordReader),
      P s → P (Run.state (RecordM.numbers mark slots s)))
    (hskip : ∀ n s, P s → P (Run.state (RecordM.skip n s))) {x : RecordM α}
    (hx : Calls x) (s : RecordReader) (hs : P s) : P (Run.state (x s)) := by
  induction hx generalizing s with
  | pure a => exact hs
  | @bind α β x f _ _ ihx ihf =>
    have hfirst := ihx s hs
    cases h : x s with
    | ok a s' =>
      rw [h] at hfirst
      rw [Run.bind_of_ok f h]
      exact ihf a s' hfirst
    | error e s' =>
      rw [h] at hfirst
      rwa [Run.bind_of_error f h]
  | fail cause => exact hs
  | @attempt α x _ ih =>
    have hfirst := ih s hs
    unfold RecordM.attempt
    cases h : x s <;> rwa [h] at hfirst
  | isEnded => exact hs
  | name default => exact hname default s hs
  | numbers mark slots => exact hnumbers mark slots s hs
  | skip n => exact hskip n s hs

/-- A sequence of calls that goes on only after calls that succeeded, and fails by itself only where the
record is malformed. Whatever reads the fields of a record is one. -/
inductive RecordM.FieldCalls : {α : Type} → RecordM α → Prop
  | pure {α : Type} (a : α) : FieldCalls (Pure.pure a)
  | bind {α β : Type} {x : RecordM α} {f : α → RecordM β} (hx : FieldCalls x)
    (hf : ∀ a, FieldCalls (f a)) : FieldCalls (x >>= f)
  | malformed {α : Type} (defect : Defect) : FieldCalls (RecordM.malformed defect : RecordM α)
  | name (default : String) : FieldCalls (RecordM.name default)
  | numbers {τ σ : Type} [DeckNumber τ] (mark : τ → σ) (slots : List σ) :
    FieldCalls (RecordM.numbers mark slots)
  | skip (n : Nat) : FieldCalls (RecordM.skip n)

theorem RecordM.FieldCalls.calls {α : Type} {x : RecordM α} (h : FieldCalls x) : Calls x := by
  induction h with
  | pure a => exact .pure a
  | bind _ _ hx hf => exact .bind hx hf
  | malformed defect => exact .fail _
  | name default => exact .name default
  | numbers mark slots => exact .numbers mark slots
  | skip n => exact .skip n

namespace RecordM.FieldCalls

variable {α τ : Type} [DeckNumber τ]

theorem requiredName (what : String) : FieldCalls (RecordM.requiredName what) := by
  apply bind (.name "")
  intro n
  cases n with
  | given s => exact .pure s
  | missing s => exact .malformed _

theorem optionalNumbers (count : Nat) : FieldCalls (RecordM.optionalNumbers τ count) :=
  .numbers some (List.replicate count none)

theorem number (default : τ) : FieldCalls (RecordM.number default) :=
  (optionalNumbers 1).bind fun _ => .pure _

theorem requiredNumber (what : String) : FieldCalls (RecordM.requiredNumber τ what) := by
  apply bind (optionalNumbers 1)
  intro entries
  dsimp only
  split
  · exact .pure _
  · exact .malformed _

end RecordM.FieldCalls

theorem RecordM.Calls.optionalNumbers {τ : Type} [DeckNumber τ] (count : Nat) :
    Calls (RecordM.optionalNumbers τ count) :=
  (FieldCalls.optionalNumbers count).calls

open RecordM

theorem Row.calls_generateM {ι : Type} {V : ι → Type} {make : (i : ι) → RecordM (V i)}
    (h : ∀ i, FieldCalls (make i)) (is : List ι) : FieldCalls (Row.generateM make is) := by
  induction is with
  | nil => exact .pure _
  | cons i is ih => exact (h i).bind fun v => ih.bind fun vs => .pure _

theorem Field.calls_read (leader : String) (field : Field) : FieldCalls (field.read leader) := by
  cases field with
  | name label default => exact .name default
  | requiredName label what => exact .requiredName what
  | answer label => exact (FieldCalls.name "NO").bind fun answer => .pure _
  | reals slots incomplete =>
    apply FieldCalls.bind (.optionalNumbers slots.length)
    intro entries
    dsimp only
    split
    · exact .pure _
    · exact .malformed _
  | ints slots incomplete =>
    apply FieldCalls.bind (.optionalNumbers slots.length)
    intro entries
    dsimp only
    split
    · exact .pure _
    · exact .malformed _
  | companions first what second =>
    exact (FieldCalls.requiredNumber what).bind fun x => (FieldCalls.number (-1)).bind fun y => .pure _
  | skipped count => exact (FieldCalls.skip count).bind fun _ => .pure _

theorem Record.calls_read (leader : String) (fields : List Field) :
    FieldCalls (Record.read leader fields) :=
  Row.calls_generateM (Field.calls_read leader) fields

theorem Date.calls_read [Calendar] (day : String) : FieldCalls (Date.read day) := by
  apply FieldCalls.bind (.requiredName "month")
  intro month
  apply FieldCalls.bind (.requiredNumber "year")
  intro year
  dsimp only
  split
  · exact .pure _
  · exact .malformed _

end ReservoirDeck
