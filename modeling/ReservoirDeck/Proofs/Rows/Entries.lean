import ReservoirDeck.Proofs.Reading.Layouts
import ReservoirDeck.Proofs.Record.OpenQuotes
import ReservoirDeck.Proofs.Table.DepthRows

/-!
Rows of reals, from the entries that their items stand for. The fields of a row are read in runs of
slots. Where no run ends inside an item, what the row holds depends on its entries alone, and not on
whether a slash follows them.
-/

namespace ReservoirDeck

open Item (expand)

namespace Field

/-- The sizes of the runs of slots that a field of reals is read in. -/
def runs : Field → List Nat
  | .reals slots _ => [slots.length]
  | .companions .. => [1, 1]
  | _ => []

/-- Fields that hold reals, and nothing else. -/
def IsReal : Field → Prop
  | .reals .. | .companions .. => True
  | _ => False

/-- What a field of reals makes of its entries. Those that are not there are left out. No other field
stands in a row. -/
def ofEntries : (field : Field) → List (Option Float) → Except Cause (field.Value Float)
  | .reals slots incomplete, es =>
    match Row.ofEntries? RealSlot.ofEntry? slots es with
    | some values => .ok values
    | none => .error (.malformed incomplete)
  | .companions _ what _, es =>
    match es.head?.join with
    | some first => .ok (first, (Defaulted.ofOption (-1) es.tail.head?.join).map fun x =>
        if x < 0 then first else x)
    | none => .error (.malformed (.required what))
  | _, _ => .error (.malformed .rowExpected)

end Field

namespace Record

/-- The sizes of the runs that the reals of a record are read in. -/
def runs (fields : List Field) : List Nat :=
  fields.flatMap Field.runs

/-- What a record of reals makes of its entries, field by field. -/
def ofEntries : (fields : List Field) → List (Option Float) → Except Cause (Record Float fields)
  | [], _ => .ok .nil
  | field :: fields, es => do
    let v ← field.ofEntries es
    let vs ← ofEntries fields (es.drop field.runs.sum)
    return .cons v vs

end Record

/-- The entries that a run of `n` slots is filled with. -/
def padded (n : Nat) (es : List (Option Float)) : List (Option Float) :=
  es.take n ++ List.replicate (n - es.length) none

theorem padded_succ (n : Nat) (es : List (Option Float)) :
    padded (n + 1) es = es.head?.join :: padded n es.tail := by
  cases es with
  | nil => simp [padded, List.replicate_succ]
  | cons e es => simp [padded]

theorem Row.ofEntries?_padded {ι : Type} {V : ι → Type} (make : (i : ι) → Option Float → Option (V i))
    (is : List ι) (es : List (Option Float)) :
    Row.ofEntries? make is (padded is.length es) = Row.ofEntries? make is es := by
  induction is generalizing es with
  | nil => rfl
  | cons i is ih =>
    rw [List.length_cons, padded_succ, ofEntries?, ofEntries?, List.head?_cons, List.tail_cons, ih]
    rfl

section Runs

variable {τ σ : Type} [DeckNumber τ] {mark : τ → σ} {slots : List σ} {front items rest : List (Item τ)}
  {r m e d : DeckReader}

omit [DeckNumber τ] in
/-- Items that can be read in runs of these sizes: every run takes whole items, and the last one may
have slots left. -/
inductive Item.Fits : List Nat → List (Item τ) → Prop
  | nil : Fits [] []
  | full {n : Nat} {ns : List Nat} {front rest : List (Item τ)} (hfront : (expand front).length = n)
    (hrest : Fits ns rest) : Fits (n :: ns) (front ++ rest)
  | short {n : Nat} {ns : List Nat} {items : List (Item τ)} (h : (expand items).length < n) :
    Fits (n :: ns) items

theorem DeckReader.ReadsItems.split (h : r.ReadsItems (front ++ rest) e) :
    ∃ m, r.ReadsItems front m ∧ m.ReadsItems rest e := by
  induction front generalizing r with
  | nil => exact ⟨r, .nil r, h⟩
  | cons i front ih =>
    cases h with
    | cons htoken ht hi h =>
      obtain ⟨m, hfront, hrest⟩ := ih h
      exact ⟨m, .cons htoken ht hi hfront, hrest⟩

/-- Slots that the items ahead fill exactly; what comes behind them is not looked at. -/
theorem fillSlots_of_exact (mark : τ → σ) (h : r.ReadsItems items m)
    (hlen : (expand items).length = slots.length) :
    fillSlots mark slots r = (⟨overlay mark (expand items) slots, slots.length, .full 0⟩, m) := by
  induction h generalizing slots with
  | nil r =>
    obtain rfl : slots = [] := List.length_eq_zero_iff.mp hlen.symm
    exact fillSlots_nil mark r
  | @cons r r' e t i items h ht hi _ ih =>
    rw [Item.expand_cons, List.length_append] at hlen
    have hfits : i.entries.length ≤ slots.length := by omega
    have hdrop : (expand items).length = (slots.drop i.entries.length).length := by
      rw [List.length_drop]
      omega
    have htake : (slots.take i.entries.length).length = i.entries.length :=
      List.length_take_of_le hfits
    rw [fillSlots_of_fits h ht hi hfits, ih hdrop, Item.expand_cons, overlay_append mark hfits]
    simp only [SlotRun.after, length_overlay, htake, ← hdrop, hlen]

end Runs

theorem DeckReader.SlashAhead.terminator {e d : DeckReader} (h : e.SlashAhead d) :
    e.terminator = (true, d.skipLine) := by
  obtain ⟨d', hslash, heq⟩ | ⟨hopen, -⟩ := e.terminator_cases
  · obtain ⟨t, htoken, -⟩ := h
    obtain ⟨t', htoken', -⟩ := hslash
    cases htoken.symm.trans htoken'
    exact heq
  · exact absurd h (hopen d)

/-- A record that is still to be read in runs of these sizes has these entries left, and ends at this
place. Unless the entries fill the runs, a slash is behind them. -/
inductive RecordReader.Holds : RecordReader → List Nat → List (Option Float) → DeckReader → Prop
  | reading {ns : List Nat} {items : List (Item Float)} {r e : DeckReader}
    (hitems : r.ReadsItems items e) (hfits : Item.Fits ns items)
    (hends : (expand items).length = ns.sum ∨ ∃ d, e.SlashAhead d) :
    Holds ⟨r, .reading⟩ ns (expand items) e.terminator.2
  | ended (ns : List Nat) (r : DeckReader) : Holds ⟨r, .ended⟩ ns [] r

variable {s : RecordReader} {ns : List Nat} {n : Nat} {es : List (Option Float)} {p : DeckReader}

theorem RecordReader.Holds.step (h : s.Holds (n :: ns) es p) :
    ∃ visited s', RecordM.optionalNumbers Float n s = .ok (visited, padded n es) s' ∧
      s'.Holds ns (es.drop n) p := by
  have hslots : (List.replicate n (none : Option Float)).length = n := List.length_replicate
  cases h with
  | ended =>
    refine ⟨0, ⟨p, .ended⟩, ?_, ?_⟩
    · simp [padded, RecordM.optionalNumbers, RecordM.numbers]
    · simpa using .ended ns p
  | @reading _ items r e hitems hfits hends =>
    cases hfits with
    | @full _ _ front rest hfront hrest =>
      obtain ⟨m, hreads, hothers⟩ := hitems.split
      have hexpand : expand (front ++ rest) = expand front ++ expand rest := Item.expand_append ..
      refine ⟨n, ⟨m, .reading⟩, ?_, ?_⟩
      · rw [RecordM.optionalNumbers_eq, RecordM.fillNext,
          fillSlots_of_exact some hreads (hfront.trans hslots.symm), overlay_full hfront.ge, hslots,
          hexpand, padded, List.take_append_of_le_length hfront.ge]
        simp [Standing.owe, hfront]
      · rw [hexpand, List.drop_left' hfront]
        refine .reading hothers hrest (hends.imp_left fun hlen => ?_)
        rw [hexpand, List.length_append, List.sum_cons] at hlen
        omega
    | short hshort =>
      have hslash : ∃ d, e.SlashAhead d := hends.resolve_left fun hlen => by
        rw [List.sum_cons] at hlen
        omega
      obtain ⟨d, hslash⟩ := hslash
      refine ⟨(expand items).length, ⟨d.skipLine, .ended⟩, ?_, ?_⟩
      · rw [RecordM.optionalNumbers_eq, RecordM.fillNext,
          fillSlots_of_room some hitems hslash (by omega), overlay_empty (Nat.le_of_lt hshort),
          padded, List.take_of_length_le (Nat.le_of_lt hshort)]
      · rw [List.drop_eq_nil_of_le (Nat.le_of_lt hshort), hslash.terminator]
        exact .ended ns _

theorem RecordReader.Holds.finishRow (h : s.Holds [] es p) :
    ∃ s', RecordM.finishRow s = .ok () s' ∧ s'.reader = p := by
  cases h with
  | ended => exact ⟨⟨p, .ended⟩, rfl, rfl⟩
  | @reading _ items r e hitems hfits _ =>
    cases hfits with
    | nil =>
      cases hitems with
      | nil => exact ⟨⟨r.terminator.2, .reading⟩, rfl, rfl⟩

namespace Run

variable {σ α β : Type}

/-- A run ends as expected: with this value in such a state, or for this cause. -/
inductive Gives (After : σ → Prop) : EStateM.Result DeckError σ α → Except Cause α → Prop
  | ok {a : α} {s : σ} (h : After s) : Gives After (.ok a s) (.ok a)
  | error (e : DeckError) (s : σ) : Gives After (.error e s) (.error e.cause)

theorem Gives.bind {After Next : σ → Prop} {x : EStateM DeckError σ α} {y : Except Cause α}
    {f : α → EStateM DeckError σ β} {g : α → Except Cause β} {s : σ} (hx : Gives After (x s) y)
    (hf : ∀ a s', After s' → Gives Next (f a s') (g a)) : Gives Next ((x >>= f) s) (y >>= g) := by
  generalize hrun : x s = result at hx
  cases hx with
  | ok h =>
    rw [bind_of_ok f hrun]
    exact hf _ _ h
  | error e s' =>
    rw [bind_of_error f hrun]
    exact .error e s'

theorem Gives.bind_error {After Next : σ → Prop} {x : EStateM DeckError σ α} {cause : Cause} {s : σ}
    (hx : Gives After (x s) (.error cause)) (f : α → EStateM DeckError σ β) :
    Gives Next ((x >>= f) s) (.error cause) := by
  generalize hrun : x s = result at hx
  cases hx with
  | error e s' =>
    rw [bind_of_error f hrun]
    exact .error e s'

end Run

open Run (Gives)

/-- A field of reals makes of what comes next what it makes of the entries. -/
theorem Field.read_gives {field : Field} (hreal : field.IsReal) {leader : String}
    (h : s.Holds (field.runs ++ ns) es p) :
    Gives (·.Holds ns (es.drop field.runs.sum) p) (field.read leader s) (field.ofEntries es) := by
  cases field with
  | reals slots incomplete =>
    obtain ⟨visited, s', hnumbers, hrest⟩ := h.step
    rw [Field.read, Run.bind_of_ok _ hnumbers]
    dsimp only
    rw [Row.ofEntries?_padded, ofEntries]
    cases Row.ofEntries? RealSlot.ofEntry? slots es with
    | some values => exact .ok (by simpa [runs] using hrest)
    | none => exact .error _ _
  | companions first what second =>
    obtain ⟨visited, s', hnumbers, hrest⟩ := h.step
    obtain ⟨visited', s'', hnumbers', hrest'⟩ := RecordReader.Holds.step hrest
    have hsecond : RecordM.number (-1 : Float) s' =
        .ok (.ofOption (-1) es.tail.head?.join) s'' := by
      rw [RecordM.number, Run.bind_of_ok _ hnumbers', List.drop_one, padded_succ]
      rfl
    cases hhead : es.head?.join with
    | none =>
      have hfirst : RecordM.requiredNumber Float what s =
          .error (s'.reader.error (.malformed (.required what))) s' := by
        rw [RecordM.requiredNumber, Run.bind_of_ok _ hnumbers, padded_succ, hhead]
        rfl
      rw [Field.read, Run.bind_of_error _ hfirst, ofEntries, hhead]
      exact .error _ _
    | some x =>
      have hfirst : RecordM.requiredNumber Float what s = .ok x s' := by
        rw [RecordM.requiredNumber, Run.bind_of_ok _ hnumbers, padded_succ, hhead]
        rfl
      rw [Field.read, Run.bind_of_ok _ hfirst, Run.bind_of_ok _ hsecond, ofEntries, hhead]
      exact .ok (by simpa [runs] using hrest')
  | _ => exact hreal.elim

theorem Record.read_gives {fields : List Field} (hreal : ∀ field ∈ fields, field.IsReal)
    {leader : String} (h : s.Holds (runs fields) es p) :
    Gives (·.Holds [] (es.drop (runs fields).sum) p) (Record.read leader fields s)
      (ofEntries fields es) := by
  induction fields generalizing s es with
  | nil => exact .ok h
  | cons field fields ih =>
    obtain ⟨hfield, hfields⟩ := List.forall_mem_cons.mp hreal
    rw [runs, List.flatMap_cons] at h
    refine (Field.read_gives hfield h).bind fun v s' hrest => ?_
    refine (ih hfields hrest).bind fun vs s'' hend => ?_
    refine .ok ?_
    simpa [runs, List.drop_drop] using hend

end ReservoirDeck
