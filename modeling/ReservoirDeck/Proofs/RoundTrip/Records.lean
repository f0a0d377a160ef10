import ReservoirDeck.Keyword.Layout
import ReservoirDeck.Proofs.RoundTrip.Fields

/-!
Records read back. A record is its fields and a slash; only its last field may leave slots over,
which the slash leaves out.
-/

namespace ReservoirDeck

variable {α β : Type} {ws vs : List String}

/-- From these words and a slash, the value is read; the slash may be read along with the words. -/
def RecordReads (x : RecordM α) (ws : List String) (a : α) : Prop :=
  FieldReads x ws a ∨ FieldEnds x ws a

theorem RecordReads.bind {x : RecordM α} {f : α → RecordM β} {a : α} {b : β}
    (hx : FieldReads x ws a) (hf : RecordReads (f a) vs b) :
    RecordReads (x >>= f) (ws ++ vs) b :=
  hf.imp hx.bind hx.bind_ends

theorem RecordReads.bind_pure {x : RecordM α} {a : α} (f : α → β) (hx : RecordReads x ws a) :
    RecordReads (x >>= fun a => return f a) ws (f a) := by
  refine hx.imp (fun hx => ?_) fun hx => hx.bind fun _ => rfl
  have h := hx.bind (f := fun a => return f a) (.pure (f a))
  rwa [List.append_nil] at h

namespace Record

/-- Only the last field may leave slots over. -/
def isWritable : List Field → Bool
  | [] => true
  | field :: fields =>
    field.isWritable && (field.isFull || fields.isEmpty) && isWritable fields

def Sound {fields : List Field} (r : Record Float fields) : Prop :=
  Row.All Field.Sound r

theorem reads (leader : String) {fields : List Field} (hw : isWritable fields = true)
    (r : Record Float fields) (hr : r.Sound) (hreal : ∀ x ∈ r.stored, x.isFinite = true) :
    RecordReads (Record.read leader fields) r.tokens r := by
  induction r with
  | nil => exact .inl (.pure _)
  | @cons field fields v vs ih =>
    simp only [isWritable, Bool.and_eq_true] at hw
    obtain ⟨⟨hfield, hlast⟩, hfields⟩ := hw
    have hv : ∀ x ∈ field.stored v, x.isFinite = true :=
      fun x hx => hreal x (by simp [stored, Row.collect, hx])
    have hvs : ∀ x ∈ stored vs, x.isFinite = true :=
      fun x hx => hreal x (by simp [stored, Row.collect] at hx ⊢; simp [hx])
    by_cases hfull : field.isFull = true
    · exact .bind (Field.reads leader hfield hfull hr.1 hv)
        ((ih hfields hr.2 hvs).bind_pure (Row.cons v ·))
    · rw [Bool.not_eq_true] at hfull
      obtain rfl : fields = [] := by simpa [hfull] using hlast
      cases vs
      have h := (Field.ends leader hfield hfull hr.1 hv).bind
        (f := fun v => do
          let vs ← Row.generateM (Field.read leader) []
          return Row.cons v vs) (b := .cons v .nil) fun _ => rfl
      have htokens : tokens (.cons v .nil) = field.tokens v := by simp [tokens, Row.collect]
      exact .inr (htokens ▸ h)

end Record

theorem DeckReader.terminator_slash {r : DeckReader} {z rest : List UInt8} (hz : Spells ["/"] z)
    (hr : r.cursor.rest = z ++ Byte.newline :: rest) :
    r.terminator = (true, r.forward (z.length + 1)) := by
  cases hz with
  | @cons gap _ _ _ hgap _ hnil =>
    cases hnil
    have hr' : r.cursor.rest = gap ++ Byte.slash :: (Byte.newline :: rest) := by
      rw [hr]
      simp only [List.append_assoc, List.append_nil]
      rfl
    have hskip := skipTrivia_of_gap hgap hr' rfl fun h => absurd h.1 (by decide)
    have hhere : (r.forward gap.length).cursor.rest = Byte.slash :: (Byte.newline :: rest) :=
      DeckReader.rest_forward_length hr'
    have hline := skipLine_of_line (w := [Byte.slash]) (by decide) hhere
    have hsize : gap.length + ([Byte.slash].length + 1) =
        (gap ++ (Text.bytes "/" ++ [])).length + 1 := by
      rw [List.append_nil, List.length_append]
      rfl
    simp only [DeckReader.terminator, hskip, hhere, hline, DeckReader.forward_forward, hsize,
      List.head?_cons, if_true]

namespace ReadM

theorem run_reads (finish : RecordM Unit) {x : RecordM α} {a : α} (hx : RecordReads x ws a)
    (hended : ∀ r, finish ⟨r, .ended⟩ = .ok () ⟨r, .ended⟩)
    (hslash : ∀ r z rest, Spells ["/"] z → r.cursor.rest = z ++ Byte.newline :: rest →
      finish ⟨r, .reading⟩ = .ok () ⟨r.forward (z.length + 1), .reading⟩)
    {r : DeckReader} {z rest : List UInt8} (hz : Spells (ws ++ ["/"]) z)
    (hr : r.cursor.rest = z ++ Byte.newline :: rest) :
    RecordM.run (do
      let values ← x
      finish
      return values) r = .ok a (r.forward (z.length + 1)) := by
  rcases hx with hx | hx
  · obtain ⟨z', y, rfl, hws, hy, hsep⟩ := hz.split
    rw [List.append_assoc] at hr
    have h₁ := hx r z' _ hws hr fun hne => (hsep hne).append (separated_cons.mpr rfl)
    have h₂ := hslash (r.forward z'.length) y rest hy (DeckReader.rest_forward_length hr)
    rw [RecordM.run, Run.bind_of_ok _ h₁, Run.bind_of_ok _ h₂]
    simp [Nat.add_assoc]
  · have h₁ := hx r z rest hz hr
    rw [RecordM.run, Run.bind_of_ok _ h₁, Run.bind_of_ok _ (hended _)]
    simp

theorem record_reads {x : RecordM α} {a : α} (hx : RecordReads x ws a) {r : DeckReader}
    {z rest : List UInt8} (hz : Spells (ws ++ ["/"]) z)
    (hr : r.cursor.rest = z ++ Byte.newline :: rest) :
    ReadM.record x r = .ok a (r.forward (z.length + 1)) := by
  refine run_reads RecordM.finish hx (fun _ => rfl) (fun r z rest hz hr => ?_) hz hr
  obtain ⟨t, r', htoken, ht, hline⟩ := slash_line hz hr
  have h := RecordM.skipToTerminator_terminator htoken ht
  rw [hline] at h
  rw [RecordM.finish, Run.bind_get_eq]
  exact RecordM.ofRead_of_ok h

theorem row_reads {x : RecordM α} {a : α} (hx : RecordReads x ws a) {r : DeckReader}
    {z rest : List UInt8} (hz : Spells (ws ++ ["/"]) z)
    (hr : r.cursor.rest = z ++ Byte.newline :: rest) :
    RecordM.run (do
      let values ← x
      RecordM.finishRow
      return values) r = .ok a (r.forward (z.length + 1)) := by
  refine run_reads RecordM.finishRow hx (fun _ => rfl) (fun r z rest hz hr => ?_) hz hr
  have h : ReadM.terminator r = .ok true (r.forward (z.length + 1)) := by
    rw [ReadM.terminator, Run.modifyGet_eq, DeckReader.terminator_slash hz hr]
  rw [RecordM.finishRow, Run.bind_get_eq]
  exact Run.discard_eq_ok.mpr ⟨true, RecordM.ofRead_of_ok h⟩

end ReadM

end ReservoirDeck
