import ReservoirDeck.Proofs.Reading.Items
import ReservoirDeck.Proofs.Text.Words

/-!
Runs of written words. A field reads back if, wherever its words stand in a record, it reads exactly
them. Fields that read back make records that do.
-/

namespace ReservoirDeck

/-- Bytes that hold these words in order, each after blanks or right at the start. -/
inductive Spells : List String → List UInt8 → Prop
  | nil : Spells [] []
  | cons {gap x : List UInt8} {w : String} {ws : List String} (hgap : Blank gap) (hx : Separated x)
      (h : Spells ws x) : Spells (w :: ws) (gap ++ (Text.bytes w ++ x))

variable {ws vs : List String}

theorem Spells.split {z : List UInt8} (h : Spells (ws ++ vs) z) :
    ∃ x y, z = x ++ y ∧ Spells ws x ∧ Spells vs y ∧ (ws ≠ [] → Separated y) := by
  induction ws generalizing z with
  | nil => exact ⟨[], z, rfl, .nil, h, fun hne => absurd rfl hne⟩
  | cons w ws ih =>
    rw [List.cons_append] at h
    cases h with
    | @cons gap _ _ _ hgap hx h =>
      obtain ⟨x', y, rfl, hws, hvs, hsep⟩ := ih h
      have hx' : Separated x' := by
        cases x' with
        | nil => exact separated_nil
        | cons b x' => exact hx
      refine ⟨gap ++ (Text.bytes w ++ x'), y, by simp, .cons hgap hx' hws, hvs, fun _ => ?_⟩
      cases ws with
      | nil =>
        cases hws
        exact hx
      | cons v ws => exact hsep (List.cons_ne_nil v ws)

theorem Spells.uncons {w : String} {z : List UInt8} (h : Spells (w :: ws) z) :
    ∃ x y, z = x ++ y ∧ Spells [w] x ∧ Spells ws y ∧ Separated y := by
  rw [← List.singleton_append] at h
  obtain ⟨x, y, hz, hx, hy, hsep⟩ := h.split
  exact ⟨x, y, hz, hx, hy, hsep (List.cons_ne_nil w [])⟩

theorem Spells.append {x y : List UInt8} (hx : Spells ws x) (hy : Spells vs y)
    (hsep : ws ≠ [] → Separated y) : Spells (ws ++ vs) (x ++ y) := by
  induction hx with
  | nil => exact hy
  | @cons gap x w ws hgap hx h ih =>
    have hsep' := hsep (List.cons_ne_nil w ws)
    rw [List.append_assoc, List.append_assoc]
    exact .cons hgap (hx.append hsep') (ih fun _ => hsep')

theorem Spells.gap {gap z : List UInt8} (hgap : Blank gap) (h : Spells ws z) (hws : ws ≠ []) :
    Spells ws (gap ++ z) := by
  cases h with
  | nil => exact absurd rfl hws
  | @cons gap' x w ws hgap' hx h =>
    rw [← List.append_assoc]
    refine .cons (fun b hb => ?_) hx h
    exact (List.mem_append.mp hb).elim (hgap b) (hgap' b)

theorem Spells.token? {w t : String} {q : Quoting} {z rest : List UInt8} (hz : Spells [w] z)
    (hw : Word w t q) {r : DeckReader} (hr : r.cursor.rest = z ++ rest) (hrest : Separated rest) :
    ∃ start, r.token? = (some ⟨t, q, start⟩, r.forward z.length) := by
  cases hz with
  | cons hgap _ hnil =>
    cases hnil
    rw [List.append_nil] at hr ⊢
    rw [List.append_assoc] at hr
    exact ⟨_, by rw [hw.token? hgap hr hrest, List.length_append]⟩

/-- From wherever these words come next in a record, they are read as the value. -/
def FieldReads {α : Type} (x : RecordM α) (ws : List String) (a : α) : Prop :=
  ∀ (r : DeckReader) (z rest : List UInt8), Spells ws z → r.cursor.rest = z ++ rest →
    (ws ≠ [] → Separated rest) → x ⟨r, .reading⟩ = .ok a ⟨r.forward z.length, .reading⟩

/-- From wherever these words and a slash come next, they are read as the value, and the line of the
slash is passed. -/
def FieldEnds {α : Type} (x : RecordM α) (ws : List String) (a : α) : Prop :=
  ∀ (r : DeckReader) (z rest : List UInt8), Spells (ws ++ ["/"]) z →
    r.cursor.rest = z ++ Byte.newline :: rest →
    x ⟨r, .reading⟩ = .ok a ⟨r.forward (z.length + 1), .ended⟩

variable {α β : Type}

theorem FieldReads.pure (a : α) : FieldReads (pure a) [] a := by
  intro r z rest hz _ _
  cases hz
  rfl

theorem FieldReads.bind {x : RecordM α} {f : α → RecordM β} {a : α} {b : β}
    (hx : FieldReads x ws a) (hf : FieldReads (f a) vs b) : FieldReads (x >>= f) (ws ++ vs) b := by
  intro r z rest hz hr hrest
  obtain ⟨x', y, rfl, hws, hvs, hsep⟩ := hz.split
  rw [List.append_assoc] at hr
  have h₁ := hx r x' (y ++ rest) hws hr
    fun hne => (hsep hne).append (hrest (by simp [hne]))
  have h₂ := hf (r.forward x'.length) y rest hvs (DeckReader.rest_forward_length hr)
    fun hne => hrest (by simp [hne])
  rw [Run.bind_of_ok f h₁, h₂, DeckReader.forward_forward, List.length_append]

theorem FieldReads.bind_nil {x : RecordM α} {f : α → RecordM β} {a : α} {b : β}
    (hx : FieldReads x ws a) (hf : FieldReads (f a) [] b) : FieldReads (x >>= f) ws b := by
  have h := hx.bind hf
  rwa [List.append_nil] at h

theorem FieldReads.bind_ends {x : RecordM α} {f : α → RecordM β} {a : α} {b : β}
    (hx : FieldReads x ws a) (hf : FieldEnds (f a) vs b) : FieldEnds (x >>= f) (ws ++ vs) b := by
  intro r z rest hz hr
  rw [List.append_assoc] at hz
  obtain ⟨x', y, rfl, hws, hvs, hsep⟩ := hz.split
  rw [List.append_assoc] at hr
  have hline : Separated (Byte.newline :: rest) := separated_cons.mpr rfl
  have h₁ := hx r x' (y ++ Byte.newline :: rest) hws hr (fun hne => (hsep hne).append hline)
  have h₂ := hf (r.forward x'.length) y rest hvs (DeckReader.rest_forward_length hr)
  rw [Run.bind_of_ok f h₁, h₂, DeckReader.forward_forward, List.length_append, Nat.add_assoc]

theorem FieldEnds.bind {x : RecordM α} {f : α → RecordM β} {a : α} {b : β} (hx : FieldEnds x ws a)
    (hf : ∀ s, f a s = .ok b s) : FieldEnds (x >>= f) ws b := by
  intro r z rest hz hr
  rw [Run.bind_of_ok f (hx r z rest hz hr), hf]

end ReservoirDeck
