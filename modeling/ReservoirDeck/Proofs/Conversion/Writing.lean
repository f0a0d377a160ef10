import ReservoirDeck.Deck.Text
import ReservoirDeck.Keyword.Gregorian
import ReservoirDeck.Proofs.Conversion.Runs

/-!
Writing a deck after conversions. A conversion keeps the names that say what the reals of a record
are, and the columns of tables, so what was converted can be converted again, with any multipliers.
Every entry of a run leads back to deck units that way, and the deck has a text.
-/

namespace ReservoirDeck

/-- A marked entry was converted with the multipliers of its mark. -/
def Entry.IsMarked (e : Entry Float) : Prop :=
  ∀ m, e.converted = some m → ∃ k : Keyword Float, k.convert m = .ok e.keyword

namespace Entry

theorem isMarked_visited (m : Multipliers Float) {e : Entry Float} (h : e.IsMarked) :
    (e.visited m).IsMarked := by
  have hconverts := e.converts m
  rw [visited]
  generalize (e.convert m).2 = fault at hconverts
  generalize (e.convert m).1 = e' at hconverts
  cases hconverts with
  | passed hpass =>
    cases hpass with
    | kept => exact h
    | converted hconvert =>
      intro n hn
      cases hn
      exact ⟨_, hconvert⟩
  | refused => exact h
  | panicked =>
    intro n hn
    cases hn

theorem IsMarked.exists_inDeckUnits {e : Entry Float} (h : e.IsMarked) :
    ∃ k, e.inDeckUnits = .ok k := by
  unfold inDeckUnits
  cases hc : e.converted with
  | none => exact ⟨_, rfl⟩
  | some m =>
    obtain ⟨k, hk⟩ := h m hc
    exact ⟨_, (Keyword.convert_again m hk m.inverse).2⟩

end Entry

namespace Deck

theorem exists_writeEntries {entries : List (Entry Float)}
    (h : ∀ e ∈ entries, ∃ k, e.inDeckUnits = .ok k) (w : Writer) :
    ∃ w', writeEntries w entries = .ok w' := by
  induction entries generalizing w with
  | nil => exact ⟨w, rfl⟩
  | cons e entries ih =>
    rw [List.forall_mem_cons] at h
    obtain ⟨k, hk⟩ := h.1
    obtain ⟨w', hw'⟩ := ih h.2 (k.write w)
    refine ⟨w', ?_⟩
    rw [writeEntries, hk]
    exact hw'

theorem exists_write {d : Deck Float} (h : ∀ e ∈ d.entries, ∃ k, e.inDeckUnits = .ok k) :
    ∃ text, d.write = .ok text := by
  cases hname : d.units.keyword? with
  | none =>
    obtain ⟨w, hw⟩ := exists_writeEntries h .empty
    refine ⟨w.text, ?_⟩
    simp only [write, hname, hw]
    rfl
  | some name =>
    obtain ⟨w, hw⟩ := exists_writeEntries h (Writer.empty.keyword name)
    refine ⟨w.text, ?_⟩
    simp only [write, hname, hw]
    rfl

variable {d : Deck Float} {actions : List Action}

/-- Also a pass that is stopped, by an error or a panic, marks only what it has converted. -/
theorem isMarked_run (hd : ∀ e ∈ d.entries, e.IsMarked) :
    ∀ e ∈ (d.run actions).entries, e.IsMarked := by
  induction actions using List.reverseRecOn with
  | nil => exact hd
  | append_singleton actions a ih =>
    rw [run_concat]
    cases a with
    | push k =>
      intro e he
      rcases List.mem_append.mp he with he | hlast
      · exact ih e he
      · rw [List.mem_singleton.mp hlast]
        intro n hn
        cases hn
    | convert order | convertWith m order =>
      exact forall_passEntries (P := Entry.IsMarked) _ (fun e => Entry.isMarked_visited _) order ih

/-- A conversion in deck order is an action of a run, whether it fails or not. -/
theorem exists_run_convertWith (d : Deck Float) (actions : List Action) (m : Multipliers Float) :
    ∃ action, ((d.run actions).convertWith m).1 = d.run (actions ++ [action]) := by
  obtain ⟨order, horder⟩ := convertWith_eq_pass m (d.run actions)
  refine ⟨.convertWith m order, ?_⟩
  rw [horder, run_concat]
  rfl

/-- A deck has a text after whatever was done with it, and also after a conversion that fails: no
converted keyword fails to be converted back. -/
theorem run_writes [Calendar] (d : Deck Float) (hd : d.IsStart) (actions : List Action) :
    (∀ e ∈ (d.run actions).entries, ∃ k, e.inDeckUnits = .ok k) ∧
      (∃ text, (d.run actions).write = .ok text) ∧
      ∀ m, ∃ text, ((d.run actions).convertWith m).1.write = .ok text := by
  have hstart : ∀ e ∈ d.entries, e.IsMarked := by
    intro e he m hm
    rw [hd.unconverted e he] at hm
    cases hm
  have hentries : ∀ actions, ∀ e ∈ (d.run actions).entries, ∃ k, e.inDeckUnits = .ok k :=
    fun actions e he => (isMarked_run hstart e he).exists_inDeckUnits
  have hwrite : ∀ actions, ∃ text, (d.run actions).write = .ok text :=
    fun actions => exists_write (hentries actions)
  refine ⟨hentries actions, hwrite actions, fun m => ?_⟩
  obtain ⟨action, haction⟩ := exists_run_convertWith d actions m
  rw [haction]
  exact hwrite _

/-- Of two well targets one has a control that is not known, so the pass over both fails. The other
is converted, and written in deck units. -/
theorem run_writes_weltarg :
    let target (control : String) : Keyword Float :=
      .typed .weltarg [("P1", .cons control (.cons (.cons (.given 4) .nil) .nil))]
    let actions : List Action :=
      [.push (target "ORAT"), .push (target "XRAT"), .convert [0, 1], .convertWith .identity [1, 0]]
    let d := (empty .field).run actions
    (empty .field : Deck Float).IsStart ∧ d.entries.map (·.converted.isSome) = [true, false] ∧
      ((target "XRAT").convert UnitSystem.field.multipliers).toOption.isNone = true ∧
      ∃ text, d.write = .ok text := by
  intro target actions d
  have hd : (empty .field : Deck Float).IsStart := Or.inl ⟨.field, rfl⟩
  have hmarks : d.entries.map (·.converted.isSome) = [true, false] := by decide
  have hfails : ((target "XRAT").convert UnitSystem.field.multipliers).toOption.isNone = true := by
    decide
  exact ⟨hd, hmarks, hfails, (run_writes _ hd actions).2.1⟩

end Deck

end ReservoirDeck
