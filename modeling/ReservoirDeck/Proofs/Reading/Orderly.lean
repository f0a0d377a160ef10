import ReservoirDeck.Proofs.Reading.Calls

/-!
How every reader of a body runs, whether it succeeds or fails: it only moves forward, never beyond the
end of the text, and its error is one of the place at which it stopped.
-/

namespace ReservoirDeck

namespace Cursor

variable {c c' c'' : Cursor}

/-- A place of the same text, not before this one and not beyond the end. -/
def Reaches (c c' : Cursor) : Prop :=
  ∃ n ≤ c.remaining, c' = c.forward n

theorem Reaches.refl (c : Cursor) : c.Reaches c :=
  ⟨0, Nat.zero_le _, rfl⟩

theorem Reaches.trans (h : c.Reaches c') (h' : c'.Reaches c'') : c.Reaches c'' := by
  obtain ⟨m, hm, rfl⟩ := h
  obtain ⟨n, hn, rfl⟩ := h'
  rw [remaining_forward] at hn
  exact ⟨m + n, by omega, c.forward_forward m n⟩

theorem Reaches.forward (h : c.Reaches c') : ∃ n, c' = c.forward n := by
  obtain ⟨n, -, rfl⟩ := h
  exact ⟨n, rfl⟩

theorem Reaches.remaining_le (h : c.Reaches c') : c'.remaining ≤ c.remaining := by
  obtain ⟨n, -, rfl⟩ := h
  exact c.remaining_forward_le n

theorem Reaches.pos_lt (h : c.Reaches c') (hlt : c'.remaining < c.remaining) : c.pos < c'.pos := by
  obtain ⟨n, -, rfl⟩ := h
  rw [remaining_forward] at hlt
  rw [pos_forward]
  omega

end Cursor

/-- A place further on, while the same keyword is read. -/
structure DeckReader.Reaches (r r' : DeckReader) : Prop where
  cursor : r.cursor.Reaches r'.cursor
  keyword : r'.keyword = r.keyword

theorem DeckReader.Reaches.refl (r : DeckReader) : r.Reaches r where
  cursor := .refl r.cursor
  keyword := rfl

theorem DeckReader.Reaches.trans {r r' r'' : DeckReader} (h : r.Reaches r') (h' : r'.Reaches r'') :
    r.Reaches r'' where
  cursor := h.cursor.trans h'.cursor
  keyword := h'.keyword.trans h.keyword

theorem Cursor.triviaSize_le (inComment : Bool) (bs : List UInt8) :
    triviaSize inComment bs ≤ bs.length := by
  fun_induction triviaSize inComment bs with
  | case1 => exact Nat.le_refl 0
  | case5 => exact Nat.zero_le _
  | _ => simpa

theorem Cursor.lineSize_le (bs : List UInt8) : lineSize bs ≤ bs.length := by
  fun_induction lineSize bs with
  | case1 => exact Nat.le_refl 0
  | case2 => simp
  | case3 => simpa

theorem Lexeme.size_ofBytes_le (first : UInt8) (rest : List UInt8) :
    (ofBytes first rest).size ≤ rest.length + 1 := by
  have hinside : (rest.takeWhile fun b => b != Byte.quote && b != Byte.newline).length ≤
      rest.length := (List.takeWhile_sublist _).length_le
  have hword : (rest.takeWhile (!Byte.endsBare ·)).length ≤ rest.length :=
    (List.takeWhile_sublist _).length_le
  unfold ofBytes
  split
  · unfold afterQuote
    dsimp only
    split
    · next hclosed =>
      obtain ⟨tl, hdrop⟩ := List.head?_eq_some_iff.mp hclosed
      have hlen := congrArg List.length hdrop
      rw [List.length_drop, List.length_cons] at hlen
      dsimp only
      omega
    · dsimp only
      omega
  · split
    · exact Nat.le_add_left 1 _
    · simpa using hword

namespace DeckReader

variable {r r' : DeckReader} {t? : Option Token}

theorem reaches_skipTrivia (r : DeckReader) : r.Reaches r.skipTrivia where
  cursor := ⟨_, Cursor.triviaSize_le false _, rfl⟩
  keyword := rfl

theorem reaches_skipLine (r : DeckReader) : r.Reaches r.skipLine where
  cursor := ⟨_, Cursor.lineSize_le _, rfl⟩
  keyword := rfl

theorem reaches_token? (h : r.token? = (t?, r')) : r.Reaches r' := by
  cases hrest : r.skipTrivia.cursor.rest with
  | nil =>
    rw [token?_of_nil hrest] at h
    cases h
    exact r.reaches_skipTrivia
  | cons first rest =>
    rw [token?_of_cons hrest] at h
    cases h
    refine r.reaches_skipTrivia.trans ⟨⟨_, ?_, rfl⟩, rfl⟩
    change _ ≤ r.skipTrivia.cursor.rest.length
    rw [hrest]
    exact Lexeme.size_ofBytes_le first rest

theorem rest_of_token?_none (h : r.token? = (none, r')) : r'.cursor.rest = [] := by
  cases hrest : r.skipTrivia.cursor.rest with
  | nil =>
    rw [token?_of_nil hrest] at h
    cases h
    exact hrest
  | cons first rest =>
    rw [token?_of_cons hrest] at h
    cases h

end DeckReader

/-- What can be wrong while the text is read at this place. Whether values fit together and can be
converted is not looked at there. -/
def Cause.ArisesAt (r : DeckReader) : Cause → Prop
  | .unexpectedEnd => r.cursor.rest = []
  | .unreadable _ | .malformed _ => True
  | .inconsistent _ | .unsupported _ => False

/-- The error is one of this place, and can be. -/
structure DeckError.ReportedAt (e : DeckError) (r : DeckReader) : Prop where
  place : e = r.error e.cause
  cause : e.cause.ArisesAt r

/-- An action only moves forward in the text, whether it succeeds or fails, and the error with which it
fails is one of the place where it stopped. -/
structure Run.Orderly {σ α : Type} (place : σ → DeckReader) (x : EStateM DeckError σ α) : Prop where
  reaches (s : σ) : (place s).Reaches (place (state (x s)))
  reports {s s' : σ} {e : DeckError} (h : x s = .error e s') : e.ReportedAt (place s')

abbrev ReadM.Orderly {α : Type} (x : ReadM α) : Prop :=
  Run.Orderly id x

abbrev RecordM.Orderly {α : Type} (x : RecordM α) : Prop :=
  Run.Orderly RecordReader.reader x

namespace Run.Orderly

variable {σ τ ι α β : Type} {place : σ → DeckReader} {x : EStateM DeckError σ α}

theorem of_ok (h : ∀ s, ∃ a s', x s = .ok a s' ∧ (place s).Reaches (place s')) : Orderly place x where
  reaches s := by
    obtain ⟨a, s', hs, hreaches⟩ := h s
    rwa [hs]
  reports {s s' e} herror := by
    obtain ⟨a, s'', hs, -⟩ := h s
    rw [hs] at herror
    cases herror

theorem pure (a : α) : Orderly place (pure a : EStateM DeckError σ α) :=
  of_ok fun s => ⟨a, s, rfl, .refl _⟩

theorem get : Orderly place (get : EStateM DeckError σ σ) :=
  of_ok fun s => ⟨s, s, rfl, .refl _⟩

theorem bind {f : α → EStateM DeckError σ β} (hx : Orderly place x) (hf : ∀ a, Orderly place (f a)) :
    Orderly place (x >>= f) where
  reaches s := by
    have hreaches := hx.reaches s
    cases hs : x s with
    | ok a s' =>
      rw [hs] at hreaches
      rw [bind_of_ok f hs]
      exact hreaches.trans ((hf a).reaches s')
    | error e s' =>
      rw [hs] at hreaches
      rwa [bind_of_error f hs]
  reports {s s' e} h := by
    cases hs : x s with
    | ok a s₁ =>
      rw [bind_of_ok f hs] at h
      exact (hf a).reports h
    | error e₁ s₁ =>
      rw [bind_of_error f hs] at h
      cases h
      exact hx.reports hs

theorem map (f : α → β) (hx : Orderly place x) : Orderly place (f <$> x) := by
  rw [map_eq_pure_bind]
  exact hx.bind fun a => .pure (f a)

/-- An action that runs another one on a part of its state, and fails only with it. -/
theorem lift (hx : Orderly place x) {y : EStateM DeckError τ β} {place' : τ → DeckReader}
    (part : τ → σ) (hpart : ∀ t, place (part t) = place' t)
    (hstate : ∀ t, place' (state (y t)) = place (state (x (part t))))
    (herror : ∀ t e t', y t = .error e t' → ∃ s, x (part t) = .error e s) : Orderly place' y where
  reaches t := by
    rw [hstate, ← hpart]
    exact hx.reaches (part t)
  reports {t t' e} h := by
    obtain ⟨s, hs⟩ := herror t e t' h
    have hplace := hstate t
    rw [h, hs] at hplace
    exact hplace ▸ hx.reports hs

theorem of_ends {step : ι → EStateM DeckError σ (ι ⊕ α)} (hstep : ∀ i, Orderly place (step i))
    {n : Nat} {i : ι} {s : σ} {result : EStateM.Result DeckError σ α}
    (h : Ends step n i s result) : (place s).Reaches (place (state result)) ∧
      ∀ e s', result = .error e s' → e.ReportedAt (place s') := by
  induction h with
  | @done i s s' a h =>
    have hreaches := (hstep i).reaches s
    rw [h] at hreaches
    exact ⟨hreaches, fun e s' herror => by cases herror⟩
  | @failed i s s' e h =>
    have hreaches := (hstep i).reaches s
    rw [h] at hreaches
    refine ⟨hreaches, fun e' s'' herror => ?_⟩
    cases herror
    exact (hstep i).reports h
  | @next n i i' s s' result h _ ih =>
    have hreaches := (hstep i).reaches s
    rw [h] at hreaches
    exact ⟨hreaches.trans ih.1, ih.2⟩

theorem iterate {step : ι → ReadM (ι ⊕ α)} (hstep : ∀ i, (step i).Orderly)
    (hmoves : ∀ i, ReadM.RoundProgresses (step i)) (i : ι) : (ReadM.iterate step i).Orderly where
  reaches r := by
    obtain ⟨n, -, hends⟩ := ReadM.iterate_ends hmoves i r
    exact (of_ends hstep hends).1
  reports {r r' e} h := by
    obtain ⟨n, -, hends⟩ := ReadM.iterate_ends hmoves i r
    exact (of_ends hstep hends).2 e r' h

end Run.Orderly

namespace ReadM

variable {α σ : Type}

theorem orderly_fail {cause : Cause} (h : ∀ r, cause.ArisesAt r) : (fail cause : ReadM α).Orderly where
  reaches r := .refl r
  reports {r r' e} herror := by
    cases herror
    exact ⟨rfl, h r⟩

theorem orderly_malformed (defect : Defect) : (malformed defect : ReadM α).Orderly :=
  orderly_fail fun _ => trivial

theorem orderly_skipLine : skipLine.Orderly :=
  .of_ok fun r => ⟨⟨⟩, r.skipLine, rfl, r.reaches_skipLine⟩

theorem orderly_token : token.Orderly where
  reaches r := by
    rcases htoken : r.token? with ⟨_ | t, r'⟩
    · rw [token_of_none htoken]
      exact DeckReader.reaches_token? htoken
    · rw [token_of_some htoken]
      exact DeckReader.reaches_token? htoken
  reports {r r' e} h := by
    rcases htoken : r.token? with ⟨_ | t, r₁⟩
    · rw [token_of_none htoken] at h
      cases h
      exact ⟨rfl, DeckReader.rest_of_token?_none htoken⟩
    · rw [token_of_some htoken] at h
      cases h

theorem item_eq : item = token >>= fun t =>
    if t.isTerminator then do
      skipLine
      return none
    else return some { t with start := 0 } := by
  funext r
  rcases htoken : r.token? with ⟨_ | t, r'⟩
  · rw [item_of_none htoken, Run.bind_of_error _ (token_of_none htoken)]
  · rw [Run.bind_of_ok _ (token_of_some htoken)]
    by_cases ht : t.isTerminator = true
    · rw [item_of_terminator htoken ht, if_pos ht]
      rfl
    · rw [item_of_some htoken ht, if_neg ht]
      rfl

theorem orderly_item : item.Orderly := by
  rw [item_eq]
  refine orderly_token.bind fun t => ?_
  split
  · exact orderly_skipLine.bind fun _ => .pure _
  · exact .pure _

theorem orderly_tokenText : tokenText.Orderly :=
  orderly_token.bind fun _ => .pure _

theorem orderly_terminator : terminator.Orderly := by
  refine .of_ok fun r => ⟨r.terminator.1, r.terminator.2, rfl, ?_⟩
  unfold DeckReader.terminator
  dsimp only
  split
  · exact r.reaches_skipTrivia.trans (DeckReader.reaches_skipLine _)
  · exact r.reaches_skipTrivia

theorem orderly_onLookahead {f : Lookahead → ReadM α} (hf : ∀ next, (f next).Orderly)
    (next : Lookahead) : (onLookahead f next).Orderly := by
  cases next with
  | other byte => exact orderly_malformed _
  | _ => exact hf _

theorem orderly_lookahead {f : Lookahead → ReadM α} (hf : ∀ next, (f next).Orderly) :
    (lookahead >>= f).Orderly where
  reaches r := by
    rw [bind_lookahead_eq]
    exact r.reaches_skipTrivia.trans ((orderly_onLookahead hf _).reaches _)
  reports {r r' e} h := by
    rw [bind_lookahead_eq] at h
    exact (orderly_onLookahead hf _).reports h

theorem orderly_title : title.Orderly where
  reaches r := by
    rw [title_eq]
    split
    · exact .refl r
    · exact r.reaches_skipLine
  reports {r r' e} h := by
    rw [title_eq] at h
    split at h
    · next hend =>
      cases h
      exact ⟨rfl, List.isEmpty_iff.mp hend⟩
    · cases h

theorem ItemCalls.orderly {x : ReadM α} (h : x.ItemCalls) : x.Orderly := by
  induction h with
  | pure a => exact .pure a
  | bind _ _ hx hf => exact hx.bind hf
  | malformed defect => exact orderly_malformed defect
  | unreadable found => exact orderly_fail fun _ => trivial
  | item => exact orderly_item
  | iterate _ hmoves s hstep => exact .iterate hstep hmoves s

end ReadM

namespace RecordM

variable {α τ σ : Type}

theorem orderly_ofRead {x : ReadM α} (hx : x.Orderly) : (ofRead x).Orderly := by
  refine hx.lift RecordReader.reader (fun _ => rfl) (fun s => ?_) fun s e s' h => ?_
  · rw [ofRead]
    cases x s.reader <;> rfl
  · rw [ofRead] at h
    cases hx : x s.reader with
    | ok a r => rw [hx] at h; cases h
    | error e r => rw [hx] at h; cases h; exact ⟨r, rfl⟩

theorem orderly_run {x : RecordM α} (hx : x.Orderly) : x.run.Orderly := by
  refine hx.lift (fun r => ⟨r, .reading⟩) (fun _ => rfl) (fun r => ?_) fun r e r' h => ?_
  · rw [run]
    cases x ⟨r, .reading⟩ <;> rfl
  · rw [run] at h
    cases hx : x ⟨r, .reading⟩ with
    | ok a s => rw [hx] at h; cases h
    | error e s => rw [hx] at h; cases h; exact ⟨s, rfl⟩

theorem orderly_setStanding (standing : Standing) : (setStanding standing).Orderly :=
  .of_ok fun s => ⟨⟨⟩, { s with standing }, rfl, .refl s.reader⟩

theorem orderly_fail {cause : Cause} (h : ∀ r, cause.ArisesAt r) :
    (fail cause : RecordM α).Orderly where
  reaches s := .refl s.reader
  reports {s s' e} herror := by
    cases herror
    exact ⟨rfl, h s.reader⟩

theorem orderly_malformed (defect : Defect) : (malformed defect : RecordM α).Orderly :=
  orderly_fail fun _ => trivial

theorem orderly_endRecord : endRecord.Orderly :=
  (orderly_ofRead ReadM.orderly_skipLine).bind fun _ => orderly_setStanding _

theorem orderly_name (default : String) : (name default).Orderly := by
  refine .bind .get fun s => ?_
  split
  · exact .pure _
  · exact (orderly_setStanding _).bind fun _ => .pure _
  · refine (orderly_ofRead ReadM.orderly_token).bind fun t => ?_
    split
    · exact orderly_endRecord.bind fun _ => .pure _
    · split
      · exact orderly_malformed _
      · exact .pure _
      · split
        · exact (orderly_setStanding _).bind fun _ => .pure _
        · exact .pure _

section Numbers

variable [DeckNumber τ] (mark : τ → σ)

theorem orderly_fillNext (slots : List σ) : (fillNext mark slots).Orderly := by
  refine (itemCalls_fill mark slots).orderly.lift RecordReader.reader (fun _ => rfl) (fun s => ?_)
    fun s e s' h => ?_
  · rw [fillNext_eq]
    cases ReadM.fill mark slots s.reader <;> rfl
  · rw [fillNext_eq] at h
    cases hfill : ReadM.fill mark slots s.reader with
    | ok run r => rw [hfill] at h; cases h
    | error e r => rw [hfill] at h; cases h; exact ⟨r, rfl⟩

theorem orderly_pay (slots : List σ) (value : Option String) : (pay mark slots value).Orderly := by
  unfold pay
  split
  · exact .pure _
  · split
    · exact .pure _
    · split
      · exact .pure _
      · exact orderly_fail fun _ => trivial

theorem orderly_numbers (slots : List σ) : (numbers mark slots).Orderly := by
  rw [numbers_eq]
  refine .bind .get fun s => ?_
  split
  · exact .pure _
  · exact orderly_fillNext mark slots
  · refine (orderly_pay mark _ _).bind fun front => (orderly_setStanding _).bind fun _ => ?_
    split
    · exact .pure _
    · exact (orderly_fillNext mark _).bind fun _ => .pure _

end Numbers

theorem orderly_skip (n : Nat) : (skip n).Orderly := by
  have hnext : ∀ n, (ofRead (skipNext n)).Orderly :=
    fun n => orderly_ofRead (itemCalls_skipNext n).orderly
  refine .bind .get fun s => ?_
  split
  · exact .pure _
  · exact (hnext n).bind fun result => (orderly_setStanding _).bind fun _ => .pure _
  · refine (orderly_setStanding _).bind fun _ => ?_
    split
    · exact .pure _
    · exact (hnext _).bind fun result => (orderly_setStanding _).bind fun _ => .pure _

theorem orderly_finish : finish.Orderly := by
  refine .bind .get fun s => ?_
  split
  · exact .pure _
  · exact orderly_ofRead itemCalls_skipToTerminator.orderly

theorem orderly_finishRow : finishRow.Orderly := by
  refine .bind .get fun s => ?_
  split
  · exact .pure _
  · exact (orderly_ofRead ReadM.orderly_terminator).map _

theorem FieldCalls.orderly {x : RecordM α} (h : x.FieldCalls) : x.Orderly := by
  induction h with
  | pure a => exact .pure a
  | bind _ _ hx hf => exact hx.bind hf
  | malformed defect => exact orderly_malformed defect
  | name default => exact orderly_name default
  | numbers mark slots => exact orderly_numbers mark slots
  | skip n => exact orderly_skip n

end RecordM

namespace ReadM

variable {α : Type}

theorem Calls.orderly {x : ReadM α} (h : x.Calls) : x.Orderly := by
  induction h with
  | items h => exact h.orderly
  | bind _ _ hx hf => exact hx.bind hf
  | tokenText => exact orderly_tokenText
  | terminator => exact orderly_terminator
  | lookahead _ _ hf => exact orderly_lookahead hf
  | run h => exact RecordM.orderly_run h.orderly
  | record h =>
    exact RecordM.orderly_run (h.orderly.bind fun _ => RecordM.orderly_finish.bind fun _ => .pure _)
  | row h =>
    exact RecordM.orderly_run (h.orderly.bind fun _ => RecordM.orderly_finishRow.bind fun _ => .pure _)
  | iterate _ hmoves s hstep => exact .iterate hstep hmoves s

theorem Calls.nonGrowing {x : ReadM α} (h : x.Calls) : NonGrowing x := by
  intro r a r' hx
  have hreaches := h.orderly.reaches r
  rw [hx] at hreaches
  exact hreaches.cursor.remaining_le

end ReadM

end ReservoirDeck
