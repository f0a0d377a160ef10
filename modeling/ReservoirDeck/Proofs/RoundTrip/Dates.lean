import ReservoirDeck.Proofs.RoundTrip.Lists

/-!
Dates read back: the day leads the record, and the month is written by its name.
-/

namespace ReservoirDeck.Date

theorem month?_monthNames {month : Nat} (hlow : 1 ≤ month) (hhigh : month ≤ 12) :
    month? (monthNames[month - 1]?.getD "") = some month := by
  have hall : ∀ m < 12, month? (monthNames[m]?.getD "") = some (m + 1) := by decide +kernel
  have h := hall (month - 1) (by omega)
  rwa [Nat.sub_add_cancel hlow] at h

theorem nameText_monthNames (month : Nat) : NameText (monthNames[month - 1]?.getD "") := by
  have hall : ∀ s ∈ monthNames, QuotableText s := by simp [monthNames, QuotableText]
  left
  cases h : monthNames[month - 1]? with
  | none => simp [QuotableText]
  | some s => exact hall s (List.mem_of_getElem? h)

theorem day?_toString {day : Nat} (h : day < UInt32.size) : day? (toString day) = some day := by
  unfold day?
  dsimp only
  rw [toList_toString_nat]
  split
  · next digits hplus =>
    have hdigit : ('+' : Char).isDigit = true := isDigit_of_mem_toDigits (n := day) (by simp [hplus])
    exact absurd hdigit (by decide)
  · rw [naturalOfChars?_toDigits day, Option.filter_some, if_pos (decide_eq_true h)]

/-- The calendar has such a day. -/
def IsDay [Calendar] (d : Date) : Prop :=
  Calendar.isDay d.year d.month d.day = true

theorem isDay_of_of? [Calendar] {year : Int32} {month day : Nat} {d : Date}
    (h : of? year month day = some d) : d.IsDay := by
  unfold of? at h
  split at h <;> cases h
  assumption

theorem IsDay.of?_eq [Calendar] {d : Date} (h : d.IsDay) : of? d.year d.month d.day = some d :=
  if_pos h

theorem read_reads [Calendar] {d : Date} (h : d.IsDay) :
    FieldReads (Date.read (toString d.day))
      [nameToken (monthNames[d.month - 1]?.getD ""), integerText d.year] d := by
  obtain ⟨hlow, hhigh⟩ := Calendar.month_bounds h
  have hday : d.day < UInt32.size := Nat.lt_of_le_of_lt (Calendar.day_bounds h).2 (by decide)
  refine (RecordM.requiredName_reads "month" (nameText_monthNames d.month)).bind
    ((RecordM.requiredNumber_reads "year" (entryWord_integerText d.year)).bind ?_)
  simp only [month?_monthNames hlow hhigh, day?_toString hday, h.of?_eq, Option.bind_eq_bind,
    Option.bind_some]
  exact .pure d

theorem leads [Calendar] {d : Date} (h : d.IsDay) : ReadM.Leads Date.read d.tokens d := by
  refine ⟨toString d.day, toString d.day, .bare, _, rfl, .bare ?_, isTerminator_of_bareText ?_,
    .inl (read_reads h)⟩ <;>
  · refine (dataText_of_number ?_ ?_).bare <;> rw [toList_toString_nat]
    · exact isNumberChar_toDigits d.day
    · exact startsNumber_toDigits d.day

end ReservoirDeck.Date
