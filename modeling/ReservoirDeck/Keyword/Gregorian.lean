import ReservoirDeck.Keyword.Date

/-!
The Gregorian calendar, which is used for all years. There is a year zero, and it is a leap year.
-/

namespace ReservoirDeck.Gregorian

def isLeap (year : Int) : Bool :=
  year % 4 == 0 && (year % 100 != 0 || year % 400 == 0)

/-- The days of a month; none if the year has no such month. -/
def daysIn (year : Int) (month : Nat) : Nat :=
  match month with
  | 2 => if isLeap year then 29 else 28
  | 4 | 6 | 9 | 11 => 30
  | 1 | 3 | 5 | 7 | 8 | 10 | 12 => 31
  | _ => 0

theorem daysIn_le (year : Int) (month : Nat) : daysIn year month ≤ 31 := by
  unfold daysIn
  split
  · split <;> omega
  all_goals omega

theorem month_bounds_of_daysIn {year : Int} {month : Nat} (h : 0 < daysIn year month) :
    1 ≤ month ∧ month ≤ 12 := by
  unfold daysIn at h
  split at h
  any_goals omega

/-- Years are counted within these bounds. -/
def isDay (year : Int32) (month day : Nat) : Bool :=
  -262143 ≤ year.toInt && year.toInt ≤ 262142 && 1 ≤ day && day ≤ daysIn year.toInt month

theorem day_bounds {year : Int32} {month day : Nat} (h : isDay year month day = true) :
    1 ≤ day ∧ day ≤ daysIn year.toInt month := by
  simp only [isDay, Bool.and_eq_true, decide_eq_true_eq] at h
  exact ⟨h.1.2, h.2⟩

instance calendar : Calendar where
  isDay := isDay
  month_bounds h := month_bounds_of_daysIn (Nat.le_trans (day_bounds h).1 (day_bounds h).2)
  day_bounds h := ⟨(day_bounds h).1, Nat.le_trans (day_bounds h).2 (daysIn_le ..)⟩

end ReservoirDeck.Gregorian
