import Mathlib.Order.Monotone.Basic

/-! The Gregorian calendar, for dates before its introduction as well. Years are also counted from
March on: a leap day is then the last of its year, and the lengths of the months do not depend on
the year. -/

namespace Calendar

def IsLeap (year : Nat) : Prop := year % 4 = 0 ∧ year % 100 ≠ 0 ∨ year % 400 = 0

instance (year : Nat) : Decidable (IsLeap year) :=
  inferInstanceAs (Decidable (_ ∧ _ ∨ _))

def daysInMonth (year : Nat) : Nat → Nat
  | 2 => if IsLeap year then 29 else 28
  | 4 | 6 | 9 | 11 => 30
  | _ => 31

structure IsDate (year month day : Nat) : Prop where
  inYear : 1 ≤ month ∧ month ≤ 12
  inMonth : 1 ≤ day ∧ day ≤ daysInMonth year month

structure IsTime (hour minute second : Nat) : Prop where
  hour : hour ≤ 23
  minute : minute ≤ 59
  second : second ≤ 59

/-! ## Years from March on -/

def marchStart (year : Nat) : Nat := 365 * year + year / 4 - year / 100 + year / 400

theorem marchStart_mono : Monotone marchStart :=
  monotone_nat_of_le_succ fun year => by unfold marchStart; omega

theorem marchStart_succ (year : Nat) :
    marchStart (year + 1) = marchStart year + if IsLeap (year + 1) then 366 else 365 := by
  have fewer : year / 100 ≤ year := Nat.div_le_self ..
  unfold marchStart IsLeap
  rw [Nat.succ_div, Nat.succ_div, Nat.succ_div]
  simp only [Nat.dvd_iff_mod_eq_zero]
  by_cases century : (year + 1) % 100 = 0
  · have four : (year + 1) % 4 = 0 := by omega
    by_cases era : (year + 1) % 400 = 0 <;> simp [four, century, era] <;> omega
  · have era : (year + 1) % 400 ≠ 0 := by omega
    by_cases four : (year + 1) % 4 = 0 <;> simp [four, century, era] <;> omega

theorem marchStart_add_eras (era : Nat) {year : Nat} (small : year < 400) :
    marchStart (year + era * 400) = era * 146097 + marchStart year := by
  unfold marchStart
  omega

theorem march_year_le {year later day day' : Nat} (start : marchStart year ≤ day) (order : day ≤ day')
    (ends : day' < marchStart (later + 1)) : year ≤ later := by
  by_contra late
  have := marchStart_mono (show later + 1 ≤ year by omega)
  omega

/-! ## The year of a day -/

def yearOfEra (day : Nat) : Nat := (day - day / 1460 + day / 36524 - day / 146096) / 365

theorem yearOfEra_mono : Monotone yearOfEra :=
  monotone_nat_of_le_succ fun day => Nat.div_le_div_right (by omega)

theorem yearOfEra_ends (year : Fin 400) :
    yearOfEra (marchStart year) = year ∧ yearOfEra (marchStart (year + 1) - 1) = year := by
  revert year
  decide +kernel

theorem yearOfEra_spec {day : Nat} (inside : day < 146097) :
    yearOfEra day < 400 ∧ marchStart (yearOfEra day) ≤ day ∧
      day < marchStart (yearOfEra day + 1) := by
  have last : yearOfEra day < 400 :=
    (yearOfEra_mono (Nat.le_pred_of_lt inside)).trans_lt (by decide +kernel)
  refine ⟨last, Nat.not_lt.mp fun before => ?_, Nat.not_le.mp fun after => ?_⟩
  · obtain ⟨year, found⟩ : ∃ year, yearOfEra day = year + 1 := by
      refine Nat.exists_eq_succ_of_ne_zero fun first => ?_
      rw [first] at before
      cases before
    rw [found] at before last
    have ends : yearOfEra (marchStart (year + 1) - 1) = year :=
      (yearOfEra_ends ⟨year, by omega⟩).2
    have order := yearOfEra_mono (Nat.le_pred_of_lt before)
    simp only [Nat.pred_eq_sub_one] at order
    omega
  · by_cases full : yearOfEra day + 1 < 400
    · have starts := (yearOfEra_ends ⟨_, full⟩).1
      have order := yearOfEra_mono after
      simp only at starts
      omega
    · rw [show yearOfEra day + 1 = 400 by omega] at after
      exact absurd after (Nat.not_le.mpr inside)

end Calendar
