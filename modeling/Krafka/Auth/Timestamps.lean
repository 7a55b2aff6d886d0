import Krafka.Library.Calendar
import Mathlib.Data.Int.Notation
import Mathlib.Data.Nat.Digits.Defs

/-! Times as AWS signatures write them. -/

namespace Krafka.Auth

def padded (width : Nat) : Int → List Char
  | .ofNat n => (Nat.toDigits 10 n).leftpad width '0'
  | .negSucc n => '-' :: (Nat.toDigits 10 (n + 1)).leftpad (width - 1) '0'

def asI32 (n : Int) : Int := (n + 2 ^ 31) % 2 ^ 32 - 2 ^ 31

def daysToYmd (days : Nat) : Int × Nat × Nat :=
  let z : Int := days + 719468
  let era := z / 146097
  let doe := (z - era * 146097).toNat
  let yoe := (doe - doe / 1460 + doe / 36524 - doe / 146096) / 365
  let y : Int := yoe + era * 400
  let doy := doe - (365 * yoe + yoe / 4 - yoe / 100)
  let mp := (5 * doy + 2) / 153
  let d := doy - (153 * mp + 2) / 5 + 1
  let m := if mp < 10 then mp + 3 else mp - 9
  let year := asI32 (if m ≤ 2 then y + 1 else y)
  (year, m, d)

/-! The dates of days -/

open Calendar

def marchMonth (doy : Nat) : Nat × Nat :=
  let mp := (5 * doy + 2) / 153
  (mp, doy - (153 * mp + 2) / 5 + 1)

def fromMarch (year doy : Nat) : Int × Nat × Nat :=
  let (mp, d) := marchMonth doy
  let m := if mp < 10 then mp + 3 else mp - 9
  (asI32 (if m ≤ 2 then year + 1 else year), m, d)

theorem daysToYmd_eq (days : Nat) :
    ∃ year doy, marchStart year + doy = days + 719468 ∧
      marchStart year + doy < marchStart (year + 1) ∧ daysToYmd days = fromMarch year doy := by
  obtain ⟨era, day, inside, whole⟩ :
      ∃ era day, day < 146097 ∧ days + 719468 = era * 146097 + day :=
    ⟨_, _, Nat.mod_lt _ (by decide), (Nat.div_add_mod' (days + 719468) 146097).symm⟩
  obtain ⟨small, start, ends⟩ := yearOfEra_spec inside
  refine ⟨yearOfEra day + era * 400, day - marchStart (yearOfEra day), ?_, ?_, ?_⟩
  · rw [marchStart_add_eras era small]
    omega
  · rw [marchStart_add_eras era small]
    have next : marchStart (yearOfEra day + era * 400 + 1) =
        era * 146097 + marchStart (yearOfEra day + 1) := by
      unfold marchStart
      omega
    omega
  · have z : (days : Int) + 719468 = ((era * 146097 + day : Nat) : Int) := by omega
    have eras : ((era * 146097 + day : Nat) : Int) / 146097 = era := by omega
    have doe : (((era * 146097 + day : Nat) : Int) - era * 146097).toNat = day := by omega
    have doy : day - (365 * yearOfEra day + yearOfEra day / 4 - yearOfEra day / 100) =
        day - marchStart (yearOfEra day) := by
      unfold marchStart
      omega
    unfold daysToYmd
    rw [z]
    simp only [eras, doe]
    rw [← yearOfEra, doy]
    simp only [fromMarch, marchMonth]
    push_cast
    rfl

theorem marchMonth_spec (doy : Fin 366) :
    (marchMonth doy).1 < 12 ∧ (153 * (marchMonth doy).1 + 2) / 5 + (marchMonth doy).2 = doy + 1 ∧
      1 ≤ (marchMonth doy).2 ∧
      (marchMonth doy).2 ≤ [31, 30, 31, 30, 31, 31, 30, 31, 30, 31, 31, 29].getD (marchMonth doy).1 0 ∧
      ((marchMonth doy).1 = 11 ∧ (marchMonth doy).2 = 29 → doy.val = 365) := by
  revert doy
  decide +kernel

/-- The date stamp and the date with time of a number of seconds since the epoch; a time before
it counts as the epoch. -/
def formatTimestamp (secs : Nat) : List Char × List Char :=
  let days := secs / 86400
  let remaining := secs % 86400
  let hours := remaining / 3600
  let minutes := (remaining % 3600) / 60
  let seconds := remaining % 60
  let (year, month, day) := daysToYmd days
  let dateStamp := padded 4 year ++ padded 2 month ++ padded 2 day
  (dateStamp,
    dateStamp ++ 'T' :: (padded 2 hours ++ padded 2 minutes ++ padded 2 seconds) ++ ['Z'])

end Krafka.Auth
