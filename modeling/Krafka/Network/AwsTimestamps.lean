import Krafka.Auth.Timestamps
import Krafka.Library.Texts
import Mathlib.Tactic.IntervalCases

/-! Timestamps as AWS writes them, read back: what a signature was dated with is the time it was
made, and nothing but a date and a time of day is read. -/

namespace Krafka.Network

open Calendar
open Auth (padded daysToYmd formatTimestamp fromMarch marchMonth asI32)

def d2 (hi lo : UInt8) : Option Nat :=
  let h := hi - 48
  let l := lo - 48
  if 9 < h ∨ 9 < l then none else some (h.toNat * 10 + l.toNat)

def d4 (a b c d : UInt8) : Option Nat :=
  let a := a - 48
  let b := b - 48
  let c := c - 48
  let d := d - 48
  if 9 < a ∨ 9 < b ∨ 9 < c ∨ 9 < d then none
  else some (a.toNat * 1000 + b.toNat * 100 + c.toNat * 10 + d.toNat)

def monthDays : List Nat := [0, 31, 28, 31, 30, 31, 30, 31, 31, 30, 31, 30, 31]

def daysSinceEpoch (year month day : Nat) : Int :=
  let a : Int := (14 - month) / 12
  let y : Int := year + 4800 - a
  let m : Int := month + 12 * a - 3
  let jdn := day + (153 * m + 2) / 5 + 365 * y + y / 4 - y / 100 + y / 400 - 32045
  jdn - 2440588

def unixSeconds (year month day hour min sec : Nat) : Option Int :=
  if ¬ (1 ≤ month ∧ month ≤ 12) then none
  else if 23 < hour ∨ 59 < min ∨ 59 < sec then none
  else
    let maxDay :=
      if month = 2 ∧ (year % 4 = 0 ∧ year % 100 ≠ 0 ∨ year % 400 = 0) then 29
      else monthDays.getD month 0
    if ¬ (1 ≤ day ∧ day ≤ maxDay) then none
    else some (daysSinceEpoch year month day * 86400 + hour * 3600 + min * 60 + sec)

/-- The caller has checked the length, and the letters in their places. -/
def parseAwsTsUnix : List UInt8 → Option Int
  | [y0, y1, y2, y3, m0, m1, d0, d1, _, h0, h1, n0, n1, s0, s1, _] => do
    let year ← d4 y0 y1 y2 y3
    let month ← d2 m0 m1
    let day ← d2 d0 d1
    let hour ← d2 h0 h1
    let min ← d2 n0 n1
    let sec ← d2 s0 s1
    unixSeconds year month day hour min sec
  | _ => none

/-! ## Digits -/

def digit (n : Nat) : UInt8 := UInt8.ofNat (48 + n % 10)

theorem utf8_digitChar (n : Nat) : Texts.utf8 [(n % 10).digitChar] = [digit n] := by
  have every : ∀ k : Fin 10, Texts.utf8 [k.val.digitChar] = [UInt8.ofNat (48 + k)] := by decide
  exact every ⟨n % 10, Nat.mod_lt _ (by decide)⟩

theorem padded_succ (width n : Nat) :
    padded (width + 2) n = padded (width + 1) (n / 10 : Nat) ++ [(n % 10).digitChar] := by
  show List.leftpad _ _ _ = List.leftpad _ _ _ ++ _
  rw [Nat.toDigits_eq_if (n := n) (by decide)]
  unfold List.leftpad
  split_ifs with small
  · rw [Nat.div_eq_of_lt small, Nat.mod_eq_of_lt small, Nat.toDigits_of_lt_base (by decide)]
    simp [List.replicate_succ']
  · rw [List.length_append, List.length_singleton, List.append_assoc,
      show width + 2 - ((Nat.toDigits 10 (n / 10)).length + 1) =
        width + 1 - (Nat.toDigits 10 (n / 10)).length by omega]

variable {n : Nat}

theorem padded_one (small : n < 10) : padded 1 n = [(n % 10).digitChar] := by
  show List.leftpad _ _ _ = _
  rw [Nat.toDigits_of_lt_base small, Nat.mod_eq_of_lt small]
  rfl

theorem utf8_padded_succ (width n : Nat) :
    Texts.utf8 (padded (width + 2) n) =
      Texts.utf8 (padded (width + 1) (n / 10 : Nat)) ++ [digit n] := by
  rw [padded_succ, Texts.utf8_append, utf8_digitChar]

theorem utf8_padded_two (small : n < 100) :
    Texts.utf8 (padded 2 n) = [digit (n / 10), digit n] := by
  rw [utf8_padded_succ, padded_one (by omega), utf8_digitChar]
  rfl

theorem utf8_padded_four (small : n < 10000) :
    Texts.utf8 (padded 4 n) = [digit (n / 1000), digit (n / 100), digit (n / 10), digit n] := by
  rw [utf8_padded_succ, utf8_padded_succ, utf8_padded_two (by omega)]
  simp only [Nat.div_div_eq_div_mul]
  rfl

theorem byte_digit {b : UInt8} : ¬ 9 < b - 48 ↔ ∃ k < 10, b = digit k ∧ (b - 48).toNat = k := by
  have every : ∀ b : Fin 256, ¬ 9 < UInt8.ofFin b - 48 ↔
      ∃ k < 10, UInt8.ofFin b = digit k ∧ (UInt8.ofFin b - 48).toNat = k := by decide +kernel
  exact every b.toFin

theorem digit_sub (n : Nat) : ¬ 9 < digit n - 48 ∧ (digit n - 48).toNat = n % 10 := by
  have every : ∀ k : Fin 10, ¬ 9 < UInt8.ofNat (48 + k) - 48 ∧
      (UInt8.ofNat (48 + k) - 48).toNat = k := by decide
  exact every ⟨n % 10, Nat.mod_lt _ (by decide)⟩

theorem d2_eq_some {hi lo : UInt8} :
    d2 hi lo = some n ↔ n < 100 ∧ hi = digit (n / 10) ∧ lo = digit n := by
  unfold d2
  constructor
  · intro read
    simp only [Option.ite_none_left_eq_some, not_or, Option.some.injEq] at read
    obtain ⟨⟨high, low⟩, rfl⟩ := read
    obtain ⟨h, small, rfl, same⟩ := byte_digit.mp high
    obtain ⟨l, small', rfl, same'⟩ := byte_digit.mp low
    rw [same, same']
    refine ⟨by omega, ?_, ?_⟩ <;> exact congrArg UInt8.ofNat (by omega)
  · rintro ⟨small, rfl, rfl⟩
    simp only [digit_sub, or_self, if_false]
    exact congrArg some (by omega)

theorem d4_eq_some {a b c d : UInt8} :
    d4 a b c d = some n ↔ n < 10000 ∧ a = digit (n / 1000) ∧ b = digit (n / 100) ∧
      c = digit (n / 10) ∧ d = digit n := by
  unfold d4
  constructor
  · intro read
    simp only [Option.ite_none_left_eq_some, not_or, Option.some.injEq] at read
    obtain ⟨⟨first, second, third, fourth⟩, rfl⟩ := read
    obtain ⟨i, small₁, rfl, same₁⟩ := byte_digit.mp first
    obtain ⟨j, small₂, rfl, same₂⟩ := byte_digit.mp second
    obtain ⟨k, small₃, rfl, same₃⟩ := byte_digit.mp third
    obtain ⟨l, small₄, rfl, same₄⟩ := byte_digit.mp fourth
    rw [same₁, same₂, same₃, same₄]
    refine ⟨by omega, ?_, ?_, ?_, ?_⟩ <;> exact congrArg UInt8.ofNat (by omega)
  · rintro ⟨small, rfl, rfl, rfl, rfl⟩
    simp only [digit_sub, or_self, if_false]
    exact congrArg some (by omega)

/-! ## Dates -/

variable {year month day hour min sec : Nat}

theorem unixSeconds_eq_some {seconds : Int} :
    unixSeconds year month day hour min sec = some seconds ↔
      IsDate year month day ∧ IsTime hour min sec ∧
        seconds = daysSinceEpoch year month day * 86400 + hour * 3600 + min * 60 + sec := by
  have table (valid : 1 ≤ month ∧ month ≤ 12) :
      (if month = 2 ∧ (year % 4 = 0 ∧ year % 100 ≠ 0 ∨ year % 400 = 0) then 29
        else monthDays.getD month 0) = daysInMonth year month := by
    by_cases february : month = 2
    · subst february
      exact if_congr (and_iff_right rfl) rfl rfl
    · rw [if_neg fun both => february both.1]
      obtain ⟨first, last⟩ := valid
      interval_cases month <;> first | rfl | contradiction
  unfold unixSeconds
  constructor
  · intro read
    simp only [Option.ite_none_left_eq_some, not_not, Option.some.injEq] at read
    obtain ⟨months, clock, days, rfl⟩ := read
    rw [table months] at days
    exact ⟨⟨months, days⟩, ⟨by omega, by omega, by omega⟩, rfl⟩
  · rintro ⟨date, ⟨hours, minutes, seconds⟩, rfl⟩
    rw [if_neg (not_not.mpr date.inYear), if_neg (by omega), table date.inYear]
    exact if_neg (not_not.mpr date.inMonth)

def stamp (year month day hour min sec : Nat) : List Char :=
  padded 4 year ++ padded 2 month ++ padded 2 day ++
    'T' :: (padded 2 hour ++ padded 2 min ++ padded 2 sec) ++ ['Z']

structure Names (s : List UInt8) (year month day hour min sec : Nat) : Prop where
  date : IsDate year month day
  time : IsTime hour min sec
  fourDigits : year < 10000
  text : s = Texts.utf8 (stamp year month day hour min sec)

theorem day_le (date : IsDate year month day) : day ≤ 31 := by
  refine date.inMonth.2.trans ?_
  unfold daysInMonth
  split
  · split_ifs <;> decide
  all_goals decide

theorem utf8_stamp (date : IsDate year month day)
    (time : IsTime hour min sec) (small : year < 10000) :
    Texts.utf8 (stamp year month day hour min sec) =
      [digit (year / 1000), digit (year / 100), digit (year / 10), digit year, digit (month / 10),
        digit month, digit (day / 10), digit day, 84, digit (hour / 10), digit hour,
        digit (min / 10), digit min, digit (sec / 10), digit sec, 90] := by
  have days := day_le date
  have months := date.inYear
  obtain ⟨hours, minutes, seconds⟩ := time
  have letter (c : Char) (text : List Char) : Texts.utf8 (c :: text) =
      Texts.utf8 [c] ++ Texts.utf8 text := Texts.utf8_append [c] text
  rw [stamp, Texts.utf8_append, Texts.utf8_append, letter 'T', Texts.utf8_append, Texts.utf8_append,
    Texts.utf8_append, Texts.utf8_append, utf8_padded_four small, utf8_padded_two (by omega),
    utf8_padded_two (by omega), utf8_padded_two (by omega), utf8_padded_two (by omega),
    utf8_padded_two (by omega)]
  rfl

theorem parseAwsTsUnix_of_names {s : List UInt8}
    (names : Names s year month day hour min sec) : parseAwsTsUnix s =
      some (daysSinceEpoch year month day * 86400 + hour * 3600 + min * 60 + sec) := by
  obtain ⟨date, time, small, rfl⟩ := names
  have months := date.inYear
  have days := day_le date
  have four := d4_eq_some.mpr ⟨small, rfl, rfl, rfl, rfl⟩
  have two {n : Nat} (small : n < 100) : d2 (digit (n / 10)) (digit n) = some n :=
    d2_eq_some.mpr ⟨small, rfl, rfl⟩
  rw [utf8_stamp date time small]
  simp only [parseAwsTsUnix, four, two (show month < 100 by omega), two (show day < 100 by omega),
    two (show hour < 100 from time.hour.trans_lt (by decide)),
    two (show min < 100 from time.minute.trans_lt (by decide)),
    two (show sec < 100 from time.second.trans_lt (by decide)), Option.bind_eq_bind,
    Option.bind_some]
  exact unixSeconds_eq_some.mpr ⟨date, time, rfl⟩

theorem names_of_parseAwsTsUnix {s : List UInt8} {seconds : Int} (letterT : s[8]? = some 84)
    (letterZ : s[15]? = some 90) (read : parseAwsTsUnix s = some seconds) :
    ∃ year month day hour min sec, Names s year month day hour min sec := by
  unfold parseAwsTsUnix at read
  split at read
  · obtain ⟨year, readYear, read⟩ := Option.bind_eq_some_iff.mp read
    obtain ⟨month, readMonth, read⟩ := Option.bind_eq_some_iff.mp read
    obtain ⟨day, readDay, read⟩ := Option.bind_eq_some_iff.mp read
    obtain ⟨hour, readHour, read⟩ := Option.bind_eq_some_iff.mp read
    obtain ⟨min, readMin, read⟩ := Option.bind_eq_some_iff.mp read
    obtain ⟨sec, readSec, read⟩ := Option.bind_eq_some_iff.mp read
    obtain ⟨date, time, -⟩ := unixSeconds_eq_some.mp read
    obtain ⟨small, rfl, rfl, rfl, rfl⟩ := d4_eq_some.mp readYear
    obtain ⟨-, rfl, rfl⟩ := d2_eq_some.mp readMonth
    obtain ⟨-, rfl, rfl⟩ := d2_eq_some.mp readDay
    obtain ⟨-, rfl, rfl⟩ := d2_eq_some.mp readHour
    obtain ⟨-, rfl, rfl⟩ := d2_eq_some.mp readMin
    obtain ⟨-, rfl, rfl⟩ := d2_eq_some.mp readSec
    obtain rfl := Option.some.inj letterT
    obtain rfl := Option.some.inj letterZ
    exact ⟨year, month, day, hour, min, sec, date, time, small, (utf8_stamp date time small).symm⟩
  · cases read

/-! ## The dates that are written -/

def lastDay : Nat := 2932897

structure MarchDate (days year mp d : Nat) : Prop where
  written : daysToYmd days =
    (((if mp < 10 then year else year + 1 : Nat) : Int), if mp < 10 then mp + 3 else mp - 9, d)
  fourDigits : (if mp < 10 then year else year + 1) < 10000
  inYear : mp < 12
  number : marchStart year + (153 * mp + 2) / 5 + d = days + 719469
  ends : days + 719468 < marchStart (year + 1)
  inMonth : 1 ≤ d ∧ d ≤ [31, 30, 31, 30, 31, 31, 30, 31, 30, 31, 31, 29].getD mp 0
  leapDay : mp = 11 → d = 29 → IsLeap (year + 1)

theorem exists_marchDate {days : Nat} (early : days < lastDay) :
    ∃ year mp d, MarchDate days year mp d := by
  obtain ⟨year, doy, whole, ends, same⟩ := Auth.daysToYmd_eq days
  have length := marchStart_succ year
  have inside : doy < 366 := by split_ifs at length <;> omega
  obtain ⟨mp, d, month⟩ : ∃ mp d, marchMonth doy = (mp, d) := ⟨_, _, rfl⟩
  have spec := Auth.marchMonth_spec ⟨doy, inside⟩
  simp only [month] at spec
  obtain ⟨inYear, split, first, last, leapDay⟩ := spec
  have number : marchStart year + (153 * mp + 2) / 5 + d = days + 719469 := by omega
  have fourDigits : (if mp < 10 then year else year + 1) < 10000 := by
    by_contra late
    have before : 9999 ≤ year := by split_ifs at late <;> omega
    have start := marchStart_mono before
    have final : marchStart 9999 = 3652059 := rfl
    have bound : marchStart 10000 = 3652425 := rfl
    unfold lastDay at early
    split_ifs at late
    · have := marchStart_mono (Nat.not_lt.mp late)
      omega
    · omega
  refine ⟨year, mp, d, ?_, fourDigits, inYear, number, whole ▸ ends, ⟨first, last⟩, ?_⟩
  · have kept {n : Nat} (small : n < 10000) : asI32 n = n := by
      unfold asI32
      omega
    rw [same, fromMarch, month, ← kept fourDigits]
    by_cases early : mp < 10
    · simp only [if_pos early, if_neg (show ¬ mp + 3 ≤ 2 by omega)]
    · simp only [if_neg early, if_pos (show mp - 9 ≤ 2 by omega)]
      rfl
  · intro february leap
    rw [leapDay ⟨february, leap⟩] at ends
    by_contra common
    rw [if_neg common] at length
    omega

namespace MarchDate

variable {days year mp d : Nat}

theorem isDate (date : MarchDate days year mp d) :
    IsDate (if mp < 10 then year else year + 1) (if mp < 10 then mp + 3 else mp - 9) d := by
  obtain ⟨-, -, inYear, -, -, ⟨first, last⟩, leapDay⟩ := date
  refine ⟨by split_ifs <;> omega, first, ?_⟩
  interval_cases mp
  case «11» =>
    show d ≤ if IsLeap (year + 1) then 29 else 28
    have : d ≤ 29 := last
    split_ifs with leap
    · omega
    · have : d ≠ 29 := fun final => leap (leapDay rfl final)
      omega
  all_goals exact last

theorem daysSinceEpoch_eq (date : MarchDate days year mp d) :
    daysSinceEpoch (if mp < 10 then year else year + 1) (if mp < 10 then mp + 3 else mp - 9) d =
      days := by
  obtain ⟨-, -, inYear, number, -, -, -⟩ := date
  -- both take the months before the year as of the year before
  have shape : daysSinceEpoch (if mp < 10 then year else year + 1)
      (if mp < 10 then mp + 3 else mp - 9) d =
        d + (153 * (mp : Int) + 2) / 5 + 365 * ((year : Int) + 4800) + ((year : Int) + 4800) / 4 -
          ((year : Int) + 4800) / 100 + ((year : Int) + 4800) / 400 - 32045 - 2440588 := by
    unfold daysSinceEpoch
    split_ifs with early
    · have a : (14 - ((mp + 3 : Nat) : Int)) / 12 = 0 := by omega
      simp only [a, show ((mp + 3 : Nat) : Int) + 12 * 0 - 3 = mp by omega, Int.sub_zero]
    · have a : (14 - ((mp - 9 : Nat) : Int)) / 12 = 1 := by omega
      simp only [a, show ((mp - 9 : Nat) : Int) + 12 * 1 - 3 = mp by omega,
        show ((year + 1 : Nat) : Int) + 4800 - 1 = year + 4800 by omega]
  have four : ((year : Int) + 4800) / 4 = year / 4 + 1200 := by omega
  have hundred : ((year : Int) + 4800) / 100 = year / 100 + 48 := by omega
  have era : ((year : Int) + 4800) / 400 = year / 400 + 12 := by omega
  rw [shape, four, hundred, era]
  unfold marchStart at number
  omega

theorem months_lt {mp' d' : Nat} (date : MarchDate days year mp d) {days' : Nat}
    (date' : MarchDate days' year mp' d') (order : days < days') :
    mp < mp' ∨ mp = mp' ∧ d < d' := by
  have ends : ∀ mp < 12, (153 * mp + 2) / 5 +
      [31, 30, 31, 30, 31, 31, 30, 31, 30, 31, 31, 29].getD mp 0 ≤ (153 * (mp + 1) + 2) / 5 := by
    decide
  have number := date.number
  have number' := date'.number
  have first := date.inMonth.1
  have last := date'.inMonth.2
  have month := ends mp' date'.inYear
  omega

theorem lt {days' year' mp' d' : Nat} (date : MarchDate days year mp d)
    (date' : MarchDate days' year' mp' d') (order : days < days') :
    Prod.Lex (· < ·) (Prod.Lex (· < ·) (· < ·)) (daysToYmd days) (daysToYmd days') := by
  have number := date.number
  have inMonth := date.inMonth.1
  have years : year ≤ year' :=
    @march_year_le _ _ (days + 719468) (days' + 719468) (by omega) (by omega) date'.ends
  have inYear := date.inYear
  have inYear' := date'.inYear
  rw [date.written, date'.written]
  simp only [Prod.lex_def]
  rcases years.eq_or_lt with rfl | later
  · have months := date.months_lt date' order
    split_ifs <;> omega
  · split_ifs <;> omega

end MarchDate

/-! ## The round trip -/

theorem formatTimestamp_names {secs : Nat} (early : secs < lastDay * 86400) :
    ∃ year month day hour min sec,
      Names (Texts.utf8 (formatTimestamp secs).2) year month day hour min sec ∧
        daysSinceEpoch year month day * 86400 + hour * 3600 + min * 60 + sec = secs := by
  obtain ⟨year, mp, d, date⟩ := exists_marchDate (Nat.div_lt_of_lt_mul (Nat.mul_comm .. ▸ early))
  refine ⟨_, _, d, secs % 86400 / 3600, secs % 86400 % 3600 / 60, secs % 86400 % 60,
    ⟨date.isDate, ⟨by omega, by omega, by omega⟩, date.fourDigits, ?_⟩, ?_⟩
  · simp only [formatTimestamp, date.written]
    rfl
  · rw [date.daysSinceEpoch_eq]
    omega

/-- Up to the end of the year 9999 a timestamp says when it was made, later days have later dates,
and what is read of a timestamp is a date and a time of day. -/
theorem aws_timestamps_are_exact :
    (∀ secs < lastDay * 86400,
      parseAwsTsUnix (Texts.utf8 (formatTimestamp secs).2) = some (secs : Int)) ∧
    (∀ days days', days < days' → days' < lastDay →
      Prod.Lex (· < ·) (Prod.Lex (· < ·) (· < ·)) (daysToYmd days) (daysToYmd days')) ∧
    ∀ s : List UInt8, s.length = 16 → s[8]? = some 84 → s[15]? = some 90 →
      ((parseAwsTsUnix s).isSome ↔
        ∃ year month day hour min sec, Names s year month day hour min sec) := by
  refine ⟨fun secs early => ?_, fun days days' order early => ?_, fun s _ letterT letterZ => ?_⟩
  · obtain ⟨year, month, day, hour, min, sec, names, same⟩ := formatTimestamp_names early
    rw [parseAwsTsUnix_of_names names, same]
  · obtain ⟨_, _, _, date⟩ := exists_marchDate (order.trans early)
    obtain ⟨_, _, _, date'⟩ := exists_marchDate early
    exact date.lt date' order
  · constructor
    · intro read
      obtain ⟨seconds, read⟩ := Option.isSome_iff_exists.mp read
      exact names_of_parseAwsTsUnix letterT letterZ read
    · rintro ⟨year, month, day, hour, min, sec, names⟩
      rw [parseAwsTsUnix_of_names names]
      rfl

end Krafka.Network
