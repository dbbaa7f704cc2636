import Mathlib.Tactic

/-!
# The time at which a job was completed

The service writes the milliseconds since 1970 as a date of the Gregorian calendar.  It counts
in eras of 400 years that begin on the first of March, so that a leap day is the last day of
its year.  The calendar itself is given here by its leap years and the lengths of its months.
-/

namespace Spacegate.AiGateway.CompletedAt

open Nat

/-- The year of an era in which one of its days lies. -/
def yearOfEra (doe : Nat) : Nat :=
  (doe - doe / 1460 + doe / 36524 - doe / 146096) / 365

/-- The days of an era before one of its years. -/
def yearStart (yoe : Nat) : Nat :=
  365 * yoe + yoe / 4 - yoe / 100

/-- Year, month and day of a day of a year that begins in March. -/
def civilOfDay (y : Int) (doy : Nat) : Int × Nat × Nat :=
  let mp := (5 * doy + 2) / 153
  let d := doy - (153 * mp + 2) / 5 + 1
  let m := if mp < 10 then mp + 3 else mp - 9
  (if m ≤ 2 then y + 1 else y, m, d)

/-- Year, month and day of a number of days since 1970. -/
def civilFromDays (z : Int) : Int × Nat × Nat :=
  let z := z + 719468
  let era := (if z ≥ 0 then z else z - 146096).tdiv 146097
  let doe := (z - era * 146097).toNat
  let yoe := yearOfEra doe
  civilOfDay (yoe + era * 400) (doe - yearStart yoe)

/-- A number with zeros in front of it, as many as the width asks for. -/
def padded (width n : Nat) : String :=
  "".pushn '0' (width - (toString n).length) ++ toString n

/-- A date and a time of day as they are written. -/
def dateTime (year month day hour minute second milli : Nat) : String :=
  padded 4 year ++ "-" ++ padded 2 month ++ "-" ++ padded 2 day ++ "T" ++ padded 2 hour ++ ":" ++
    padded 2 minute ++ ":" ++ padded 2 second ++ "." ++ padded 3 milli ++ "Z"

/-- The days of a timestamp are not negative, so that its year is not, either. -/
def formatCompletedAtRfc3339 (ms : Nat) : String :=
  let days := ms / 86400000
  let remMs := ms % 86400000
  let (year, month, day) := civilFromDays days
  dateTime year.toNat month day (remMs / 3600000) (remMs % 3600000 / 60000)
    (remMs % 60000 / 1000) (remMs % 1000)

/-! ## The calendar -/

def LeapYear (y : Nat) : Prop :=
  y % 4 = 0 ∧ (y % 100 ≠ 0 ∨ y % 400 = 0)

instance (y : Nat) : Decidable (LeapYear y) :=
  inferInstanceAs (Decidable (_ ∧ _))

def daysInMonth (y m : Nat) : Nat :=
  match m with
  | 2 => if LeapYear y then 29 else 28
  | 4 | 6 | 9 | 11 => 30
  | _ => 31

/-- The days of a year before one of its months. -/
def daysBeforeMonth (y : Nat) : Nat → Nat
  | 0 => 0
  | 1 => 0
  | m + 1 => daysBeforeMonth y m + daysInMonth y m

/-- The days before a year, counted from the year 0. -/
def daysBeforeYear : Nat → Nat
  | 0 => 0
  | y + 1 => daysBeforeYear y + daysBeforeMonth y 13

structure IsDate (y m d : Nat) : Prop where
  month_pos : 1 ≤ m
  month_le : m ≤ 12
  day_pos : 1 ≤ d
  day_le : d ≤ daysInMonth y m

/-- The days from the beginning of 1970 to a date. -/
def daysFromCivil (y m d : Nat) : Int :=
  (daysBeforeYear y + daysBeforeMonth y m + (d - 1) : Nat) - (daysBeforeYear 1970 : Nat)

theorem daysBeforeYear_eq (y : Nat) :
    daysBeforeYear y = 365 * y + (y + 3) / 4 - (y + 99) / 100 + (y + 399) / 400 := by
  induction y with
  | zero => rfl
  | succ y ih =>
    rw [daysBeforeYear, ih]
    by_cases hl : LeapYear y
    · simp only [daysBeforeMonth, daysInMonth, hl, if_true]
      unfold LeapYear at hl
      omega
    · simp only [daysBeforeMonth, daysInMonth, hl, if_false]
      unfold LeapYear at hl
      omega

/-! ## The years of an era -/

theorem yearOfEra_mono : Monotone yearOfEra := by
  refine monotone_nat_of_le_succ fun doe => Nat.div_le_div_right ?_
  have hq : doe / 146096 ≤ doe / 36524 := Nat.div_le_div_left (by decide) (by decide)
  have hle : doe / 1460 ≤ doe := Nat.div_le_self doe 1460
  -- a day that ends four centuries ends a century, too
  have hd : 146096 ∣ doe + 1 → 36524 ∣ doe + 1 := dvd_trans (by decide)
  rw [Nat.succ_div, Nat.succ_div, Nat.succ_div]
  generalize doe / 1460 = a, doe / 36524 = b, doe / 146096 = c at *
  by_cases hb : 36524 ∣ doe + 1
  · simp only [hb, if_true]
    split_ifs <;> omega
  · simp only [hb, mt hd hb, if_false]
    split_ifs <;> omega

/-- The first and the last day of every year of an era belong to that year. -/
theorem yearOfEra_ends : ∀ yoe < 400, yearOfEra (yearStart yoe) = yoe ∧
    yearOfEra (yearStart (yoe + 1) + (yoe + 1) / 400 - 1) = yoe := by
  decide +kernel

theorem yearOfEra_spec {doe : Nat} (h : doe < 146097) :
    yearOfEra doe < 400 ∧ yearStart (yearOfEra doe) ≤ doe ∧
      doe < yearStart (yearOfEra doe + 1) + (yearOfEra doe + 1) / 400 := by
  have hl : yearOfEra doe < 400 := by
    have hm := yearOfEra_mono (le_of_lt_succ h)
    have hLast : yearOfEra 146096 = 399 := by decide
    omega
  refine ⟨hl, ?_, ?_⟩
  · by_contra hlt
    -- an earlier day does not lie after the last day of the year before
    obtain ⟨yoe, hy⟩ : ∃ yoe, yearOfEra doe = yoe + 1 := by
      refine exists_eq_add_one.mpr (pos_of_ne_zero fun hz => hlt ?_)
      rw [hz]
      exact zero_le doe
    rw [hy] at hlt hl
    have hm := yearOfEra_mono (show doe ≤ yearStart (yoe + 1) + (yoe + 1) / 400 - 1 by omega)
    have he := (yearOfEra_ends yoe (by omega)).2
    omega
  · by_contra hge
    by_cases hy : yearOfEra doe + 1 < 400
    · have hm := yearOfEra_mono (show yearStart (yearOfEra doe + 1) ≤ doe by omega)
      have he := (yearOfEra_ends _ hy).1
      omega
    · have he : yearOfEra doe = 399 := by omega
      rw [he] at hge
      simp [yearStart] at hge
      omega

/-! ## The months of a year that begins in March -/

theorem leapYear_add_era (yoe era : Nat) : LeapYear (yoe + era * 400) ↔ LeapYear yoe := by
  unfold LeapYear
  omega

theorem daysBefore_march {yoe : Nat} (era : Nat) (hy : yoe < 400) :
    daysBeforeYear (yoe + era * 400) + daysBeforeMonth (yoe + era * 400) 3 =
      146097 * era + yearStart yoe + 60 := by
  have he : daysBeforeYear (yoe + era * 400) = 146097 * era + daysBeforeYear yoe := by
    rw [daysBeforeYear_eq, daysBeforeYear_eq]
    omega
  rw [he, daysBeforeYear_eq]
  simp only [daysBeforeMonth, daysInMonth, yearStart, leapYear_add_era]
  split_ifs with hl
  · unfold LeapYear at hl
    omega
  · unfold LeapYear at hl
    omega

/-- Such a year is longer by a day where the next year is a leap year. -/
theorem yearLength {yoe : Nat} (era : Nat) (hy : yoe < 400) :
    yearStart (yoe + 1) + (yoe + 1) / 400 =
      yearStart yoe + 337 + daysInMonth (yoe + era * 400 + 1) 2 := by
  simp only [daysInMonth, yearStart, add_right_comm yoe, leapYear_add_era]
  split_ifs with hl
  · unfold LeapYear at hl
    omega
  · unfold LeapYear at hl
    omega

theorem civilOfDay_spec {era yoe doy : Nat} (hy : yoe < 400)
    (hd : yearStart yoe + doy < yearStart (yoe + 1) + (yoe + 1) / 400) :
    ∃ y m d : Nat, civilOfDay (yoe + era * 400 : Nat) doy = (↑y, m, d) ∧ IsDate y m d ∧
      daysBeforeYear y + daysBeforeMonth y m + (d - 1) =
        146097 * era + yearStart yoe + doy + 60 := by
  have hm := daysBefore_march era hy
  have hl : doy < 337 + daysInMonth (yoe + era * 400 + 1) 2 := by
    rw [yearLength era hy] at hd
    omega
  have hf : daysInMonth (yoe + era * 400 + 1) 2 ≤ 29 := by
    unfold daysInMonth
    split_ifs <;> decide
  generalize yoe + era * 400 = y at *
  have hmp : (5 * doy + 2) / 153 ≤ 11 := by omega
  have hdoy : 153 * ((5 * doy + 2) / 153) ≤ 5 * doy + 2 ∧
      5 * doy + 2 < 153 * ((5 * doy + 2) / 153) + 153 := by
    omega
  unfold civilOfDay
  generalize (5 * doy + 2) / 153 = mp at *
  clear hd hy
  simp only [daysBeforeMonth, daysInMonth] at hm hl hf
  interval_cases mp
  all_goals
    simp only [reduceLT, reduceAdd, reduceSub, reduceLeDiff, if_true, if_false]
  -- January and February belong to the next year
  case «10» | «11» =>
    refine ⟨y + 1, _, _, rfl, ⟨by decide, by decide, le_add_left 1 _, ?_⟩, ?_⟩
    all_goals
      simp only [daysBeforeYear, daysBeforeMonth, daysInMonth]
      omega
  all_goals
    refine ⟨y, _, _, rfl, ⟨by decide, by decide, le_add_left 1 _, ?_⟩, ?_⟩
    all_goals
      simp only [daysBeforeMonth, daysInMonth]
      omega

theorem daysBeforeYear_1970 : daysBeforeYear 1970 = 719528 := by
  rw [daysBeforeYear_eq]

theorem civilFromDays_spec (z : Nat) : ∃ y m d : Nat, civilFromDays z = (↑y, m, d) ∧
    IsDate y m d ∧ daysFromCivil y m d = z := by
  obtain ⟨hy, hStart, hEnd⟩ := yearOfEra_spec (mod_lt (z + 719468) (by decide : 0 < 146097))
  have he : (if (z : Int) + 719468 ≥ 0 then (z : Int) + 719468
      else z + 719468 - 146096).tdiv 146097 = ((z + 719468) / 146097 : Nat) := by
    rw [if_pos (by omega), Int.tdiv_eq_ediv_of_nonneg (by omega)]
    omega
  have ht : ((z : Int) + 719468 - ((z + 719468) / 146097 : Nat) * 146097).toNat =
      (z + 719468) % 146097 := by
    omega
  have hdm := div_add_mod (z + 719468) 146097
  simp only [civilFromDays, he, ht]
  generalize (z + 719468) % 146097 = doe at *
  generalize (z + 719468) / 146097 = era at *
  obtain ⟨y, m, d, hc, hd, hs⟩ := @civilOfDay_spec era _
    (doe - yearStart (yearOfEra doe)) hy (by omega)
  refine ⟨y, m, d, by rw [← hc]; push_cast; rfl, hd, ?_⟩
  unfold daysFromCivil
  rw [daysBeforeYear_1970, hs]
  omega

/-! ## One date for each day -/

theorem index_unique {f : Nat → Nat} (hf : Monotone f) {x i j : Nat} (hi : f i ≤ x)
    (hi' : x < f (i + 1)) (hj : f j ≤ x) (hj' : x < f (j + 1)) : i = j := by
  rcases lt_trichotomy i j with h | h | h
  · exact absurd (lt_of_lt_of_le hi' (hf h)) (not_lt.mpr hj)
  · exact h
  · exact absurd (lt_of_lt_of_le hj' (hf h)) (not_lt.mpr hi)

theorem daysBeforeMonth_succ {y m : Nat} (hm : 1 ≤ m) :
    daysBeforeMonth y (m + 1) = daysBeforeMonth y m + daysInMonth y m := by
  cases m with
  | zero => omega
  | succ m => rfl

theorem daysBeforeMonth_mono (y : Nat) : Monotone (daysBeforeMonth y) := by
  refine monotone_nat_of_le_succ fun m => ?_
  cases m with
  | zero => exact le_refl 0
  | succ m => exact le_add_right _ _

/-- A date lies in its month and in its year. -/
theorem IsDate.bounds {y m d : Nat} (h : IsDate y m d) :
    daysBeforeMonth y m + (d - 1) < daysBeforeMonth y (m + 1) ∧
      daysBeforeYear y + (daysBeforeMonth y m + (d - 1)) < daysBeforeYear (y + 1) := by
  have hs := daysBeforeMonth_succ (y := y) h.month_pos
  have hm : daysBeforeMonth y (m + 1) ≤ daysBeforeMonth y 13 :=
    daysBeforeMonth_mono y (succ_le_succ h.month_le)
  have hp := h.day_pos
  have hd := h.day_le
  rw [daysBeforeYear]
  omega

theorem daysFromCivil_inj {y m d y' m' d' : Nat} (h : IsDate y m d) (h' : IsDate y' m' d')
    (he : daysFromCivil y m d = daysFromCivil y' m' d') : y = y' ∧ m = m' ∧ d = d' := by
  have hs : daysBeforeYear y + (daysBeforeMonth y m + (d - 1)) =
      daysBeforeYear y' + (daysBeforeMonth y' m' + (d' - 1)) := by
    unfold daysFromCivil at he
    omega
  obtain rfl : y = y' := index_unique (monotone_nat_of_le_succ fun _ => le_add_right _ _)
    (le_add_right _ _) h.bounds.2 (hs ▸ le_add_right _ _) (hs ▸ h'.bounds.2)
  have hs' := add_left_cancel hs
  obtain rfl : m = m' := index_unique (daysBeforeMonth_mono y) (le_add_right _ _) h.bounds.1
    (hs' ▸ le_add_right _ _) (hs' ▸ h'.bounds.1)
  have hp := h.day_pos
  have hp' := h'.day_pos
  omega

theorem civilFromDays_daysFromCivil {y m d : Nat} (h : IsDate y m d)
    (hn : 0 ≤ daysFromCivil y m d) : civilFromDays (daysFromCivil y m d) = (↑y, m, d) := by
  obtain ⟨z, hz⟩ := Int.eq_ofNat_of_zero_le hn
  obtain ⟨y', m', d', hc, hd, hs⟩ := civilFromDays_spec z
  obtain ⟨rfl, rfl, rfl⟩ := daysFromCivil_inj hd h (hs.trans hz.symm)
  rw [hz]
  exact hc

/-- The text of a timestamp is the date and the time of day that it stands for, and the dates
of the days from 1970 on are those of the calendar. -/
theorem formatCompletedAtRfc3339_isDateTime :
    (∀ ms : Nat, ∃ year month day hour minute second milli : Nat,
      formatCompletedAtRfc3339 ms = dateTime year month day hour minute second milli ∧
      IsDate year month day ∧ hour < 24 ∧ minute < 60 ∧ second < 60 ∧ milli < 1000 ∧
      (ms : Int) = (((daysFromCivil year month day * 24 + hour) * 60 + minute) * 60 + second) *
        1000 + milli) ∧
    (∀ z : Nat, ∃ y m d : Nat, civilFromDays z = (↑y, m, d) ∧ IsDate y m d ∧
      daysFromCivil y m d = z) ∧
    (∀ y m d : Nat, IsDate y m d → 0 ≤ daysFromCivil y m d →
      civilFromDays (daysFromCivil y m d) = (↑y, m, d)) := by
  refine ⟨fun ms => ?_, civilFromDays_spec, fun y m d => civilFromDays_daysFromCivil⟩
  obtain ⟨y, m, d, hc, hd, hs⟩ := civilFromDays_spec (ms / 86400000)
  refine ⟨y, m, d, _, _, _, _, by simp only [formatCompletedAtRfc3339, hc, Int.toNat_natCast]; rfl,
    hd, ?_⟩
  rw [hs]
  omega

example : formatCompletedAtRfc3339 951782400000 = "2000-02-29T00:00:00.000Z" := by
  decide +kernel

end Spacegate.AiGateway.CompletedAt
