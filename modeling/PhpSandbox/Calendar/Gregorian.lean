import PhpSandbox.Var.Zval

/-!
# `ext/calendar/gregor.c`: day numbers and Gregorian dates

A year is counted from March on, so that a leap day is the last of its year, and the centuries from
4800 years before the year 0. The range that `SdnToGregorian` accepts is that of the `long` it divides;
`GregorianToSdn` computes in an `int`, which the days of 14700 centuries do not fit. A day number therefore comes back
just when it is at most 536874430 (`gregorianToSdn_sdnToGregorian`).
-/

namespace PhpSandbox.Calendar

open Var

/-- `SdnToGregorian`: year, month and day. What is divided is not negative. -/
def sdnToGregorian (sdn : ℤ) : ℤ × ℤ × ℤ :=
  if sdn ≤ 0 ∨ sdn > (2 ^ 63 - 1 - 4 * 32045) / 4 then (0, 0, 0)
  else
    let temp := (sdn + 32045) * 4 - 1
    let century := toInt (temp / 146097)
    let temp := temp % 146097 / 4 * 4 + 3
    let year := toInt (toInt (century * 100) + temp / 1461)
    let dayOfYear := temp % 1461 / 4 + 1
    let temp := dayOfYear * 5 - 3
    let month := temp / 153
    let day := temp % 153 / 5 + 1
    let year := toInt ((if month < 10 then year else toInt (year + 1)) - 4800)
    (if year ≤ 0 then toInt (year - 1) else year, if month < 10 then month + 3 else month - 9, day)

/-- `GregorianToSdn`. -/
def gregorianToSdn (inputYear inputMonth inputDay : ℤ) : ℤ :=
  if inputYear = 0 ∨ inputYear < -4714 ∨ inputMonth ≤ 0 ∨ inputMonth > 12 ∨ inputDay ≤ 0 ∨ inputDay > 31 then 0
  else if inputYear = -4714 ∧ (inputMonth < 11 ∨ inputMonth = 11 ∧ inputDay < 25) then 0
  else
    let year := toInt (if inputYear < 0 then inputYear + 4801 else inputYear + 4800)
    let month := if inputMonth > 2 then inputMonth - 3 else inputMonth + 9
    let year := if inputMonth > 2 then year else toInt (year - 1)
    toInt ((toInt (year.tdiv 100 * 146097)).tdiv 4 + (year.tmod 100 * 1461).tdiv 4 + (month * 153 + 2) / 5 + inputDay -
      32045)

/-- The days of a month; the year before the year 1 is -1. -/
def daysInMonth (year month : ℤ) : ℤ :=
  let year := if year < 0 then year + 1 else year
  if month = 2 then if year % 4 = 0 ∧ (year % 100 ≠ 0 ∨ year % 400 = 0) then 29 else 28
  else if month = 4 ∨ month = 6 ∨ month = 9 ∨ month = 11 then 30
  else 31

/-- A date of the proleptic Gregorian calendar. -/
def IsDate (year month day : ℤ) : Prop :=
  year ≠ 0 ∧ (1 ≤ month ∧ month ≤ 12) ∧ 1 ≤ day ∧ day ≤ daysInMonth year month

/-- The last day of a month; months are counted from March on, and the last one is that of a leap year. -/
def monthEnd (month : ℤ) : ℤ :=
  if month = 1 ∨ month = 3 ∨ month = 6 ∨ month = 8 then 30 else if month = 11 then 29 else 31

/-- A day in parts: the century, the year in it, the month from March on and the day. -/
structure Parts (century year month day : ℤ) : Prop where
  century_mem : 0 ≤ century ∧ century < 14700
  year_mem : 0 ≤ year ∧ year < 100
  month_mem : 0 ≤ month ∧ month < 12
  day_mem : 1 ≤ day ∧ day ≤ monthEnd month
  leap : month = 11 → day = 29 → year % 4 = 3 ∧ (year = 99 → century % 4 = 3)

theorem toInt_eq_self {n : ℤ} (hlo : -2 ^ 31 ≤ n) (hhi : n < 2 ^ 31) : toInt n = n :=
  Int.bmod_eq_of_le (by omega) (by omega)

section Parts

variable {century year month day y inputYear inputMonth : ℤ} (h : Parts century year month day)
  (hy : y = century * 100 + year + (if month < 10 then 0 else 1) - 4800)
  (hyear : inputYear = if y ≤ 0 then y - 1 else y) (hmonth : inputMonth = if month < 10 then month + 3 else month - 9)

include h hy hyear hmonth

theorem Parts.isDate : IsDate inputYear inputMonth day := by
  obtain ⟨hc, hyr, hm, hday, hleap⟩ := h
  rw [IsDate, daysInMonth]
  rw [monthEnd] at hday
  split_ifs at * <;> omega

theorem Parts.gregorianToSdn_eq
    (hfirst : 32045 < century * 146097 / 4 + year * 1461 / 4 + (month * 153 + 2) / 5 + day) :
    gregorianToSdn inputYear inputMonth day =
      century * 146097 / 4 + year * 1461 / 4 + (month * 153 + 2) / 5 + day - 32045 := by
  obtain ⟨hc, hyr, hm, hday, -⟩ := h
  have hday : day ≤ 31 := by rw [monthEnd] at hday; omega
  have hback : (if inputYear < 0 then inputYear + 4801 else inputYear + 4800) = y + 4800 := by omega
  have hmarch : (if inputMonth > 2 then y + 4800 else y + 4800 - 1) = century * 100 + year := by omega
  have hmonths : (if inputMonth > 2 then inputMonth - 3 else inputMonth + 9) = month := by omega
  have hdiv : (century * 100 + year) / 100 = century := by omega
  have hmod : (century * 100 + year) % 100 = year := by omega
  rw [gregorianToSdn, if_neg (by omega), if_neg (by omega)]
  simp (disch := omega) only [toInt_eq_self, Int.tdiv_eq_ediv_of_nonneg, Int.tmod_eq_emod_of_nonneg, hback, hmarch,
    hmonths, hdiv, hmod]

end Parts

theorem year_of_leapDay (q : ℤ) :
    (q * 4 + 3) % 1461 / 4 = 365 → (q * 4 + 3) / 1461 % 4 = 3 ∧ ((q * 4 + 3) / 1461 = 99 → q = 36524) := by
  omega

theorem month_of_day {d month day : ℤ} (hd : 0 ≤ d ∧ d ≤ 365) (hmonth : ((d + 1) * 5 - 3) / 153 = month)
    (hday : ((d + 1) * 5 - 3) % 153 / 5 + 1 = day) :
    (0 ≤ month ∧ month < 12) ∧ (1 ≤ day ∧ day ≤ monthEnd month) ∧ (month * 153 + 2) / 5 + day = d + 1 ∧
      (month = 11 → day = 29 → d = 365) := by
  rw [monthEnd]
  refine ⟨by omega, ?_, by omega, by omega⟩
  split_ifs <;> omega

/-- The divisions of `SdnToGregorian` take a day apart. -/
theorem parts_of_day {n century rest q d year month day : ℤ} (hcentury : 0 ≤ century ∧ century < 14700)
    (hrest : 0 ≤ rest ∧ rest < 146097) (hn : n * 4 = century * 146097 + rest + 1) (hq : rest / 4 = q)
    (hyear : (q * 4 + 3) / 1461 = year) (hd : (q * 4 + 3) % 1461 / 4 = d) (hmonth : ((d + 1) * 5 - 3) / 153 = month)
    (hday : ((d + 1) * 5 - 3) % 153 / 5 + 1 = day) :
    Parts century year month day ∧ century * 146097 / 4 + year * 1461 / 4 + (month * 153 + 2) / 5 + day = n := by
  obtain ⟨hm, hdm, hmonths, hfeb⟩ := month_of_day (by omega) hmonth hday
  clear hmonth hday
  have hyr : 0 ≤ year ∧ year < 100 := by omega
  have hdays : year * 1461 / 4 + d = q := by omega
  have hleap := year_of_leapDay q
  rw [hd, hyear] at hleap
  clear hyear hd
  refine ⟨⟨hcentury, hyr, hm, hdm, fun h11 h29 => ?_⟩, by omega⟩
  obtain ⟨hfourth, hend⟩ := hleap (hfeb h11 h29)
  refine ⟨hfourth, fun h99 => ?_⟩
  have hwhole : rest = 146096 := by
    have := hend h99
    omega
  clear * - hn hwhole
  omega

theorem exists_date_of_le {sdn : ℤ} (hpos : 0 < sdn) (hle : sdn ≤ 536874430) :
    ∃ year month day, sdnToGregorian sdn = (year, month, day) ∧ IsDate year month day ∧
      gregorianToSdn year month day = sdn := by
  have hrange : ¬ (sdn ≤ 0 ∨ sdn > (2 ^ 63 - 1 - 4 * 32045) / 4) := by omega
  have hn : (sdn + 32045) * 4 = ((sdn + 32045) * 4 - 1) / 146097 * 146097 + ((sdn + 32045) * 4 - 1) % 146097 + 1 := by
    omega
  obtain ⟨hparts, hsum⟩ := parts_of_day ⟨by omega, by omega⟩ (by omega) hn rfl rfl rfl rfl rfl
  clear hn
  rw [sdnToGregorian, if_neg hrange]
  refine ⟨_, _, _, rfl, ?_⟩
  generalize ((sdn + 32045) * 4 - 1) / 146097 = century at *
  generalize ((sdn + 32045) * 4 - 1) % 146097 / 4 * 4 + 3 = temp at *
  generalize (temp % 1461 / 4 + 1) * 5 - 3 = temp' at *
  generalize temp / 1461 = year at *
  generalize temp' / 153 = month at *
  have hc := hparts.century_mem
  have hyr := hparts.year_mem
  have hy : toInt ((if month < 10 then toInt (toInt (toInt century * 100) + year)
      else toInt (toInt (toInt (toInt century * 100) + year) + 1)) - 4800) =
        century * 100 + year + (if month < 10 then 0 else 1) - 4800 := by
    simp (disch := omega) only [toInt_eq_self]
    omega
  rw [hy, toInt_eq_self (by omega) (by omega)]
  exact ⟨hparts.isDate rfl rfl rfl, (hparts.gregorianToSdn_eq rfl rfl rfl (by omega)).trans (by omega)⟩

/-- A fourth of an `int`, and less than a century. -/
theorem gregorianToSdn_le (year month day : ℤ) : gregorianToSdn year month day ≤ 536875422 := by
  have hquarter : ∀ x : ℤ, x - 3 ≤ 4 * x.tdiv 4 ∧ 4 * x.tdiv 4 ≤ x + 3 := by
    intro x
    have := Int.tmod_add_mul_tdiv x 4
    have := Int.tmod_lt_of_pos x (show (0 : ℤ) < 4 by decide)
    have := Int.lt_tmod_of_pos x (show (0 : ℤ) < 4 by decide)
    omega
  rw [gregorianToSdn]
  dsimp only
  generalize (if month > 2 then toInt _ else toInt _) = y
  have hyears : -100 < y.tmod 100 ∧ y.tmod 100 < 100 :=
    ⟨Int.lt_tmod_of_pos y (by decide), Int.tmod_lt_of_pos y (by decide)⟩
  have hproduct : -2 ^ 31 ≤ toInt (y.tdiv 100 * 146097) ∧ toInt (y.tdiv 100 * 146097) < 2 ^ 31 :=
    ⟨Int.le_bmod (by decide), Int.bmod_lt (by decide)⟩
  have hcentury := hquarter (toInt (y.tdiv 100 * 146097))
  have hyear := hquarter (y.tmod 100 * 1461)
  split_ifs
  · decide
  · decide
  all_goals rw [toInt_eq_self] <;> omega

/-- The days between the last one that fits and the largest one that `GregorianToSdn` gives. -/
theorem gregorianToSdn_ne : ∀ i < 31, ∀ j < 32,
    let (year, month, day) := sdnToGregorian (536874431 + (i * 32 + j : ℕ))
    gregorianToSdn year month day ≠ 536874431 + (i * 32 + j : ℕ) := by
  decide +kernel

/-- **Day numbers and dates.** -/
theorem gregorianToSdn_sdnToGregorian (sdn : ℤ) (hpos : 0 < sdn) (hmax : sdn ≤ (2 ^ 63 - 1 - 4 * 32045) / 4) :
    (∃ year month day, sdnToGregorian sdn = (year, month, day) ∧ IsDate year month day ∧
      gregorianToSdn year month day = sdn) ↔ sdn ≤ 536874430 := by
  refine ⟨?_, exists_date_of_le hpos⟩
  rintro ⟨year, month, day, hdate, -, hsdn⟩
  by_contra hlt
  have hle := gregorianToSdn_le year month day
  obtain ⟨i, j, hi, hj, hij⟩ : ∃ i j : ℕ, i < 31 ∧ j < 32 ∧ sdn = 536874431 + (i * 32 + j : ℕ) :=
    ⟨(sdn - 536874431).toNat / 32, (sdn - 536874431).toNat % 32, by omega, by omega, by omega⟩
  have hne := gregorianToSdn_ne i hi j hj
  rw [← hij, hdate] at hne
  exact hne hsdn

/-- The leap day of the year 2000, the last day of 400 years from March on. -/
theorem gregorianToSdn_sdnToGregorian_leapDay :
    (∃ year month day, sdnToGregorian 2451604 = (year, month, day) ∧ IsDate year month day ∧
      gregorianToSdn year month day = 2451604) ∧ sdnToGregorian 2451604 = (2000, 2, 29) :=
  ⟨(gregorianToSdn_sdnToGregorian 2451604 (by decide) (by decide)).mpr (by decide), by decide⟩

/-- The first day for which the `int` is too small. -/
theorem gregorianToSdn_overflow :
    sdnToGregorian 536874431 = (1465200, 3, 1) ∧ gregorianToSdn 1465200 3 1 = -536867393 := by
  decide

end PhpSandbox.Calendar
