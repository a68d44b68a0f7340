import Pgx.Go.Time

/-!
# The proleptic Gregorian calendar of package `time`

`Time.civil` reads a count of days since 1970-01-01 as a date by eras of 400 years, 146097 days
that start on 1 March of a year divisible by 400, and years that start on 1 March, so that the
leap day is the last day of a year. `daysFromCivil` counts the days of a date the same way, as
`time.Date` does before it adds the clock.

An era is three centuries of 36524 days and a fourth of 36525, a century is quadrennia of 1461
days (the last one a day short but in the fourth century), and a quadrennium is four years of
365 days and a leap day at its end: `dayOfEra_decomp` writes every day of an era so, and
`yearOfEra_decomp` shows that the division `Time.civil` makes finds its year. From these, each of
`Time.civil` and `daysFromCivil` is the inverse of the other on the dates of the calendar, the
months 1 to 12 with the days `daysIn` gives them (`daysFromCivil_civil`, `civil_valid`,
`civil_daysFromCivil`).
-/

namespace Go

/-! ## Years, months and days of an era -/

/-- `isLeap(year)`. -/
def isLeap (year : Int) : Bool := year % 4 == 0 && (year % 100 != 0 || year % 400 == 0)

/-- `daysIn(m, year)`: February has 29 days in a leap year, and the other months alternate
between 31 and 30 days, starting again with 31 in August. -/
def daysIn (m year : Int) : Int :=
  if m = 2 then (if isLeap year then 29 else 28) else 30 + (m + m / 8) % 2

/-- The year of an era that one of its days falls in, the years starting on 1 March. -/
def yearOfEra (doe : Int) : Int := (doe - doe / 1460 + doe / 36524 - doe / 146096) / 365

/-- The days of an era before its year `yoe`. -/
def startOfYear (yoe : Int) : Int := 365 * yoe + yoe / 4 - yoe / 100

/-- The month of a day of the year, counted from March as 0. -/
def marchMonth (doy : Int) : Int := (5 * doy + 2) / 153

/-- The days of a year before its month `mp`, counted from March as 0. -/
def startOfMonth (mp : Int) : Int := (153 * mp + 2) / 5

/-- The month of the calendar that is the month `mp` counted from March. -/
def civilMonth (mp : Int) : Int := if mp < 10 then mp + 3 else mp - 9

/-- `Time.civil`, read through the steps it takes. -/
theorem civil_eq (days : Int) :
    Time.civil days =
      let era := (days + 719468) / 146097
      let doe := days + 719468 - era * 146097
      let yoe := yearOfEra doe
      let doy := doe - startOfYear yoe
      let mp := marchMonth doy
      (yoe + era * 400 + (if civilMonth mp ≤ 2 then 1 else 0), (civilMonth mp).toNat,
        (doy - startOfMonth mp + 1).toNat) := rfl

/-- The days from 1970-01-01 to `year-month-day`, for a month from 1 to 12 and any day: the
days of the eras, years and months before it, and the day counted on from the first of its
month. -/
def daysFromCivil (year month day : Int) : Int :=
  let y := if month ≤ 2 then year - 1 else year
  let era := y / 400
  let yoe := y - era * 400
  let mp := if 2 < month then month - 3 else month + 9
  era * 146097 + startOfYear yoe + startOfMonth mp + day - 1 - 719468

/-- A later day of a month is as many days later. -/
theorem daysFromCivil_add (year month day k : Int) :
    daysFromCivil year month (day + k) = daysFromCivil year month day + k := by
  simp only [daysFromCivil]
  omega

/-! ## Decomposing an era -/

/-- Every day of an era is `c` centuries of 36524 days, `q` quadrennia of 1461 days, `r` years
of 365 days and a day of its year; the 366th day of a year, the leap day, comes only at the end
of a quadrennium, and of the last quadrennium of a century only in the era's fourth century. -/
theorem dayOfEra_decomp (doe : Int) (h0 : 0 ≤ doe) (h1 : doe < 146097) :
    ∃ c q r doy, (0 ≤ c ∧ c ≤ 3) ∧ (0 ≤ q ∧ q ≤ 24) ∧ (0 ≤ r ∧ r ≤ 3) ∧ (0 ≤ doy ∧ doy ≤ 365) ∧
      (doy = 365 → r = 3 ∧ (q < 24 ∨ c = 3)) ∧ doe = 36524 * c + 1461 * q + 365 * r + doy := by
  -- the fourth century of an era also holds the era's last day
  obtain ⟨c, hc, hc1, hc2⟩ : ∃ c, (0 ≤ c ∧ c ≤ 3) ∧ 36524 * c ≤ doe ∧
      (doe - 36524 * c < 36524 ∨ c = 3) :=
    ⟨min (doe / 36524) 3, by omega, by omega, by omega⟩
  obtain ⟨q, r', hq, hr', hqr⟩ : ∃ q r', (0 ≤ q ∧ q ≤ 24) ∧ (0 ≤ r' ∧ r' < 1461) ∧
      doe - 36524 * c = 1461 * q + r' :=
    ⟨(doe - 36524 * c) / 1461, (doe - 36524 * c) % 1461, by omega, by omega, by omega⟩
  -- the fourth year of a quadrennium also holds its leap day
  refine ⟨c, q, min (r' / 365) 3, r' - 365 * min (r' / 365) 3, hc, hq, by omega, by omega, ?_,
    by omega⟩
  intro h365
  omega

/-- `yearOfEra` finds the year of a day written as in `dayOfEra_decomp`. -/
theorem yearOfEra_decomp {c q r doy : Int} (hc : 0 ≤ c ∧ c ≤ 3) (hq : 0 ≤ q ∧ q ≤ 24)
    (hr : 0 ≤ r ∧ r ≤ 3) (hd : 0 ≤ doy ∧ doy ≤ 365) (hleap : doy = 365 → r = 3 ∧ (q < 24 ∨ c = 3)) :
    yearOfEra (36524 * c + 1461 * q + 365 * r + doy) = 100 * c + 4 * q + r := by
  unfold yearOfEra
  generalize hdoe : 36524 * c + 1461 * q + 365 * r + doy = doe
  -- the first division counts a quadrennium of 1461 days as 1460, one day too many at its end
  have he : doe / 1460 = 25 * c + q + (24 * c + q + 365 * r + doy) / 1460 := by
    have : doe = (24 * c + q + 365 * r + doy) + (25 * c + q) * 1460 := by omega
    rw [this, Int.add_mul_ediv_right _ _ (by decide)]
    omega
  generalize hk : (24 * c + q + 365 * r + doy) / 1460 = k at he
  have hk1 : 1460 * k ≤ 24 * c + q + 365 * r + doy := by omega
  have hk2 : 24 * c + q + 365 * r + doy < 1460 * (k + 1) := by omega
  -- and the day it takes off too many is the leap day, the only 366th day of a year
  have hdk : 0 ≤ doy - k ∧ doy - k < 365 := by
    by_cases h365 : doy = 365
    · obtain ⟨rfl, -⟩ := hleap h365
      omega
    · omega
  by_cases hlast : doy = 365 ∧ q = 24 ∧ c = 3
  · -- the era's last day, the leap day of its fourth century
    obtain ⟨rfl, rfl, rfl⟩ := hlast
    obtain ⟨rfl, -⟩ := hleap rfl
    omega
  · have hrest : 1461 * q + 365 * r + doy < 36524 := by
      by_cases h365 : doy = 365
      · have hq24 : q < 24 := Int.lt_of_not_ge fun hq' =>
          hlast ⟨h365, by omega, (hleap h365).2.resolve_left (by omega)⟩
        have hr3 := (hleap h365).1
        omega
      · omega
    have hf : doe / 36524 = c := by
      have : doe = (1461 * q + 365 * r + doy) + c * 36524 := by omega
      rw [this, Int.add_mul_ediv_right _ _ (by decide), Int.ediv_eq_zero_of_lt (by omega) hrest,
        Int.zero_add]
    have hg : doe / 146096 = 0 := Int.ediv_eq_zero_of_lt (by omega) (by omega)
    have hN : doe - doe / 1460 + doe / 36524 - doe / 146096 =
        (doy - k) + (100 * c + 4 * q + r) * 365 := by omega
    rw [hN, Int.add_mul_ediv_right _ _ (by decide), Int.ediv_eq_zero_of_lt hdk.1 hdk.2,
      Int.zero_add]

theorem startOfYear_decomp {c q r : Int} (hq : 0 ≤ q ∧ q ≤ 24) (hr : 0 ≤ r ∧ r ≤ 3) :
    startOfYear (100 * c + 4 * q + r) = 36524 * c + 1461 * q + 365 * r := by
  unfold startOfYear
  omega

/-- `marchMonth` finds the month whose start is the last one before the day. -/
theorem marchMonth_spec {doy : Int} (h0 : 0 ≤ doy) (h1 : doy ≤ 365) :
    0 ≤ marchMonth doy ∧ marchMonth doy ≤ 11 ∧ startOfMonth (marchMonth doy) ≤ doy ∧
      doy < startOfMonth (marchMonth doy + 1) := by
  unfold marchMonth startOfMonth
  omega

theorem marchMonth_eq {mp doy : Int} (hlo : startOfMonth mp ≤ doy)
    (hhi : doy < startOfMonth (mp + 1)) : marchMonth doy = mp := by
  unfold marchMonth
  unfold startOfMonth at hlo hhi
  omega

/-- `daysFromCivil` of a date whose year is written by eras, centuries, quadrennia and years, and
whose month is counted from March: the days of all of them, and of the month before the day. -/
theorem daysFromCivil_of_decomp {era c q r mp : Int} (hc : 0 ≤ c ∧ c ≤ 3) (hq : 0 ≤ q ∧ q ≤ 24)
    (hr : 0 ≤ r ∧ r ≤ 3) (hm : 0 ≤ mp ∧ mp ≤ 11) (day : Int) :
    daysFromCivil (100 * c + 4 * q + r + era * 400 + (if civilMonth mp ≤ 2 then 1 else 0))
        (civilMonth mp) day =
      era * 146097 + (36524 * c + 1461 * q + 365 * r + (startOfMonth mp + day - 1)) - 719468 := by
  -- the year before March is the year of the era that the date falls in
  have hy : (if civilMonth mp ≤ 2 then
      100 * c + 4 * q + r + era * 400 + (if civilMonth mp ≤ 2 then 1 else 0) - 1
      else 100 * c + 4 * q + r + era * 400 + (if civilMonth mp ≤ 2 then 1 else 0)) =
      100 * c + 4 * q + r + era * 400 := by
    split <;> simp_all
  have hera : (100 * c + 4 * q + r + era * 400) / 400 = era := by omega
  have hmp : (if 2 < civilMonth mp then civilMonth mp - 3 else civilMonth mp + 9) = mp := by
    unfold civilMonth
    split <;> split <;> omega
  simp only [daysFromCivil, hy, hera, hmp,
    show 100 * c + 4 * q + r + era * 400 - era * 400 = 100 * c + 4 * q + r by omega,
    startOfYear_decomp hq hr]
  omega

/-- `Time.civil` of a day written by eras, centuries, quadrennia, years and a day of the year. -/
theorem civil_of_decomp {days era c q r doy : Int} (hc : 0 ≤ c ∧ c ≤ 3) (hq : 0 ≤ q ∧ q ≤ 24)
    (hr : 0 ≤ r ∧ r ≤ 3) (hd : 0 ≤ doy ∧ doy ≤ 365) (hleap : doy = 365 → r = 3 ∧ (q < 24 ∨ c = 3))
    (h : days + 719468 = era * 146097 + (36524 * c + 1461 * q + 365 * r + doy)) :
    Time.civil days =
      (100 * c + 4 * q + r + era * 400 + (if civilMonth (marchMonth doy) ≤ 2 then 1 else 0),
        (civilMonth (marchMonth doy)).toNat, (doy - startOfMonth (marchMonth doy) + 1).toNat) := by
  have hera : (days + 719468) / 146097 = era := by omega
  have hdoe : days + 719468 - era * 146097 = 36524 * c + 1461 * q + 365 * r + doy := by omega
  have hdoy : 36524 * c + 1461 * q + 365 * r + doy - startOfYear (100 * c + 4 * q + r) = doy := by
    rw [startOfYear_decomp hq hr]
    omega
  rw [civil_eq]
  simp only [hera, hdoe, yearOfEra_decomp hc hq hr hd hleap, hdoy]

theorem isLeap_iff (year : Int) :
    isLeap year = true ↔ year % 4 = 0 ∧ (year % 100 ≠ 0 ∨ year % 400 = 0) := by
  simp [isLeap]

/-- The months from March to January have the days between their start and the next month's. -/
theorem daysIn_civilMonth {mp : Int} (h0 : 0 ≤ mp) (h1 : mp ≤ 10) (year : Int) :
    daysIn (civilMonth mp) year = startOfMonth (mp + 1) - startOfMonth mp := by
  interval_cases mp <;> rfl

/-- February, the month 11 counted from March, has its leap day as the 366th day of the year. -/
theorem daysIn_february (year : Int) :
    daysIn (civilMonth 11) year = if isLeap year then 29 else 28 := rfl

/-! ## The calendar -/

/-- `Time.civil` gives a date of the calendar: a month from 1 to 12, and a day of that month. -/
theorem civil_valid (days : Int) :
    1 ≤ ((Time.civil days).2.1 : Int) ∧ ((Time.civil days).2.1 : Int) ≤ 12 ∧
      1 ≤ ((Time.civil days).2.2 : Int) ∧
      ((Time.civil days).2.2 : Int) ≤ daysIn (Time.civil days).2.1 (Time.civil days).1 := by
  obtain ⟨c, q, r, doy, hc, hq, hr, hd, hleap, hdoe⟩ :=
    dayOfEra_decomp (days + 719468 - (days + 719468) / 146097 * 146097) (by omega) (by omega)
  rw [@civil_of_decomp days ((days + 719468) / 146097) _ _ _ _ hc hq hr hd hleap (by omega)]
  obtain ⟨hm0, hm1, hlo, hhi⟩ := marchMonth_spec hd.1 hd.2
  generalize marchMonth doy = mp at *
  have hmonth : 1 ≤ civilMonth mp ∧ civilMonth mp ≤ 12 := by
    unfold civilMonth
    split <;> omega
  simp only [Int.toNat_of_nonneg (show 0 ≤ civilMonth mp by omega),
    Int.toNat_of_nonneg (show 0 ≤ doy - startOfMonth mp + 1 by omega)]
  refine ⟨hmonth.1, hmonth.2, by omega, ?_⟩
  by_cases hfeb : mp = 11
  · -- February: its 29th day is the 366th of the year, which only a leap year has
    subst hfeb
    rw [daysIn_february, show (if civilMonth 11 ≤ 2 then (1 : Int) else 0) = 1 from rfl,
      show startOfMonth 11 = 337 from rfl]
    split
    · omega
    · rename_i hnot
      have h364 : doy ≠ 365 := fun h365 => by
        obtain ⟨rfl, hqc⟩ := hleap h365
        exact hnot ((isLeap_iff _).2 (by omega))
      omega
  · rw [daysIn_civilMonth hm0 (by omega)]
    omega

/-- `daysFromCivil` counts back the days of the date `Time.civil` gives. -/
theorem daysFromCivil_civil (days : Int) :
    daysFromCivil (Time.civil days).1 (Time.civil days).2.1 (Time.civil days).2.2 = days := by
  obtain ⟨c, q, r, doy, hc, hq, hr, hd, hleap, hdoe⟩ :=
    dayOfEra_decomp (days + 719468 - (days + 719468) / 146097 * 146097) (by omega) (by omega)
  rw [@civil_of_decomp days ((days + 719468) / 146097) _ _ _ _ hc hq hr hd hleap (by omega)]
  obtain ⟨hm0, hm1, hlo, hhi⟩ := marchMonth_spec hd.1 hd.2
  generalize marchMonth doy = mp at *
  have hmonth : 0 ≤ civilMonth mp := by
    unfold civilMonth
    split <;> omega
  simp only [Int.toNat_of_nonneg hmonth,
    Int.toNat_of_nonneg (show 0 ≤ doy - startOfMonth mp + 1 by omega),
    daysFromCivil_of_decomp hc hq hr ⟨hm0, hm1⟩]
  omega

/-- `Time.civil` gives back a date of the calendar from its count of days. -/
theorem civil_daysFromCivil {year month day : Int} (hm : 1 ≤ month ∧ month ≤ 12)
    (hd : 1 ≤ day ∧ day ≤ daysIn month year) :
    Time.civil (daysFromCivil year month day) = (year, month.toNat, day.toNat) := by
  -- the year from March, written by eras, centuries, quadrennia and years
  obtain ⟨mp, hmp, rfl⟩ : ∃ mp, (0 ≤ mp ∧ mp ≤ 11) ∧ civilMonth mp = month :=
    ⟨if 2 < month then month - 3 else month + 9, by split <;> omega,
      by unfold civilMonth; split <;> split <;> omega⟩
  obtain ⟨era, c, q, r, hc, hq, hr, rfl⟩ : ∃ era c q r, (0 ≤ c ∧ c ≤ 3) ∧ (0 ≤ q ∧ q ≤ 24) ∧
      (0 ≤ r ∧ r ≤ 3) ∧
      year = 100 * c + 4 * q + r + era * 400 + (if civilMonth mp ≤ 2 then 1 else 0) :=
    ⟨(year - (if civilMonth mp ≤ 2 then 1 else 0)) / 400,
      (year - (if civilMonth mp ≤ 2 then 1 else 0)) % 400 / 100,
      (year - (if civilMonth mp ≤ 2 then 1 else 0)) % 100 / 4,
      (year - (if civilMonth mp ≤ 2 then 1 else 0)) % 4, by omega, by omega, by omega, by omega⟩
  -- the day of the year, which is the 366th only on the leap day of a leap year
  have hday : startOfMonth mp + day - 1 < startOfMonth (mp + 1) ∧ startOfMonth mp + day - 1 ≤ 365 ∧
      (startOfMonth mp + day - 1 = 365 → r = 3 ∧ (q < 24 ∨ c = 3)) := by
    by_cases hfeb : mp = 11
    · subst hfeb
      rw [daysIn_february, show (if civilMonth 11 ≤ 2 then (1 : Int) else 0) = 1 from rfl] at hd
      rw [show startOfMonth 11 = 337 from rfl, show startOfMonth (11 + 1) = 367 from rfl]
      split at hd
      · rename_i hl
        rw [isLeap_iff] at hl
        omega
      · omega
    · rw [daysIn_civilMonth hmp.1 (by omega)] at hd
      have : startOfMonth (mp + 1) ≤ 337 := by
        unfold startOfMonth
        omega
      omega
  obtain ⟨hhi, h365, hleap⟩ := hday
  have hs0 : 0 ≤ startOfMonth mp := by
    unfold startOfMonth
    omega
  rw [daysFromCivil_of_decomp hc hq hr hmp,
    @civil_of_decomp (_ - 719468) era _ _ _ _ hc hq hr ⟨by omega, h365⟩ hleap (by omega),
    @marchMonth_eq mp _ (by omega) hhi,
    show startOfMonth mp + day - 1 - startOfMonth mp + 1 = day by omega]

/-! ## `time.Date` and `time.Unix` -/

/-- `norm(hi, lo, base)`: `lo` brought into `[0, base)`, what it is over or under carried into
`hi`. Both divisions are of nonnegative numbers. -/
def norm (hi lo base : Int) : Int × Int :=
  let hl : Int × Int :=
    if lo < 0 then
      let n := (-lo - 1).tdiv base + 1
      (hi - n, lo + n * base)
    else (hi, lo)
  if hl.2 ≥ base then
    let n := hl.2.tdiv base
    (hl.1 + n, hl.2 - n * base)
  else hl

/-- `norm` is the floor division of `lo` by `base`, carried into `hi`, and its remainder. -/
theorem norm_eq (hi lo : Int) {base : Int} (hb : 0 < base) :
    norm hi lo base = (hi + lo / base, lo % base) := by
  have hdm := Int.ediv_mul_add_emod lo base
  have h0 := Int.emod_nonneg lo hb.ne'
  have h1 := Int.emod_lt_of_pos lo hb
  unfold norm
  by_cases hlo : lo < 0
  · -- the first step adds the fewest multiples of `base` that make `lo` nonnegative
    have hn : (-lo - 1).tdiv base = -(lo / base) - 1 := by
      rw [Int.tdiv_eq_ediv_of_nonneg (by omega)]
      refine ((Int.ediv_emod_unique (r := base - 1 - lo % base) hb).2 ⟨?_, by omega, by omega⟩).1
      linarith
    have hlt : ¬(lo + ((-lo - 1).tdiv base + 1) * base ≥ base) := by
      rw [hn]
      linarith
    simp only [if_pos hlo]
    rw [if_neg hlt, hn, Prod.mk.injEq]
    constructor <;> linarith
  · by_cases hge : lo ≥ base
    · simp only [if_neg hlo, if_pos hge]
      rw [Int.tdiv_eq_ediv_of_nonneg (by omega : 0 ≤ lo), Prod.mk.injEq]
      exact ⟨rfl, by linarith⟩
    · -- `lo` is in range already
      have hq : lo / base = 0 := Int.ediv_eq_zero_of_lt (by omega) (by omega)
      have hr : lo % base = lo := Int.emod_eq_of_lt (by omega) (by omega)
      simp [hlo, hge, hq, hr]

theorem norm_snd_lt (hi lo : Int) {base : Int} (hb : 0 < base) :
    0 ≤ (norm hi lo base).2 ∧ (norm hi lo base).2 < base := by
  rw [norm_eq hi lo hb]
  exact ⟨Int.emod_nonneg lo hb.ne', Int.emod_lt_of_pos lo hb⟩

/-- `time.Date(year, time.Month(month), day, hour, min, sec, nsec, time.UTC)`: the month is
brought into 1 to 12 and the clock into its ranges, what is over or under carried into the year
and the day, and the day counts on from the first of the month. -/
def date (year month day hour min sec nsec : Int) : Time :=
  let ym := norm year (month - 1) 12
  let sn := norm sec nsec 1000000000
  let ms := norm min sn.1 60
  let hm := norm hour ms.1 60
  let dh := norm day hm.1 24
  { unixSec := daysFromCivil ym.1 (ym.2 + 1) dh.1 * 86400 + dh.2 * 3600 + hm.2 * 60 + ms.2
    nsec := sn.2.toNat
    nsec_lt := by
      show (norm sec nsec 1000000000).2.toNat < 1000000000
      have := norm_snd_lt sec nsec (by decide : (0 : Int) < 1000000000)
      omega
    offset := 0 }

/-- The seconds of `time.Date`: the days of the date, with the month brought into range, and
the clock, everything over its range carried on. -/
theorem date_unixSec (year month day hour min sec nsec : Int) :
    (date year month day hour min sec nsec).unixSec =
      daysFromCivil (year + (month - 1) / 12) ((month - 1) % 12 + 1) day * 86400 +
        hour * 3600 + min * 60 + sec + nsec / 1000000000 := by
  simp only [date, norm_eq _ _ (by decide : (0 : Int) < 12),
    norm_eq _ _ (by decide : (0 : Int) < 1000000000), norm_eq _ _ (by decide : (0 : Int) < 60),
    norm_eq _ _ (by decide : (0 : Int) < 24), daysFromCivil_add]
  omega

theorem date_nsec (year month day hour min sec nsec : Int) :
    (date year month day hour min sec nsec).nsec = (nsec % 1000000000).toNat := by
  simp only [date, norm_eq _ _ (by decide : (0 : Int) < 1000000000)]

theorem date_offset (year month day hour min sec nsec : Int) :
    (date year month day hour min sec nsec).offset = 0 := rfl

attribute [ext] Time

/-- The instant in UTC whose clock reads what `t`'s clock reads in its location. -/
def Time.inUTC (t : Time) : Time := { t with unixSec := t.abs, offset := 0 }

/-- `time.Date` of the fields of a time, in UTC, is the time in UTC whose clock reads the
same. -/
theorem date_fields (t : Time) :
    date t.date.1 t.date.2.1 t.date.2.2 t.clock.1 t.clock.2.1 t.clock.2.2 t.nsec = t.inUTC := by
  obtain ⟨hm1, hm12, -, -⟩ := civil_valid (t.abs / 86400)
  have hdays := daysFromCivil_civil (t.abs / 86400)
  have hn := t.nsec_lt
  ext
  · rw [date_unixSec]
    simp only [Time.date, Time.clock, Time.inUTC] at hm1 hm12 ⊢
    -- the month is in range, so nothing is carried into the year
    rw [show ((Time.civil (t.abs / 86400)).2.1 - 1 : Int) / 12 = 0 by omega,
      show ((Time.civil (t.abs / 86400)).2.1 - 1 : Int) % 12 + 1 = (Time.civil (t.abs / 86400)).2.1
        by omega, Int.add_zero, hdays]
    have h0 : 0 ≤ t.abs % 86400 := Int.emod_nonneg _ (by decide)
    omega
  · rw [date_nsec]
    simp [Time.inUTC]
    omega
  · rfl

/-- The seconds and nanoseconds `time.Unix(sec, nsec)` keeps: nanoseconds outside `[0, 1e9)`
are carried into the seconds, Go's division truncating toward zero. -/
def unixNorm (sec nsec : Int) : Int × Int :=
  if nsec < 0 ∨ nsec ≥ 1000000000 then
    let n := nsec.tdiv 1000000000
    let sec := sec + n
    let nsec := nsec - n * 1000000000
    if nsec < 0 then (sec - 1, nsec + 1000000000) else (sec, nsec)
  else (sec, nsec)

/-- `time.Unix` carries the floor of the nanoseconds' division into the seconds. -/
theorem unixNorm_eq (sec nsec : Int) :
    unixNorm sec nsec = (sec + nsec / 1000000000, nsec % 1000000000) := by
  unfold unixNorm
  simp only [Int.tdiv_eq_ediv, Int.dvd_iff_emod_eq_zero, show Int.sign 1000000000 = 1 from rfl]
  by_cases hin : nsec < 0 ∨ nsec ≥ 1000000000
  · rw [if_pos hin]
    -- toward zero, a negative number not divisible by 1e9 is carried one second too few
    by_cases hexact : 0 ≤ nsec ∨ nsec % 1000000000 = 0
    · rw [if_pos hexact, Int.add_zero, if_neg (by omega), Prod.mk.injEq]
      omega
    · rw [if_neg hexact, if_pos (by omega), Prod.mk.injEq]
      omega
  · rw [if_neg hin, Prod.mk.injEq]
    omega

/-- `time.Unix(sec, nsec).UTC()`. -/
def unix (sec nsec : Int) : Time :=
  { unixSec := (unixNorm sec nsec).1
    nsec := (unixNorm sec nsec).2.toNat
    nsec_lt := by
      rw [unixNorm_eq]
      omega
    offset := 0 }

end Go
