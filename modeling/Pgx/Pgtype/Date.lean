import Pgx.Pgtype.Timestamp

/-!
# `pgtype.Date`, in the text and the binary format

The binary format of a date is the `int32` of days since 2000-01-01, its greatest and least value
standing for infinity and minus infinity; the text format is `YYYY-MM-DD`, with ` BC` after a
year before 1 (Go's year 0 is 1 BC), read back through the regular expression
`^(\d{4,})-(\d\d)-(\d\d)( BC)?$`. Both encoders take the calendar day of the time in its own
location; both scanners give back midnight UTC of the day they read.

* `date_binary_roundTrip`: the binary format gives back the calendar day of every date whose day
  offset fits an `int32` besides the two infinities.
* `date_text_roundTrip`: so does the text format, for every year that fits an `int32`, BC years
  included: unlike the text format of a timestamp, it writes the numbers of the date and does not
  rebuild it in another year.
* `scanDateText_bug_year`: the scanner's error that calls itself a bug is reached, by a year of
  more digits than an `int32` holds, which the regular expression accepts.
-/

namespace Pgx.Pgtype

open Go Go.Time Go.Strconv

/-- `negativeInfinityDayOffset`, the least `int32`. -/
def negativeInfinityDayOffset : Int := -2147483648

/-- `infinityDayOffset`, the greatest `int32`. -/
def infinityDayOffset : Int := 2147483647

/-- `Date`. -/
structure Date where
  time : Time
  infinityModifier : InfinityModifier
  valid : Bool

/-- `Date{}`. -/
def Date.null : Date := ⟨zeroTime, .finite, false⟩

/-! ## The binary format -/

/-- `encodePlanDateCodecBinary.Encode(date, buf)`: `none` is the nil it returns for a NULL date. The
seconds between the two midnights are divided as `int64`s and converted to an `int32`; an
infinity modifier that is none of the three leaves the offset at `0`. -/
def encodeDateBinary (date : Date) (buf : List UInt8) : Option (List UInt8) :=
  if !date.valid then none
  else
    let daysSinceDateEpoch : Int :=
      if date.infinityModifier = .finite then
        let tUnix := (Go.date date.time.date.1 date.time.date.2.1 date.time.date.2.2 0 0 0 0).unixSec
        let dateEpoch := (Go.date 2000 1 1 0 0 0 0).unixSec
        let secSinceDateEpoch := tUnix - dateEpoch
        toInt32 (ofInt32 (secSinceDateEpoch.tdiv 86400))
      else if date.infinityModifier = .infinity then infinityDayOffset
      else if date.infinityModifier = .negativeInfinity then negativeInfinityDayOffset
      else 0
    some (buf ++ putUint32 (ofInt32 daysSinceDateEpoch))

/-- `scanPlanBinaryDateToDateScanner.Scan(src, dst)`: the date it scans, `Date{}` for a nil `src`.
The day `1 + dayOffset` is an `int32` sum. -/
def scanDateBinary (src : Option (List UInt8)) : GoM Date :=
  match src with
  | none => .ok Date.null
  | some src =>
    if src.length ≠ 4 then .error (.error ("invalid length for date: " ++ toString src.length))
    else do
      let dayOffset := toInt32 (← uint32 src)
      if dayOffset = infinityDayOffset then pure ⟨zeroTime, .infinity, true⟩
      else if dayOffset = negativeInfinityDayOffset then pure ⟨zeroTime, .negativeInfinity, true⟩
      else
        let t := Go.date 2000 1 (toInt32 (ofInt32 (1 + dayOffset))) 0 0 0 0
        pure ⟨t, .finite, true⟩

/-! ## The text format -/

/-- `encodePlanDateCodecText.Encode(date, buf)`: the year padded with zeros to four digits, the
month and the day to two. -/
def encodeDateText (date : Date) (buf : List Char) : Option (List Char) :=
  if !date.valid then none
  else
    let s : List Char :=
      if date.infinityModifier = .finite then
        -- year 0000 is 1 BC
        let (year, bc) : Int × Bool :=
          if date.time.date.1 ≤ 0 then (-date.time.date.1 + 1, true) else (date.time.date.1, false)
        let yearBytes := formatInt year
        List.replicate (4 - yearBytes.length) '0' ++ yearBytes ++ ['-'] ++
          (if date.time.date.2.1 < 10 then ['0'] else []) ++ formatInt date.time.date.2.1 ++ ['-'] ++
          (if date.time.date.2.2 < 10 then ['0'] else []) ++ formatInt date.time.date.2.2 ++
          (if bc then " BC".toList else [])
      else if date.infinityModifier = .infinity then "infinity".toList
      else if date.infinityModifier = .negativeInfinity then "-infinity".toList
      else []
    some (buf ++ s)

/-- `dateRegexp.FindStringSubmatch(s)` for `^(\d{4,})-(\d\d)-(\d\d)( BC)?$`: the four groups, the
last one empty when ` BC` is absent. The group of the year is followed by `-`, which is no digit,
so it is the whole run of digits the text starts with. -/
def dateRegexpSubmatch (s : List Char) : Option (List Char × List Char × List Char × List Char) :=
  let year := s.takeWhile Char.isDigit
  match s.dropWhile Char.isDigit with
  | '-' :: m1 :: m2 :: '-' :: d1 :: d2 :: bc =>
    if 4 ≤ year.length ∧ m1.isDigit ∧ m2.isDigit ∧ d1.isDigit ∧ d2.isDigit ∧
        (bc = [] ∨ bc = " BC".toList) then
      some (year, [m1, m2], [d1, d2], bc)
    else none
  | _ => none

/-- `scanPlanTextAnyToDateScanner.Scan(src, dst)`: the date it scans, `Date{}` for a nil `src`. The
error of the day names the month, as the source's does. -/
def scanDateText (src : Option (List Char)) : GoM Date :=
  match src with
  | none => .ok Date.null
  | some sbuf =>
    match dateRegexpSubmatch sbuf with
    | some (y, m, d, bc) =>
      match parseInt y 10 32 with
      | (_, some e) => .error (.error ("BUG: cannot parse date that regexp matched (year): " ++ e.error))
      | (year, none) =>
        match parseInt m 10 32 with
        | (_, some e) =>
          .error (.error ("BUG: cannot parse date that regexp matched (month): " ++ e.error))
        | (month, none) =>
          match parseInt d 10 32 with
          | (_, some e) =>
            .error (.error ("BUG: cannot parse date that regexp matched (month): " ++ e.error))
          | (day, none) =>
            -- BC matched
            let year := if 0 < bc.length then -year + 1 else year
            .ok ⟨Go.date year month day 0 0 0 0, .finite, true⟩
    | none =>
      if sbuf = "infinity".toList then .ok ⟨zeroTime, .infinity, true⟩
      else if sbuf = "-infinity".toList then .ok ⟨zeroTime, .negativeInfinity, true⟩
      else .error (.error "invalid date format")

/-! ## The binary format read back -/

/-- Midnight UTC of the calendar day of a time, in seconds since 1970. -/
theorem unixSec_midnight (t : Time) :
    (Go.date t.date.1 t.date.2.1 t.date.2.2 0 0 0 0).unixSec = t.abs / 86400 * 86400 := by
  have hdate : 1 ≤ (t.date.2.1 : Int) ∧ (t.date.2.1 : Int) ≤ 12 ∧ 1 ≤ (t.date.2.2 : Int) ∧
      (t.date.2.2 : Int) ≤ daysIn t.date.2.1 t.date.1 := civil_valid (t.abs / 86400)
  have hciv : daysFromCivil t.date.1 t.date.2.1 t.date.2.2 = t.abs / 86400 :=
    daysFromCivil_civil (t.abs / 86400)
  rw [date_unixSec, show ((t.date.2.1 : Int) - 1) / 12 = 0 by omega,
    show ((t.date.2.1 : Int) - 1) % 12 + 1 = t.date.2.1 by omega, Int.add_zero t.date.1, hciv]
  omega

/-- `time.Date(2000, 1, 1 + k, 0, 0, 0, 0, time.UTC)`: `k` days after 2000-01-01. -/
theorem unixSec_dateEpoch_add (k : Int) :
    (Go.date 2000 1 (1 + k) 0 0 0 0).unixSec = (10957 + k) * 86400 := by
  rw [date_unixSec, daysFromCivil_add, show daysFromCivil (2000 + (1 - 1) / 12)
    ((1 - 1) % 12 + 1) 1 = 10957 from rfl]
  omega

/-- The binary format gives back the calendar day of a finite date, at midnight UTC, for every
day whose offset from 2000-01-01 fits an `int32` and is none of its two extremes. -/
theorem date_binary_roundTrip (t : Time)
    (hr : -2147483648 < t.abs / 86400 - 10957 ∧ t.abs / 86400 - 10957 < 2147483647) :
    scanDateBinary (encodeDateBinary ⟨t, .finite, true⟩ []) =
      .ok ⟨Go.date t.date.1 t.date.2.1 t.date.2.2 0 0 0 0, .finite, true⟩ := by
  set off := t.abs / 86400 - 10957 with hoff
  -- the encoder's division is exact: the two midnights are whole days apart
  have hdays : ((Go.date t.date.1 t.date.2.1 t.date.2.2 0 0 0 0).unixSec -
      (Go.date 2000 1 1 0 0 0 0).unixSec).tdiv 86400 = off := by
    rw [unixSec_midnight, show (Go.date 2000 1 1 0 0 0 0).unixSec = 10957 * 86400 from rfl,
      ← Int.sub_mul, Int.mul_tdiv_cancel _ (by decide)]
  have hinf : off ≠ infinityDayOffset := by simp only [infinityDayOffset]; omega
  have hninf : off ≠ negativeInfinityDayOffset := by simp only [negativeInfinityDayOffset]; omega
  simp only [encodeDateBinary, Bool.not_true, Bool.false_eq_true, ↓reduceIte, hdays,
    toInt32_ofInt32 (by omega : -2 ^ 31 ≤ off) (by omega : off < 2 ^ 31), List.nil_append]
  rw [← List.append_nil (putUint32 (ofInt32 off))]
  simp only [scanDateBinary, List.length_append, show (putUint32 (ofInt32 off)).length = 4 from rfl,
    List.length_nil, Nat.add_zero]
  rw [if_neg (by decide), uint32_putUint32, ok_bind,
    toInt32_ofInt32 (by omega : -2 ^ 31 ≤ off) (by omega : off < 2 ^ 31), if_neg hinf, if_neg hninf,
    toInt32_ofInt32 (by omega : -2 ^ 31 ≤ 1 + off) (by omega : 1 + off < 2 ^ 31)]
  show Except.ok _ = Except.ok _
  congr 2
  ext
  · rw [unixSec_dateEpoch_add, unixSec_midnight]
    omega
  · simp [date_nsec]
  · rfl

/-- 29 February 2024, 13:05 UTC, comes back as that day at midnight. -/
theorem date_binary_roundTrip_leapDay :
    (-2147483648 < (Go.date 2024 2 29 13 5 0 0).abs / 86400 - 10957 ∧
        (Go.date 2024 2 29 13 5 0 0).abs / 86400 - 10957 < 2147483647) ∧
      scanDateBinary (encodeDateBinary ⟨Go.date 2024 2 29 13 5 0 0, .finite, true⟩ []) =
        .ok ⟨Go.date (Go.date 2024 2 29 13 5 0 0).date.1 (Go.date 2024 2 29 13 5 0 0).date.2.1
          (Go.date 2024 2 29 13 5 0 0).date.2.2 0 0 0 0, .finite, true⟩ :=
  ⟨by decide, date_binary_roundTrip _ (by decide)⟩

/-! ## The text format read back -/

open Go.Fmt

/-- The year as the encoder writes it: its digits, padded with zeros to four. -/
theorem yearText_eq {year : Int} (h : 0 ≤ year) :
    List.replicate (4 - (formatInt year).length) '0' ++ formatInt year =
      List.replicate (4 - (Nat.toDigits 10 year.natAbs).length) '0' ++ Nat.toDigits 10 year.natAbs := by
  simp [formatInt, Int.not_lt.mpr h]

/-- A month or a day as the encoder writes it: padded by hand to two digits. -/
theorem twoDigits_eq {n : Nat} (h : n < 100) :
    (if n < 10 then ['0'] else []) ++ formatInt n =
      List.replicate (2 - (Nat.toDigits 10 n).length) '0' ++ Nat.toDigits 10 n := by
  have h2 := (Nat.length_toDigits_le_iff (b := 10) (by decide) (by decide : 0 < 2)).2 h
  have h1 := Nat.length_toDigits_le_iff (n := n) (b := 10) (by decide) (by decide : 0 < 1)
  have hpos := Nat.length_toDigits_pos (b := 10) (n := n)
  by_cases h10 : n < 10
  · have hl : (Nat.toDigits 10 n).length = 1 := by
      have := h1.2 (by simpa using h10)
      omega
    simp [formatInt, hl, h10]
  · have hl : (Nat.toDigits 10 n).length = 2 := by
      have := mt h1.1 (by simpa using h10)
      omega
    simp [formatInt, hl, h10]

/-- Two digits read as a number below 100. -/
theorem ofDigitChars_two_lt {c1 c2 : Char} (h1 : c1.isDigit) (h2 : c2.isDigit) :
    Nat.ofDigitChars 10 [c1, c2] 0 < 100 := by
  have := (isDigit_bounds h1).2.2
  have := (isDigit_bounds h2).2.2
  simp only [Nat.ofDigitChars_cons, Nat.ofDigitChars_nil]
  omega

/-- The regular expression matches a run of at least four digits, a dash, two digits, a dash, two
digits and an optional era. -/
theorem dateRegexpSubmatch_digits {ys : List Char} (hys : ∀ c ∈ ys, c.isDigit) (hlen : 4 ≤ ys.length)
    {m1 m2 d1 d2 : Char} (hm1 : m1.isDigit) (hm2 : m2.isDigit) (hd1 : d1.isDigit) (hd2 : d2.isDigit)
    {bc : List Char} (hbc : bc = [] ∨ bc = " BC".toList) :
    dateRegexpSubmatch (ys ++ '-' :: m1 :: m2 :: '-' :: d1 :: d2 :: bc) =
      some (ys, [m1, m2], [d1, d2], bc) := by
  -- the run of digits stops at the dash
  have htake : (ys ++ '-' :: m1 :: m2 :: '-' :: d1 :: d2 :: bc).takeWhile Char.isDigit = ys := by
    rw [List.takeWhile_append_of_pos hys, List.takeWhile_cons_of_neg (by decide), List.append_nil]
  have hdrop : (ys ++ '-' :: m1 :: m2 :: '-' :: d1 :: d2 :: bc).dropWhile Char.isDigit =
      '-' :: m1 :: m2 :: '-' :: d1 :: d2 :: bc := by
    rw [List.dropWhile_append_of_pos hys, List.dropWhile_cons_of_neg (by decide)]
  simp only [dateRegexpSubmatch, htake, hdrop]
  rw [if_pos ⟨hlen, hm1, hm2, hd1, hd2, hbc⟩]

/-- The scanner reads every text the regular expression matches whose year fits an `int32`. -/
theorem scanDateText_digits {ys : List Char} (hys : ∀ c ∈ ys, c.isDigit) (hlen : 4 ≤ ys.length)
    (hv : Nat.ofDigitChars 10 ys 0 < 2 ^ 31) {m1 m2 d1 d2 : Char} (hm1 : m1.isDigit)
    (hm2 : m2.isDigit) (hd1 : d1.isDigit) (hd2 : d2.isDigit) {bc : List Char}
    (hbc : bc = [] ∨ bc = " BC".toList) :
    scanDateText (some (ys ++ '-' :: m1 :: m2 :: '-' :: d1 :: d2 :: bc)) =
      .ok ⟨Go.date (if 0 < bc.length then -(Nat.ofDigitChars 10 ys 0 : Int) + 1
          else (Nat.ofDigitChars 10 ys 0 : Int))
        (Nat.ofDigitChars 10 [m1, m2] 0) (Nat.ofDigitChars 10 [d1, d2] 0) 0 0 0 0, .finite, true⟩ := by
  have hne : ys ≠ [] := List.ne_nil_of_length_pos (by omega)
  have hm := ofDigitChars_two_lt hm1 hm2
  have hd := ofDigitChars_two_lt hd1 hd2
  simp only [scanDateText, dateRegexpSubmatch_digits hys hlen hm1 hm2 hd1 hd2 hbc, parseInt_decimal (by decide : 1 ≤ 32 ∧ 32 ≤ 64) hne hys hv,
    parseInt_decimal (by decide : 1 ≤ 32 ∧ 32 ≤ 64) (List.cons_ne_nil _ _) (by simp [hm1, hm2])
      (by omega : Nat.ofDigitChars 10 [m1, m2] 0 < 2 ^ (32 - 1)),
    parseInt_decimal (by decide : 1 ≤ 32 ∧ 32 ≤ 64) (List.cons_ne_nil _ _) (by simp [hd1, hd2])
      (by omega : Nat.ofDigitChars 10 [d1, d2] 0 < 2 ^ (32 - 1))]

/-- The error the scanner calls a bug is reached: the regular expression takes a year of any
number of digits, which `ParseInt` rejects from `2 ^ 31` on. -/
theorem scanDateText_bug_year {ys : List Char} (hys : ∀ c ∈ ys, c.isDigit) (hlen : 4 ≤ ys.length)
    (hv : 2 ^ 31 ≤ Nat.ofDigitChars 10 ys 0) {m1 m2 d1 d2 : Char} (hm1 : m1.isDigit)
    (hm2 : m2.isDigit) (hd1 : d1.isDigit) (hd2 : d2.isDigit) {bc : List Char}
    (hbc : bc = [] ∨ bc = " BC".toList) :
    scanDateText (some (ys ++ '-' :: m1 :: m2 :: '-' :: d1 :: d2 :: bc)) =
      .error (.error ("BUG: cannot parse date that regexp matched (year): " ++
        NumError.error ⟨"ParseInt", ys, .outOfRange⟩)) := by
  have hne : ys ≠ [] := List.ne_nil_of_length_pos (by omega)
  simp only [scanDateText, dateRegexpSubmatch_digits hys hlen hm1 hm2 hd1 hd2 hbc,
    parseInt_outOfRange (by decide : 1 ≤ 32 ∧ 32 ≤ 64) hne hys hv]

/-- The year 2147483648, one past the greatest `int32`, on 1 January. -/
theorem scanDateText_bug_year_twoPow31 :
    ((∀ c ∈ "2147483648".toList, c.isDigit) ∧ 4 ≤ "2147483648".toList.length ∧
        2 ^ 31 ≤ Nat.ofDigitChars 10 "2147483648".toList 0) ∧
      scanDateText (some ("2147483648".toList ++ '-' :: '0' :: '1' :: '-' :: '0' :: '1' :: [])) =
        .error (.error ("BUG: cannot parse date that regexp matched (year): " ++
          NumError.error ⟨"ParseInt", "2147483648".toList, .outOfRange⟩)) :=
  have hys : ∀ c ∈ "2147483648".toList, c.isDigit := by simp [Char.isDigit]
  have hlen : 4 ≤ "2147483648".toList.length := by simp
  have hv : 2 ^ 31 ≤ Nat.ofDigitChars 10 "2147483648".toList 0 := by decide
  ⟨⟨hys, hlen, hv⟩,
    scanDateText_bug_year hys hlen hv (by decide) (by decide) (by decide) (by decide) (Or.inl rfl)⟩

/-- A month or a day as the encoder writes it: two digits, which read back as it. -/
theorem twoDigits_cons {n : Nat} (h : n < 100) :
    ∃ c1 c2, (∀ rest, (if n < 10 then ['0'] else []) ++ (formatInt n ++ rest) = c1 :: c2 :: rest) ∧
      c1.isDigit ∧
      c2.isDigit ∧ Nat.ofDigitChars 10 [c1, c2] 0 = n := by
  have hd := padDigits_isDigit (2 - (Nat.toDigits 10 n).length) n
  have hv := ofDigitChars_padDigits (2 - (Nat.toDigits 10 n).length) n
  obtain ⟨c1, c2, hcs⟩ :=
    List.length_eq_two.1 (length_padDigits (n := n) (w := 2) (by decide) (by omega))
  rw [hcs] at hd hv
  refine ⟨c1, c2, fun rest => ?_, hd c1 (by simp), hd c2 (by simp), hv⟩
  rw [← List.append_assoc, twoDigits_eq h, hcs]
  rfl

/-- The text format gives back the calendar day of a finite date, at midnight UTC, for every
year whose number, or BC number, fits an `int32`. -/
theorem date_text_roundTrip (t : Time) (hy : -2147483646 ≤ t.date.1 ∧ t.date.1 < 2147483648) :
    scanDateText (encodeDateText ⟨t, .finite, true⟩ []) =
      .ok ⟨Go.date t.date.1 t.date.2.1 t.date.2.2 0 0 0 0, .finite, true⟩ := by
  have hdate : 1 ≤ (t.date.2.1 : Int) ∧ (t.date.2.1 : Int) ≤ 12 ∧ 1 ≤ (t.date.2.2 : Int) ∧
      (t.date.2.2 : Int) ≤ daysIn t.date.2.1 t.date.1 := civil_valid (t.abs / 86400)
  have hd31 : daysIn t.date.2.1 t.date.1 ≤ 31 := by
    simp only [daysIn]
    split
    · split <;> omega
    · omega
  obtain ⟨m1, m2, hm, hm1, hm2, hmv⟩ := twoDigits_cons (n := t.date.2.1) (by omega)
  obtain ⟨d1, d2, hd, hd1, hd2, hdv⟩ := twoDigits_cons (n := t.date.2.2) (by omega)
  -- the year written: its BC number before year 1
  have hY : ∀ Y : Int, 0 < Y → Y < 2 ^ 31 → ∀ bc : List Char, (bc = [] ∨ bc = " BC".toList) →
      scanDateText (some (List.replicate (4 - (formatInt Y).length) '0' ++ (formatInt Y ++
        '-' :: m1 :: m2 :: '-' :: d1 :: d2 :: bc))) =
        .ok ⟨Go.date (if 0 < bc.length then -Y + 1 else Y) t.date.2.1 t.date.2.2 0 0 0 0, .finite, true⟩ := by
    intro Y h0 h1 bc hbc
    have hv := ofDigitChars_padDigits (4 - (Nat.toDigits 10 Y.natAbs).length) Y.natAbs
    have hds := padDigits_isDigit (4 - (Nat.toDigits 10 Y.natAbs).length) Y.natAbs
    have hlen : 4 ≤ (List.replicate (4 - (Nat.toDigits 10 Y.natAbs).length) '0' ++
        Nat.toDigits 10 Y.natAbs).length := by
      rw [List.length_append, List.length_replicate]
      omega
    rw [← List.append_assoc, yearText_eq (by omega)]
    generalize List.replicate (4 - (Nat.toDigits 10 Y.natAbs).length) '0' ++
      Nat.toDigits 10 Y.natAbs = ys at hv hds hlen
    rw [scanDateText_digits hds hlen (by omega) hm1 hm2 hd1 hd2 hbc, hv, hmv, hdv,
      Int.natAbs_of_nonneg (by omega)]
  simp only [encodeDateText, Bool.not_true, Bool.false_eq_true, ↓reduceIte, List.nil_append]
  by_cases h0 : t.date.1 ≤ 0
  · simp only [h0, ↓reduceIte, List.append_assoc, List.cons_append, hm, hd,
      List.nil_append]
    rw [hY _ (by omega) (by omega) _ (.inr rfl), if_pos (by decide),
      show -(-t.date.1 + 1) + 1 = t.date.1 by omega]
  · simp only [h0, ↓reduceIte, Bool.false_eq_true, List.append_assoc, List.cons_append, hm, hd,
      List.nil_append]
    rw [hY _ (by omega) (by omega) _ (.inl rfl), if_neg (by decide)]

/-- The Ides of March of 44 BC (Go's year -43), at noon: the text ends in ` BC` and reads back. -/
theorem date_text_roundTrip_idesOfMarch :
    (-2147483646 ≤ (Go.date (-43) 3 15 12 0 0 0).date.1 ∧
        (Go.date (-43) 3 15 12 0 0 0).date.1 < 2147483648) ∧
      scanDateText (encodeDateText ⟨Go.date (-43) 3 15 12 0 0 0, .finite, true⟩ []) =
        .ok ⟨Go.date (Go.date (-43) 3 15 12 0 0 0).date.1 (Go.date (-43) 3 15 12 0 0 0).date.2.1
          (Go.date (-43) 3 15 12 0 0 0).date.2.2 0 0 0 0, .finite, true⟩ :=
  ⟨by decide, date_text_roundTrip _ (by decide)⟩

end Pgx.Pgtype
