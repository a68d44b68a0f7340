import Pgx.Go.TimeParse
import Pgx.Pgtype.Numeric

/-!
# `pgtype.Timestamp`, in the text and the binary format

The binary format of a timestamp is the `int64` of microseconds since 2000-01-01 00:00:00, its
greatest and least value standing for infinity and minus infinity. The text format is the layout
`2006-01-02 15:04:05.999999999` of package `time`, with ` BC` after a year before 1: Go's year 0
is 1 BC.

A timestamp is encoded by the clock it reads in its own location (`discardTimeZone`), which is
the time in UTC whose clock reads the same (`Time.inUTC`), and it is scanned in UTC.

* `timestamp_binary_roundTrip`: the binary format gives back that time truncated to the
  microsecond, for every time whose microseconds fit an `int64` besides the two infinities.
* `timestamp_text_roundTrip`: so does the text format, for the years 9998 BC to 9999 but the
  29 February of a year BC.
* `timestamp_text_roundTrip_fails`: the text format does not for the year 10000, although
  PostgreSQL's timestamps go up to 294276: `time.Parse` reads four digits of year, and the scan
  fails. Nor for 29 February of a leap year BC: the encoder rebuilds the date in the year of the
  BC number, which is not a leap year, and `time.Date` carries the day into March.

The scans take `ScanLocation` to be nil, and Go strings are lists of characters: every text
here is ASCII.
-/

namespace Pgx.Pgtype

open Go Go.Time

/-- Go's zero `time.Time`, 0001-01-01 00:00:00 UTC. -/
def zeroTime : Time := ⟨-62135596800, 0, by decide, 0⟩

/-- `microsecFromUnixEpochToY2K`. -/
def microsecFromUnixEpochToY2K : Int64 := 946684800 * 1000000

/-- `infinityMicrosecondOffset`, the greatest `int64`. -/
def infinityMicrosecondOffset : Int64 := 9223372036854775807

/-- `negativeInfinityMicrosecondOffset`, the least `int64`. -/
def negativeInfinityMicrosecondOffset : Int64 := -9223372036854775808

/-- `Timestamp`. -/
structure Timestamp where
  time : Time
  infinityModifier : InfinityModifier
  valid : Bool

/-- `Timestamp{}`. -/
def Timestamp.null : Timestamp := ⟨zeroTime, .finite, false⟩

/-- `pgTimestampFormat`, `"2006-01-02 15:04:05.999999999"`, as the chunks `nextStdChunk` splits
it into. -/
def pgTimestampFormat : List Chunk :=
  [.longYear, .lit ['-'], .zeroMonth, .lit ['-'], .zeroDay, .lit [' '], .hour, .lit [':'],
    .zeroMinute, .lit [':'], .zeroSecond, .fracSecond9]

/-- `discardTimeZone(t)`: a time in a location other than UTC is rebuilt in UTC from the fields
of its clock. A location is known here by its offset. -/
def discardTimeZone (t : Time) : Time :=
  if t.offset ≠ 0 then
    Go.date t.date.1 t.date.2.1 t.date.2.2 t.clock.1 t.clock.2.1 t.clock.2.2 t.nsec
  else t

/-! ## The binary format of a timestamp -/

/-- `encodePlanTimestampCodecBinary.Encode(ts, buf)`: `none` is the nil it returns for a NULL
timestamp. An infinity modifier that is none of the three leaves the microseconds at `0`. -/
def encodeTimestampBinary (ts : Timestamp) (buf : List UInt8) : Option (List UInt8) :=
  if !ts.valid then none
  else
    let microsecSinceY2K : Int64 :=
      if ts.infinityModifier = .finite then
        let t := discardTimeZone ts.time
        let microsecSinceUnixEpoch := Int64.ofInt t.unixSec * 1000000 + Int64.ofNat t.nsec / 1000
        microsecSinceUnixEpoch - microsecFromUnixEpochToY2K
      else if ts.infinityModifier = .infinity then infinityMicrosecondOffset
      else if ts.infinityModifier = .negativeInfinity then negativeInfinityMicrosecondOffset
      else 0
    some (buf ++ putUint64 microsecSinceY2K.toUInt64)

/-- `scanPlanBinaryTimestampToTimestampScanner.Scan(src, dst)`: the timestamp it scans,
`Timestamp{}` for a nil `src`. -/
def scanTimestampBinary (src : Option (List UInt8)) : GoM Timestamp :=
  match src with
  | none => .ok Timestamp.null
  | some src =>
    if src.length ≠ 8 then .error (.error ("invalid length for timestamp: " ++ toString src.length))
    else do
      let microsecSinceY2K := (← uint64 src).toInt64
      if microsecSinceY2K = infinityMicrosecondOffset then pure ⟨zeroTime, .infinity, true⟩
      else if microsecSinceY2K = negativeInfinityMicrosecondOffset then
        pure ⟨zeroTime, .negativeInfinity, true⟩
      else
        let tim := unix
          (microsecFromUnixEpochToY2K / 1000000 + microsecSinceY2K / 1000000).toInt
          ((microsecFromUnixEpochToY2K % 1000000 * 1000) + (microsecSinceY2K % 1000000 * 1000)).toInt
        pure ⟨tim, .finite, true⟩

/-! ## The text format of a timestamp -/

/-- `encodePlanTimestampCodecText.Encode(ts, buf)`. A year before 1 is written as its BC
number, the time rebuilt by `time.Date` in that year. -/
def encodeTimestampText (ts : Timestamp) (buf : List Char) : Option (List Char) :=
  if !ts.valid then none
  else
    let s : List Char :=
      if ts.infinityModifier = .finite then
        let t := discardTimeZone ts.time
        -- year 0000 is 1 BC
        let (t, bc) : Time × Bool :=
          if t.date.1 ≤ 0 then
            (Go.date (-t.date.1 + 1) t.date.2.1 t.date.2.2 t.clock.1 t.clock.2.1 t.clock.2.2 t.nsec,
              true)
          else (t, false)
        let s := (t.truncate 1000).format pgTimestampFormat
        if bc then s ++ " BC".toList else s
      else if ts.infinityModifier = .infinity then "infinity".toList
      else if ts.infinityModifier = .negativeInfinity then "-infinity".toList
      else []
    some (buf ++ s)

/-- `scanPlanTextTimestampToTimestampScanner.Scan(src, dst)`: the timestamp it scans, or the
error of `time.Parse`. -/
def scanTimestampText (src : Option (List Char)) : Except ParseError Timestamp :=
  match src with
  | none => .ok Timestamp.null
  | some sbuf =>
    if sbuf = "infinity".toList then .ok ⟨zeroTime, .infinity, true⟩
    else if sbuf = "-infinity".toList then .ok ⟨zeroTime, .negativeInfinity, true⟩
    else
      let (sbuf, bc) : List Char × Bool :=
        if " BC".toList.isSuffixOf sbuf then (sbuf.take (sbuf.length - 3), true) else (sbuf, false)
      match parse pgTimestampFormat sbuf with
      | .error e => .error e
      | .ok tim =>
        let tim :=
          if bc then
            Go.date (-tim.date.1 + 1) tim.date.2.1 tim.date.2.2 tim.clock.1 tim.clock.2.1
              tim.clock.2.2 tim.nsec
          else tim
        .ok ⟨tim, .finite, true⟩

/-! ## Times and their fields -/

theorem clock_lt (t : Time) : t.clock.1 < 24 ∧ t.clock.2.1 < 60 ∧ t.clock.2.2 < 60 := by
  have h0 : 0 ≤ t.abs % 86400 := Int.emod_nonneg _ (by decide)
  have h1 : t.abs % 86400 < 86400 := Int.emod_lt_of_pos _ (by decide)
  simp only [Time.clock]
  omega

/-- A time rebuilt by `time.Date` from the fields of a date of the calendar and a clock has
them as its fields. -/
theorem date_fields_of_valid {year month day hour min sec nsec : Int} (hm : 1 ≤ month ∧ month ≤ 12)
    (hd : 1 ≤ day ∧ day ≤ daysIn month year) (hh : 0 ≤ hour ∧ hour < 24) (hmin : 0 ≤ min ∧ min < 60)
    (hs : 0 ≤ sec ∧ sec < 60) (hn : 0 ≤ nsec ∧ nsec < 1000000000) :
    let t := Go.date year month day hour min sec nsec
    t.date = (year, month.toNat, day.toNat) ∧ t.clock = (hour.toNat, min.toNat, sec.toNat) ∧
      (t.nsec : Int) = nsec ∧ t.offset = 0 := by
  intro t
  have hsec : t.unixSec = daysFromCivil year month day * 86400 + (hour * 3600 + min * 60 + sec) := by
    simp only [t, date_unixSec]
    rw [show (month - 1) / 12 = 0 by omega, show (month - 1) % 12 + 1 = month by omega,
      Int.add_zero, Int.ediv_eq_zero_of_lt hn.1 hn.2]
    omega
  have habs : t.abs = t.unixSec := by
    simp [Time.abs, t, date_offset]
  -- the seconds of the day are below 86400, so the day is the one the calendar gives
  have hdiv : t.abs / 86400 = daysFromCivil year month day := by omega
  have hmod : t.abs % 86400 = hour * 3600 + min * 60 + sec := by omega
  refine ⟨?_, ?_, ?_, date_offset _ _ _ _ _ _ _⟩
  · rw [Time.date, hdiv, civil_daysFromCivil hm hd]
  · simp only [Time.clock, hmod, Prod.mk.injEq]
    omega
  · simp only [t, date_nsec]
    omega

theorem inUTC_of_offset {t : Time} (h : t.offset = 0) : t.inUTC = t := by
  ext <;> simp [Time.inUTC, Time.abs, h]

@[simp] theorem date_inUTC (t : Time) : t.inUTC.date = t.date := by
  simp [Time.inUTC, Time.date, Time.abs]

@[simp] theorem clock_inUTC (t : Time) : t.inUTC.clock = t.clock := by
  simp [Time.inUTC, Time.clock, Time.abs]

@[simp] theorem nsec_inUTC (t : Time) : t.inUTC.nsec = t.nsec := rfl

@[simp] theorem offset_inUTC (t : Time) : t.inUTC.offset = 0 := rfl

@[simp] theorem date_truncate (t : Time) (d : Nat) : (t.truncate d).date = t.date := rfl

@[simp] theorem clock_truncate (t : Time) (d : Nat) : (t.truncate d).clock = t.clock := rfl

@[simp] theorem offset_truncate (t : Time) (d : Nat) : (t.truncate d).offset = t.offset := rfl

/-- `discardTimeZone` keeps the clock and moves it to UTC. -/
theorem discardTimeZone_eq (t : Time) : discardTimeZone t = t.inUTC := by
  unfold discardTimeZone
  split
  · exact date_fields t
  · rename_i h
    exact (inUTC_of_offset (not_not.1 h)).symm

/-! ## The binary format of a timestamp read back -/

/-- The quotient and the remainder of a truncating division by a positive number: the remainder
has the sign of the dividend. -/
theorem tdiv_tmod_bounds (a : Int) {b : Int} (hb : 0 < b) :
    a.tdiv b * b + a.tmod b = a ∧ -b < a.tmod b ∧ a.tmod b < b ∧ (0 ≤ a → 0 ≤ a.tmod b) ∧
      (a ≤ 0 → a.tmod b ≤ 0) := by
  have hd := Int.tmod_def a b
  have hn := Int.natAbs_tmod a b
  have hlt : a.natAbs % b.natAbs < b.natAbs := Nat.mod_lt _ (by omega)
  refine ⟨by rw [hd, Int.mul_comm]; omega, by omega, Int.tmod_lt_of_pos a hb, Int.tmod_nonneg b,
    fun h => ?_⟩
  have := Int.tmod_nonneg b (Int.neg_nonneg_of_nonpos h)
  rw [Int.neg_tmod] at this
  omega

/-- The microseconds the binary encoder computes, as an `int64`, for the time it encodes. -/
theorem microsecSinceY2K_eq (u : Time) :
    Int64.ofInt u.unixSec * 1000000 + Int64.ofNat u.nsec / 1000 - microsecFromUnixEpochToY2K =
      Int64.ofInt (u.unixSec * 1000000 + (u.nsec : Int) / 1000 - 946684800000000) := by
  have hn := u.nsec_lt
  have hdiv : Int64.ofNat u.nsec / 1000 = Int64.ofInt ((u.nsec : Int) / 1000) := by
    rw [← Int64.ofInt_toInt (Int64.ofNat u.nsec / 1000), Int64.toInt_div_of_ne_right _ _ (by decide),
      ← Int64.ofInt_eq_ofNat, Int64.toInt_ofInt_of_le (by omega) (by omega),
      Int.tdiv_eq_ediv_of_nonneg (by omega)]
    rfl
  rw [hdiv, show (1000000 : Int64) = Int64.ofInt 1000000 from rfl,
    show microsecFromUnixEpochToY2K = Int64.ofInt 946684800000000 from rfl,
    ← Int64.ofInt_mul, ← Int64.ofInt_add, ← Int64.ofInt_sub]

/-- The binary format gives back a finite timestamp, in UTC and truncated to the microsecond, for
every time whose microseconds since 2000 fit an `int64` and are none of its two extremes. -/
theorem timestamp_binary_roundTrip (t : Time)
    (hr : -9223372036854775808 < t.abs * 1000000 + (t.nsec : Int) / 1000 - 946684800000000 ∧
      t.abs * 1000000 + (t.nsec : Int) / 1000 - 946684800000000 < 9223372036854775807) :
    scanTimestampBinary (encodeTimestampBinary ⟨t, .finite, true⟩ []) =
      .ok ⟨t.inUTC.truncate 1000, .finite, true⟩ := by
  set M := t.abs * 1000000 + (t.nsec : Int) / 1000 - 946684800000000 with hM
  have hm : (Int64.ofInt M).toInt = M := Int64.toInt_ofInt_of_le (by omega) (by omega)
  simp only [encodeTimestampBinary, Bool.not_true, Bool.false_eq_true, ↓reduceIte,
    discardTimeZone_eq, microsecSinceY2K_eq, List.nil_append]
  rw [show t.inUTC.unixSec = t.abs from rfl, nsec_inUTC, ← hM]
  generalize Int64.ofInt M = m at hm
  have hinf : m ≠ infinityMicrosecondOffset := fun h => by
    rw [h, show infinityMicrosecondOffset.toInt = 9223372036854775807 from rfl] at hm
    omega
  have hninf : m ≠ negativeInfinityMicrosecondOffset := fun h => by
    rw [h, show negativeInfinityMicrosecondOffset.toInt = -9223372036854775808 from rfl] at hm
    omega
  rw [← List.append_nil (putUint64 m.toUInt64)]
  simp only [scanTimestampBinary, List.length_append, length_putUint64, List.length_nil,
    uint64_putUint64]
  rw [if_neg (by decide), ok_bind, Int64.toInt64_toUInt64, if_neg hinf, if_neg hninf]
  -- the scanner splits the microseconds by truncating division, which fits in an int64
  obtain ⟨hqr, hr1, hr2, hpos, hneg⟩ := tdiv_tmod_bounds M (by decide : (0 : Int) < 1000000)
  have hsec : (microsecFromUnixEpochToY2K / 1000000 + m / 1000000).toInt =
      946684800 + M.tdiv 1000000 := by
    rw [← Int64.ofInt_toInt (m / 1000000), Int64.toInt_div_of_ne_right _ _ (by decide), hm,
      show (1000000 : Int64).toInt = 1000000 from rfl,
      show microsecFromUnixEpochToY2K / 1000000 = Int64.ofInt 946684800 by decide, ← Int64.ofInt_add]
    exact Int64.toInt_ofInt_of_le (by omega) (by omega)
  have hns : (microsecFromUnixEpochToY2K % 1000000 * 1000 + m % 1000000 * 1000).toInt =
      M.tmod 1000000 * 1000 := by
    rw [← Int64.ofInt_toInt (m % 1000000), Int64.toInt_mod, hm,
      show microsecFromUnixEpochToY2K % 1000000 * 1000 = Int64.ofInt 0 by decide,
      show (1000 : Int64) = Int64.ofInt 1000 from rfl, show (1000000 : Int64).toInt = 1000000 from rfl,
      ← Int64.ofInt_mul, ← Int64.ofInt_add, Int.zero_add]
    exact Int64.toInt_ofInt_of_le (by omega) (by omega)
  rw [hsec, hns]
  -- `time.Unix` moves a negative remainder into the seconds: the floor of the microseconds
  have hn := t.nsec_lt
  show Except.ok _ = Except.ok _
  congr 2
  ext
  · simp only [unix, unixNorm_eq, Time.truncate, Time.inUTC]
    omega
  · simp only [unix, unixNorm_eq, Time.truncate, nsec_inUTC]
    omega
  · rfl

/-! ## The text of a timestamp read back -/

/-- The text `pgTimestampFormat` writes, field by field. -/
theorem format_pgTimestamp (t : Time) :
    t.format pgTimestampFormat =
      appendInt [] t.date.1 4 ++ '-' :: (appendInt [] t.date.2.1 2 ++ '-' ::
        (appendInt [] t.date.2.2 2 ++ ' ' :: (appendInt [] t.clock.1 2 ++ ':' ::
          (appendInt [] t.clock.2.1 2 ++ ':' :: (appendInt [] t.clock.2.2 2 ++
            appendNano [] t.nsec))))) := by
  rw [format, foldl_appendChunk_eq]
  simp [pgTimestampFormat, appendChunk]

/-- `pgTimestampFormat` writes no letter. -/
theorem not_mem_format_pgTimestamp (t : Time) {c : Char} (hd : c.isDigit = false)
    (hc : c ∉ ['-', '.', ':', 'Z', '+', ' ']) : c ∉ t.format pgTimestampFormat := by
  obtain ⟨y, hy, hc'⟩ := foldl_appendChunk t pgTimestampFormat []
  rw [format, hy, List.nil_append]
  intro hmem
  obtain ⟨ch, hch, he⟩ := hc' c hmem
  simp only [pgTimestampFormat, List.mem_cons, List.not_mem_nil, or_false] at hch
  rcases hch with rfl | rfl | rfl | rfl | rfl | rfl | rfl | rfl | rfl | rfl | rfl | rfl <;>
    simp_all [Chunk.Emits]

/-- The fields of a time of the years 0 to 9999 read back, one chunk of the layout after the
other. -/
theorem parseChunks_pgTimestamp (alayout avalue : List Char) {t : Time}
    (hy : 0 ≤ t.date.1 ∧ t.date.1 < 10000) :
    parseChunks alayout avalue pgTimestampFormat (t.format pgTimestampFormat) ParseState.init =
      .ok ⟨t.date.1, t.date.2.1, t.date.2.2, t.clock.1, t.clock.2.1, t.clock.2.2, t.nsec, false, -1⟩ := by
  obtain ⟨hh, hmi, hs⟩ := clock_lt t
  have hdate : 1 ≤ (t.date.2.1 : Int) ∧ (t.date.2.1 : Int) ≤ 12 ∧ 1 ≤ (t.date.2.2 : Int) ∧
      (t.date.2.2 : Int) ≤ daysIn t.date.2.1 t.date.1 := civil_valid (t.abs / 86400)
  have hd31 : daysIn t.date.2.1 t.date.1 ≤ 31 := by
    simp only [daysIn]
    split
    · split <;> omega
    · omega
  rw [format_pgTimestamp, ← List.append_nil (appendNano [] t.nsec)]
  -- the state before the fraction still has no nanoseconds, as the last lemma asks
  simp only [pgTimestampFormat, parseChunks, ParseState.init,
    parseField_longYear _ _ hy.1 hy.2,
    skip_char (by decide : '-' ≠ ' '), skip_char (by decide : ':' ≠ ' '),
    parseField_zeroMonth _ _ hdate.1 hdate.2.1,
    parseField_zeroDay _ _ (by omega : (0 : Int) ≤ (t.date.2.2 : Int)) (by omega),
    skip_space_appendInt (by omega : (0 : Int) ≤ (t.clock.1 : Int)),
    parseField_hour _ _ (by omega : (0 : Int) ≤ (t.clock.1 : Int)) (by omega),
    parseField_zeroMinute _ _ (by omega : (0 : Int) ≤ (t.clock.2.1 : Int)) (by omega),
    parseField_zeroSecond (rfl : nextStd [.fracSecond9] = some .fracSecond9) _
      (by omega : (0 : Int) ≤ (t.clock.2.2 : Int)) (by omega),
    @parseField_fracSecond9 [] ⟨_, _, _, _, _, _, 0, false, -1⟩ rfl _ t.nsec_lt [] (by simp)]
  rfl

/-- `time.Parse` reads back what `Format` wrote with the layout of a timestamp, for a time in UTC
of the years 0 to 9999. -/
theorem parse_format_pgTimestamp {t : Time} (hoff : t.offset = 0)
    (hy : 0 ≤ t.date.1 ∧ t.date.1 < 10000) :
    parse pgTimestampFormat (t.format pgTimestampFormat) = .ok t := by
  have hdate : 1 ≤ (t.date.2.1 : Int) ∧ (t.date.2.1 : Int) ≤ 12 ∧ 1 ≤ (t.date.2.2 : Int) ∧
      (t.date.2.2 : Int) ≤ daysIn t.date.2.1 t.date.1 := civil_valid (t.abs / 86400)
  have hm : ¬(t.date.2.1 : Int) < 0 := by omega
  have hd : ¬(t.date.2.2 : Int) < 0 := by omega
  simp only [parse, parseChunks_pgTimestamp _ _ hy, hm, hd, if_false]
  rw [if_neg (by omega)]
  simp only [Bool.false_eq_true, if_false, ne_eq, not_true_eq_false]
  rw [date_fields, inUTC_of_offset hoff]

/-- The scan of the text of a time of the years 1 to 9999. -/
theorem scanTimestampText_format {v : Time} (hoff : v.offset = 0)
    (hy : 0 ≤ v.date.1 ∧ v.date.1 < 10000) :
    scanTimestampText (some (v.format pgTimestampFormat)) = .ok ⟨v, .finite, true⟩ := by
  -- the text has neither the letters of an infinity nor those of the era
  have hi : v.format pgTimestampFormat ≠ "infinity".toList := fun h =>
    not_mem_format_pgTimestamp v (c := 'i') rfl (by decide) (h ▸ by decide)
  have hni : v.format pgTimestampFormat ≠ "-infinity".toList := fun h =>
    not_mem_format_pgTimestamp v (c := 'i') rfl (by decide) (h ▸ by decide)
  have hbc : " BC".toList.isSuffixOf (v.format pgTimestampFormat) = false := by
    rw [Bool.eq_false_iff]
    intro h
    exact not_mem_format_pgTimestamp v (c := 'C') rfl (by decide)
      ((List.isSuffixOf_iff_suffix.1 h).subset (by decide))
  simp only [scanTimestampText, hi, hni, hbc, if_false, Bool.false_eq_true,
    parse_format_pgTimestamp hoff hy]

/-- The scan of the text of a time with the era ` BC` after it: the year is turned back into
Go's, the time rebuilt by `time.Date`. -/
theorem scanTimestampText_format_bc {v : Time} (hoff : v.offset = 0)
    (hy : 0 ≤ v.date.1 ∧ v.date.1 < 10000) :
    scanTimestampText (some (v.format pgTimestampFormat ++ " BC".toList)) =
      .ok ⟨Go.date (-v.date.1 + 1) v.date.2.1 v.date.2.2 v.clock.1 v.clock.2.1 v.clock.2.2 v.nsec,
        .finite, true⟩ := by
  -- an infinity has the letter i, written neither by the layout nor by the era
  have hnoi : 'i' ∉ v.format pgTimestampFormat ++ " BC".toList := fun h =>
    (List.mem_append.1 h).elim (not_mem_format_pgTimestamp v rfl (by decide)) (by decide)
  have hi : v.format pgTimestampFormat ++ " BC".toList ≠ "infinity".toList := fun h =>
    hnoi (h ▸ by decide)
  have hni : v.format pgTimestampFormat ++ " BC".toList ≠ "-infinity".toList := fun h =>
    hnoi (h ▸ by decide)
  have hbc : " BC".toList.isSuffixOf (v.format pgTimestampFormat ++ " BC".toList) = true :=
    List.isSuffixOf_iff_suffix.2 (List.suffix_append _ _)
  have htake : (v.format pgTimestampFormat ++ " BC".toList).take
      ((v.format pgTimestampFormat ++ " BC".toList).length - 3) = v.format pgTimestampFormat := by
    rw [List.length_append, show " BC".toList.length = 3 from rfl, Nat.add_sub_cancel,
      List.take_left]
  simp only [scanTimestampText, hi, hni, hbc, ↓reduceIte, htake,
    parse_format_pgTimestamp hoff hy]

/-- Moving a day from a year to another keeps it valid, unless it is a 29 February. -/
theorem day_le_daysIn_of_ne_leapDay {month day year year' : Int} (hd : day ≤ daysIn month year)
    (hleap : ¬(month = 2 ∧ day = 29)) : day ≤ daysIn month year' := by
  simp only [daysIn] at hd ⊢
  split
  · rename_i hm
    have h29 : day ≤ 29 := by split at hd <;> omega
    split <;> omega
  · simpa [if_neg (by assumption : ¬month = 2)] using hd

/-- The text format gives back a finite timestamp, in UTC and truncated to the microsecond, for
every time of the years 9998 BC to 9999 but 29 February of a year BC. -/
theorem timestamp_text_roundTrip (t : Time) (hy : -9998 ≤ t.date.1 ∧ t.date.1 ≤ 9999)
    (hleap : t.date.1 ≤ 0 → ¬(t.date.2.1 = 2 ∧ t.date.2.2 = 29)) :
    scanTimestampText (encodeTimestampText ⟨t, .finite, true⟩ []) =
      .ok ⟨t.inUTC.truncate 1000, .finite, true⟩ := by
  obtain ⟨hh, hmi, hs⟩ := clock_lt t
  have hdate : 1 ≤ (t.date.2.1 : Int) ∧ (t.date.2.1 : Int) ≤ 12 ∧ 1 ≤ (t.date.2.2 : Int) ∧
      (t.date.2.2 : Int) ≤ daysIn t.date.2.1 t.date.1 := civil_valid (t.abs / 86400)
  simp only [encodeTimestampText, Bool.not_true, Bool.false_eq_true, ↓reduceIte,
    discardTimeZone_eq, date_inUTC, clock_inUTC, nsec_inUTC, List.nil_append]
  by_cases h0 : t.date.1 ≤ 0
  · -- a year BC: the date is rebuilt in the year of its BC number, and read back from it
    have hday : (t.date.2.2 : Int) ≤ daysIn t.date.2.1 (-t.date.1 + 1) :=
      day_le_daysIn_of_ne_leapDay hdate.2.2.2 (by exact_mod_cast hleap h0)
    obtain ⟨hwd, hwc, hwn, hwo⟩ := date_fields_of_valid ⟨hdate.1, hdate.2.1⟩ ⟨hdate.2.2.1, hday⟩
      (by omega : (0 : Int) ≤ t.clock.1 ∧ (t.clock.1 : Int) < 24)
      (by omega : (0 : Int) ≤ t.clock.2.1 ∧ (t.clock.2.1 : Int) < 60)
      (by omega : (0 : Int) ≤ t.clock.2.2 ∧ (t.clock.2.2 : Int) < 60)
      (by have := t.nsec_lt; omega : (0 : Int) ≤ t.nsec ∧ (t.nsec : Int) < 1000000000)
    simp only [h0, ↓reduceIte]
    rw [scanTimestampText_format_bc (by simpa using hwo) (by simp [hwd]; omega)]
    -- the time read back is rebuilt from the fields of the one the encoder was given
    have hn : ((Go.date (-t.date.1 + 1) t.date.2.1 t.date.2.2 t.clock.1 t.clock.2.1 t.clock.2.2
        t.nsec).truncate 1000).nsec = (t.inUTC.truncate 1000).nsec := by
      have : (Go.date (-t.date.1 + 1) t.date.2.1 t.date.2.2 t.clock.1 t.clock.2.1 t.clock.2.2
          t.nsec).nsec = t.nsec := by exact_mod_cast hwn
      simp only [Time.truncate, this, nsec_inUTC]
    have htr := date_fields (t.inUTC.truncate 1000)
    simp only [date_truncate, clock_truncate, date_inUTC, clock_inUTC] at htr
    simp only [date_truncate, clock_truncate, hwd, hwc, Int.toNat_natCast,
      show -(-t.date.1 + 1) + 1 = t.date.1 by omega, hn]
    rw [htr, inUTC_of_offset (by simp)]
  · simp only [h0, ↓reduceIte]
    exact scanTimestampText_format (by simp) (by simp; omega)

/-- 10000-01-01 00:00:00 in UTC. -/
def year10000 : Timestamp := ⟨Go.date 10000 1 1 0 0 0 0, .finite, true⟩

/-- 29 February 1 BC, Go's year 0. -/
def leapDayBC : Timestamp := ⟨Go.date 0 2 29 0 0 0 0, .finite, true⟩

/-- Out of the years the round trip holds for, the text format fails: the year 10000 is written
in five digits, of which `time.Parse` reads four and then misses the `-`; and 29 February 1 BC
comes back as 1 March, rebuilt in the year 1, which has no leap day. -/
theorem timestamp_text_roundTrip_fails :
    scanTimestampText (encodeTimestampText year10000 []) =
        .error ⟨pgTimestampFormat.flatMap Chunk.text, "10000-01-01 00:00:00".toList, ['-'],
          "0-01-01 00:00:00".toList, []⟩ ∧
      scanTimestampText (encodeTimestampText leapDayBC []) =
        .ok ⟨Go.date 0 3 1 0 0 0 0, .finite, true⟩ := by
  constructor <;> rfl

end Pgx.Pgtype
