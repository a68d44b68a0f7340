import Pgx.Go.Binary
import Pgx.Go.Strings
import Pgx.Go.Strconv

/-!
# Intervals in the text format

`encodePlanIntervalCodecText` writes the months and the days, each only when it is not zero, then
the microseconds as a signed clock time `h:mm:ss` with a fraction of six digits when there is one.
`scanPlanTextAnyToIntervalScanner` splits the text at spaces into pairs of a number and a unit,
and reads a last odd piece as the clock time.

The microseconds are an `int64`, and Go's arithmetic on it wraps: the encoder negates a negative
value before it splits it into hours, minutes and seconds, and the negation of `-2^63` is
`-2^63` again. The hours, seconds and microseconds then come out negative, `%02d` and `%06d` print
them with their signs, and the scanner, which multiplies them back and negates the sum, wraps back
to `-2^63`. So the text of every interval reads back as the interval (`interval_text_roundTrip`).
-/

namespace Pgx.Pgtype

open Go Go.Strings Go.Strconv Go.Fmt

/-- `microsecondsPerSecond`. -/
def microsecondsPerSecond : Int64 := 1000000
/-- `microsecondsPerMinute`. -/
def microsecondsPerMinute : Int64 := 60 * microsecondsPerSecond
/-- `microsecondsPerHour`. -/
def microsecondsPerHour : Int64 := 60 * microsecondsPerMinute

/-- `Interval`. -/
structure Interval where
  microseconds : Int64
  days : Int32
  months : Int32
  valid : Bool
  deriving DecidableEq, Repr

/-- What `Encode` writes after the sign: `fmt.Sprintf("%02d:%02d:%02d", hours, minutes, seconds)`,
then `fmt.Sprintf(".%06d", microseconds)` unless the microseconds are zero. -/
def clockText (absMicroseconds : Int64) : List Char :=
  let hours := absMicroseconds / microsecondsPerHour
  let minutes := (absMicroseconds % microsecondsPerHour) / microsecondsPerMinute
  let seconds := (absMicroseconds % microsecondsPerMinute) / microsecondsPerSecond
  let timeStr := padInt 2 hours.toInt ++ ':' :: padInt 2 minutes.toInt ++ ':' :: padInt 2 seconds.toInt
  let microseconds := absMicroseconds % microsecondsPerSecond
  if microseconds ≠ 0 then timeStr ++ '.' :: padInt 6 microseconds.toInt else timeStr

/-- `encodePlanIntervalCodecText.Encode(interval, buf)`: `none` is the nil it returns for a NULL
interval. -/
def Interval.encodeText (interval : Interval) (buf : List Char) : Option (List Char) :=
  if !interval.valid then none
  else
    let buf := if interval.months ≠ 0 then buf ++ formatInt interval.months.toInt ++ " mon ".toList else buf
    let buf := if interval.days ≠ 0 then buf ++ formatInt interval.days.toInt ++ " day ".toList else buf
    -- `absMicroseconds = -absMicroseconds` wraps for `-2^63`
    if interval.microseconds < 0 then some (buf ++ '-' :: clockText (-interval.microseconds))
    else some (buf ++ clockText interval.microseconds)

example : Interval.encodeText ⟨-1, 3, -2, true⟩ [] = some "-2 mon 3 day -00:00:00.000001".toList := by
  decide
example : Interval.encodeText ⟨-9223372036854775808, 0, 0, true⟩ [] =
    some "--2562047788:00:-54.-775808".toList := by
  decide

/-- The loop over the pairs `parts[i]`, `parts[i+1]`: a number and its unit, with the months and
the days read so far. A unit that is none of these is skipped. -/
def scanUnits : List (List Char) → Int32 → Int32 → GoM (Int32 × Int32)
  | p :: u :: rest, months, days =>
    match parseInt p 10 64 with
    | (_, some _) => .error (.error "bad interval format")
    | (s, none) =>
      let scalar := Int64.ofInt s
      if u = "year".toList ∨ u = "years".toList then scanUnits rest (months + (scalar * 12).toInt32) days
      else if u = "mon".toList ∨ u = "mons".toList then scanUnits rest (months + scalar.toInt32) days
      else if u = "day".toList ∨ u = "days".toList then scanUnits rest months scalar.toInt32
      else scanUnits rest months days
  | _, months, days => .ok (months, days)

/-- `strconv.ParseInt(s, 10, 64)` in the clock time, failing with the scanner's message. -/
def parseClockPart (s : List Char) (msg : String) : GoM Int64 :=
  match parseInt s 10 64 with
  | (v, none) => .ok (Int64.ofInt v)
  | (_, some _) => .error (.error (msg ++ String.ofList s))

/-- `for i := 0; i < 6-len(secFrac); i++ { uSeconds *= 10 }`, with `k = 6 - len(secFrac)`. -/
def scaleFraction (uSeconds : Int64) : Nat → Int64
  | 0 => uSeconds
  | k + 1 => scaleFraction (uSeconds * 10) k

/-- The microseconds of the fraction after the seconds, scaled to six digits, or `0` without
one. -/
def fractionMicroseconds (secFrac : List Char) (secFracFound : Bool) : GoM Int64 :=
  if secFracFound then do
    let uSeconds ← parseClockPart secFrac "bad interval decimal format: "
    pure (scaleFraction uSeconds (6 - secFrac.length))
  else pure 0

/-- The clock time, the last piece of an odd number of pieces. -/
def scanClock (last : List Char) : GoM Int64 :=
  match splitN last ':' 3 with
  | [t0, t1, t2] => do
    -- `timeParts[0][0]` panics on an empty first part
    let (negative, t0) ← match t0 with
      | [] => .error (.panic "index out of range")
      | c :: cs => .ok (if c = '-' then (true, cs) else (false, c :: cs))
    let hours ← parseClockPart t0 "bad interval hour format: "
    let minutes ← parseClockPart t1 "bad interval minute format: "
    let (sec, secFrac, secFracFound) := cut t2 '.'
    let seconds ← parseClockPart sec "bad interval second format: "
    let uSeconds ← fractionMicroseconds secFrac secFracFound
    let microseconds := hours * microsecondsPerHour + minutes * microsecondsPerMinute +
      seconds * microsecondsPerSecond + uSeconds
    pure (if negative then -microseconds else microseconds)
  | _ => .error (.error "bad interval format")

/-- `scanPlanTextAnyToIntervalScanner.Scan(src, dst)`: the interval it scans, `Interval{}` for a
nil `src`. -/
def scanText (src : Option (List Char)) : GoM Interval :=
  match src with
  | none => .ok ⟨0, 0, 0, false⟩
  | some src => do
    let parts := split src ' '
    let (months, days) ← scanUnits parts 0 0
    let microseconds ← if parts.length % 2 = 1 then scanClock (parts.getLastD []) else pure 0
    pure ⟨microseconds, days, months, true⟩

/-! ### The clock time reads back -/

/-- Hours, minutes, seconds and microseconds, as `Int` truncates them, add up again. -/
theorem tdiv_tmod_clock (A : Int) :
    A.tdiv 3600000000 * 3600000000 + (A.tmod 3600000000).tdiv 60000000 * 60000000 +
      (A.tmod 60000000).tdiv 1000000 * 1000000 + A.tmod 1000000 = A := by
  have h1 := Int.tmod_def A 3600000000
  have h2 := Int.tmod_def (A.tmod 3600000000) 60000000
  have h3 := Int.tmod_def (A.tmod 60000000) 1000000
  have e2 : (A.tmod 3600000000).tmod 60000000 = A.tmod 60000000 := Int.tmod_tmod_of_dvd A (by norm_num)
  have e3 : (A.tmod 60000000).tmod 1000000 = A.tmod 1000000 := Int.tmod_tmod_of_dvd A (by norm_num)
  linarith

/-- The same in `int64`, whose division and remainder truncate as `Int.tdiv` and `Int.tmod` do:
the scanner's sum of the encoder's pieces is the value the encoder split, for every `int64`. -/
theorem clock_sum (a : Int64) :
    a / microsecondsPerHour * microsecondsPerHour +
        a % microsecondsPerHour / microsecondsPerMinute * microsecondsPerMinute +
        a % microsecondsPerMinute / microsecondsPerSecond * microsecondsPerSecond +
        a % microsecondsPerSecond = a := by
  have hdiv : ∀ x y : Int64, y ≠ -1 → x / y = Int64.ofInt (x.toInt.tdiv y.toInt) := fun x y hy => by
    rw [← Int64.ofInt_toInt (x / y), Int64.toInt_div_of_ne_right _ _ hy]
  have hmod : ∀ x y : Int64, x % y = Int64.ofInt (x.toInt.tmod y.toInt) := fun x y => by
    rw [← Int64.ofInt_toInt (x % y), Int64.toInt_mod]
  have hH : microsecondsPerHour = Int64.ofInt 3600000000 := by decide
  have hM : microsecondsPerMinute = Int64.ofInt 60000000 := by decide
  have hS : microsecondsPerSecond = Int64.ofInt 1000000 := by decide
  rw [hdiv a _ (by decide), hdiv (a % microsecondsPerHour) _ (by decide),
    hdiv (a % microsecondsPerMinute) _ (by decide), Int64.toInt_mod, Int64.toInt_mod, hmod a, hH, hM, hS]
  simp only [Int64.toInt_ofInt_of_le (by norm_num : (-2 : Int) ^ 63 ≤ 3600000000) (by norm_num),
    Int64.toInt_ofInt_of_le (by norm_num : (-2 : Int) ^ 63 ≤ 60000000) (by norm_num),
    Int64.toInt_ofInt_of_le (by norm_num : (-2 : Int) ^ 63 ≤ 1000000) (by norm_num)]
  rw [← Int64.ofInt_mul, ← Int64.ofInt_mul, ← Int64.ofInt_mul, ← Int64.ofInt_add, ← Int64.ofInt_add,
    ← Int64.ofInt_add, tdiv_tmod_clock, Int64.ofInt_toInt]

theorem parseClockPart_padInt (w : Nat) (x : Int64) (msg : String) :
    parseClockPart (padInt w x.toInt) msg = .ok x := by
  simp only [parseClockPart, parseInt_padInt w x.le_toInt x.toInt_lt, Int64.ofInt_toInt]

/-- The loop that scales the fraction runs no time on six digits or more. -/
theorem scaleFraction_of_le {s : List Char} (h : 6 ≤ s.length) (u : Int64) :
    scaleFraction u (6 - s.length) = u := by
  rw [Nat.sub_eq_zero_of_le h]
  rfl

/-- The first of the three pieces: an optional minus sign, then the hours, which start with a digit
when the value split is not negative. -/
theorem clockSign (negative : Bool) (a : Int64) (h : negative = false → 0 ≤ a.toInt) :
    ∃ c cs, (if negative then ['-'] else []) ++ padInt 2 (a / microsecondsPerHour).toInt = c :: cs ∧
      (if c = '-' then (true, cs) else (false, c :: cs)) =
        (negative, padInt 2 (a / microsecondsPerHour).toInt) := by
  cases negative with
  | true => exact ⟨'-', _, rfl, by simp⟩
  | false =>
    have hh : 0 ≤ (a / microsecondsPerHour).toInt := by
      rw [Int64.toInt_div_of_ne_right _ _ (by decide)]
      exact Int.tdiv_nonneg (h rfl) (by decide)
    obtain ⟨c, cs, hp, hc⟩ := padInt_cons_of_nonneg 2 hh
    exact ⟨c, cs, by simpa using hp, by rw [if_neg hc, hp]⟩

/-- The clock time `Encode` writes reads back, after a minus sign as the negation of the value
written. -/
theorem scanClock_clockText (negative : Bool) (a : Int64) (h : negative = false → 0 ≤ a.toInt) :
    scanClock ((if negative then ['-'] else []) ++ clockText a) = .ok (if negative then -a else a) := by
  obtain ⟨c, cs, hfirst, hsign⟩ := clockSign negative a h
  have hcolon : ∀ {w : Nat} {n : Int}, ':' ∉ padInt w n := not_mem_padInt (by decide) (by decide)
  have hdot : ∀ {w : Nat} {n : Int}, '.' ∉ padInt w n := not_mem_padInt (by decide) (by decide)
  have hc0 : ':' ∉ c :: cs := by
    rw [← hfirst]
    simp only [List.mem_append, not_or]
    exact ⟨by split <;> simp, hcolon⟩
  -- the fraction: six digits or more after a dot, or nothing when the microseconds are zero
  have hfrac : ∃ secFrac secFracFound,
      cut (padInt 2 (a % microsecondsPerMinute / microsecondsPerSecond).toInt ++
          (if a % microsecondsPerSecond ≠ 0 then '.' :: padInt 6 (a % microsecondsPerSecond).toInt else []))
          '.' = (padInt 2 (a % microsecondsPerMinute / microsecondsPerSecond).toInt, secFrac, secFracFound) ∧
        fractionMicroseconds secFrac secFracFound = .ok (a % microsecondsPerSecond) := by
    by_cases hz : a % microsecondsPerSecond = 0
    · refine ⟨[], false, ?_, by rw [hz]; rfl⟩
      rw [if_neg (by simpa using hz), List.append_nil]
      exact cut_of_not_mem hdot
    · refine ⟨padInt 6 (a % microsecondsPerSecond).toInt, true, ?_, ?_⟩
      · rw [if_pos hz]
        exact cut_of_mem hdot
      · simp only [fractionMicroseconds, if_true, parseClockPart_padInt, ok_bind,
          scaleFraction_of_le (length_padInt 6 _)]
        rfl
  obtain ⟨secFrac, secFracFound, hcut, hu⟩ := hfrac
  have htext : (if negative then ['-'] else []) ++ clockText a =
      (c :: cs) ++ ':' :: padInt 2 (a % microsecondsPerHour / microsecondsPerMinute).toInt ++
        ':' :: (padInt 2 (a % microsecondsPerMinute / microsecondsPerSecond).toInt ++
          (if a % microsecondsPerSecond ≠ 0 then '.' :: padInt 6 (a % microsecondsPerSecond).toInt else [])) := by
    rw [← hfirst, clockText]
    split_ifs <;> simp
  rw [htext, scanClock, splitN_three hc0 hcolon]
  simp only [hsign, ok_bind, parseClockPart_padInt, hcut, hu, clock_sum]
  rfl

/-- The clock time of an interval, as `Encode` writes it with its sign, reads back. -/
theorem scanClock_encoded (us : Int64) :
    scanClock (if us < 0 then '-' :: clockText (-us) else clockText us) = .ok us := by
  by_cases hneg : us < 0
  · have h := scanClock_clockText true (-us) (fun h => absurd h (by decide))
    simpa [hneg] using h
  · have h := scanClock_clockText false us fun _ => by
      simpa [Int64.lt_iff_toInt_lt] using hneg
    simpa [hneg] using h

/-! ### The months and the days read back -/

theorem parseInt_formatInt_int32 (m : Int32) : parseInt (formatInt m.toInt) 10 64 = (m.toInt, none) := by
  have h1 := m.le_toInt
  have h2 := m.toInt_lt
  rw [formatInt_eq_padInt]
  exact parseInt_padInt 0 (by omega) (by omega)

theorem scanUnits_mon (m : Int32) (rest : List (List Char)) (months days : Int32) :
    scanUnits (formatInt m.toInt :: ['m', 'o', 'n'] :: rest) months days = scanUnits rest (months + m) days := by
  rw [scanUnits, parseInt_formatInt_int32]
  simp

theorem scanUnits_day (d : Int32) (rest : List (List Char)) (months days : Int32) :
    scanUnits (formatInt d.toInt :: ['d', 'a', 'y'] :: rest) months days = scanUnits rest months d := by
  rw [scanUnits, parseInt_formatInt_int32]
  simp

/-- The pieces `Encode` writes before the clock time. -/
def unitParts (months days : Int32) : List (List Char) :=
  (if months ≠ 0 then [formatInt months.toInt, "mon".toList] else []) ++
    (if days ≠ 0 then [formatInt days.toInt, "day".toList] else [])

theorem scanUnits_last (last : List Char) (months days : Int32) :
    scanUnits [last] months days = .ok (months, days) := rfl

theorem scanUnits_unitParts (months days : Int32) (last : List Char) :
    scanUnits (unitParts months days ++ [last]) 0 0 = .ok (months, days) := by
  by_cases hm : months = 0 <;> by_cases hd : days = 0 <;>
    simp [unitParts, hm, hd, scanUnits_mon, scanUnits_day, scanUnits_last]

theorem length_unitParts_even (months days : Int32) : (unitParts months days).length % 2 = 0 := by
  by_cases hm : months = 0 <;> by_cases hd : days = 0 <;> simp [unitParts, hm, hd]

/-- No piece `Encode` writes holds a space, so splitting at spaces gives the pieces back. -/
theorem space_not_mem_parts (months days : Int32) (us : Int64) :
    ∀ p ∈ unitParts months days ++ [if us < 0 then '-' :: clockText (-us) else clockText us], ' ' ∉ p := by
  have hpad : ∀ {w : Nat} {n : Int}, ' ' ∉ padInt w n := not_mem_padInt (by decide) (by decide)
  have hclock : ∀ a : Int64, ' ' ∉ clockText a := fun a => by
    unfold clockText
    dsimp only
    split_ifs <;> simp [hpad]
  intro p hp
  simp only [unitParts, List.mem_append, List.mem_singleton] at hp
  rcases hp with (hp | hp) | rfl
  · split_ifs at hp
    · rcases List.mem_cons.mp hp with rfl | hp
      · rw [formatInt_eq_padInt]; exact hpad
      · simp_all
    · simp at hp
  · split_ifs at hp
    · rcases List.mem_cons.mp hp with rfl | hp
      · rw [formatInt_eq_padInt]; exact hpad
      · simp_all
    · simp at hp
  · split_ifs <;> simp [hclock]

/-- The text `Encode` writes for a valid interval: the pieces, joined by spaces. -/
theorem encodeText_valid (us : Int64) (days months : Int32) :
    Interval.encodeText ⟨us, days, months, true⟩ [] =
      some (join (unitParts months days ++ [if us < 0 then '-' :: clockText (-us) else clockText us]) ' ') := by
  have hmon : " mon ".toList = ' ' :: ("mon".toList ++ [' ']) := rfl
  have hday : " day ".toList = ' ' :: ("day".toList ++ [' ']) := rfl
  rw [join_append_singleton]
  by_cases hm : months = 0 <;> by_cases hd : days = 0 <;> by_cases hus : us < 0 <;>
    simp [Interval.encodeText, unitParts, hm, hd, hus, hmon, hday]

/-- The text of every valid interval reads back as the interval: whatever its `int64` microseconds
(`-2^63` included) and its `int32` days and months. -/
theorem interval_text_roundTrip (microseconds : Int64) (days months : Int32) :
    scanText (Interval.encodeText ⟨microseconds, days, months, true⟩ []) =
      .ok ⟨microseconds, days, months, true⟩ := by
  have hodd : (unitParts months days ++
      [if microseconds < 0 then '-' :: clockText (-microseconds) else clockText microseconds]).length % 2 = 1 := by
    have := length_unitParts_even months days
    simp only [List.length_append, List.length_singleton]
    omega
  rw [encodeText_valid, scanText]
  simp only [split_join (space_not_mem_parts months days microseconds) (by simp), scanUnits_unitParts,
    ok_bind, hodd, if_true, List.getLastD_concat, scanClock_encoded]
  rfl

end Pgx.Pgtype
