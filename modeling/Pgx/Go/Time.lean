import Pgx.Go.Strconv

/-!
# Go's `time.Time`, truncated and formatted

A `Time` is an instant and the offset from UTC its location has at that instant: the location's
zone rules come from the zone database, so the model keeps only the offset they give.

`appendFormat` lays out the fields of the proleptic Gregorian date and the clock of the instant
shifted by that offset, chunk by chunk, as Go's `Time.AppendFormat` does once its layout string
is split into chunks (`nextStdChunk`). The sanitizer's layout is spelled out as its chunks.
-/

namespace Go

/-- A `time.Time`: seconds and nanoseconds since 1970-01-01 00:00:00 UTC, and the offset from
UTC, in seconds, of its location at that instant. -/
structure Time where
  unixSec : Int
  nsec : Nat
  nsec_lt : nsec < 1000000000
  offset : Int

namespace Time

/-- `t.Truncate(d)` for a duration of `d` nanoseconds that divides a second an even number of
times, such as `time.Microsecond`: Go's `div` then takes the nanoseconds modulo `d`. -/
def truncate (t : Time) (d : Nat) : Time :=
  { t with nsec := t.nsec - t.nsec % d, nsec_lt := Nat.lt_of_le_of_lt (Nat.sub_le _ _) t.nsec_lt }

/-- The proleptic Gregorian date `(year, month, day)` of a day counted from 1970-01-01. -/
def civil (days : Int) : Int × Nat × Nat :=
  let z := days + 719468
  let era := z / 146097
  let doe := z - era * 146097
  let yoe := (doe - doe / 1460 + doe / 36524 - doe / 146096) / 365
  let doy := doe - (365 * yoe + yoe / 4 - yoe / 100)
  let mp := (5 * doy + 2) / 153
  let d := doy - (153 * mp + 2) / 5 + 1
  let m := if mp < 10 then mp + 3 else mp - 9
  (yoe + era * 400 + (if m ≤ 2 then 1 else 0), m.toNat, d.toNat)

/-- The seconds of the instant on the clock of its location. -/
def abs (t : Time) : Int := t.unixSec + t.offset

/-- `Date`: year, month and day in the time's location. -/
def date (t : Time) : Int × Nat × Nat := civil (t.abs / 86400)

/-- `Clock`: hour, minute and second in the time's location. -/
def clock (t : Time) : Nat × Nat × Nat :=
  let s := (t.abs % 86400).toNat
  (s / 3600, s % 3600 / 60, s % 60)

/-- `appendInt` of package `time`: the decimal form of `x`, its digits padded with zeros to
`width`. -/
def appendInt (b : List Char) (x : Int) (width : Nat) : List Char :=
  let ds := Nat.toDigits 10 x.natAbs
  b ++ (if x < 0 then ['-'] else []) ++ List.replicate (width - ds.length) '0' ++ ds

/-- `appendNano` for the layout `.999999999`: nothing for a whole second, else a dot and nine
digits with the trailing zeros (and a dot left last) cut. -/
def appendNano (b : List Char) (nanosec : Nat) : List Char :=
  if nanosec = 0 then b
  else
    let r := ((appendInt (b ++ ['.']) nanosec 9).reverse.dropWhile (· = '0')).reverse
    if r.getLast? = some '.' then r.dropLast else r

/-- The zone `Z07:00:00` of ISO 8601 (`stdISO8601ColonSecondsTZ`): `Z` for UTC, else the sign,
hours, minutes and seconds of the offset. Go divides and takes remainders toward zero. -/
def appendISO8601ColonSecondsTZ (b : List Char) (offset : Int) : List Char :=
  if offset = 0 then b ++ ['Z']
  else
    let zone := offset.tdiv 60
    let (sign, zone, absoffset) := if zone < 0 then ('-', -zone, -offset) else ('+', zone, offset)
    appendInt (appendInt (appendInt (b ++ [sign]) (zone.tdiv 60) 2 ++ [':']) (zone.tmod 60) 2 ++ [':'])
      (absoffset.tmod 60) 2

/-- The chunks of a layout string that `nextStdChunk` finds. -/
inductive Chunk
  | lit (s : List Char)
  | longYear
  | zeroMonth
  | zeroDay
  | hour
  | zeroMinute
  | zeroSecond
  | fracSecond9
  | iso8601ColonSecondsTZ

/-- One chunk of `AppendFormat`. -/
def appendChunk (t : Time) (b : List Char) : Chunk → List Char
  | .lit s => b ++ s
  | .longYear => appendInt b t.date.1 4
  | .zeroMonth => appendInt b t.date.2.1 2
  | .zeroDay => appendInt b t.date.2.2 2
  | .hour => appendInt b t.clock.1 2
  | .zeroMinute => appendInt b t.clock.2.1 2
  | .zeroSecond => appendInt b t.clock.2.2 2
  | .fracSecond9 => appendNano b t.nsec
  | .iso8601ColonSecondsTZ => appendISO8601ColonSecondsTZ b t.offset

/-- `t.AppendFormat(b, layout)`, for a layout given by its chunks. -/
def appendFormat (t : Time) (b : List UInt8) (layout : List Chunk) : List UInt8 :=
  b ++ Utf8.encode (layout.foldl t.appendChunk [])

/-! ### What a layout writes -/

/-- A positive number does not start with a zero. -/
theorem toDigits_head (n : Nat) (hn : 0 < n) : ∃ d ds, Nat.toDigits 10 n = d :: ds ∧ d ≠ '0' := by
  induction n using Nat.strongRecOn with
  | ind n ih =>
    rw [Nat.toDigits_eq_if (by decide)]
    split
    · exact ⟨_, [], rfl, by rw [ne_eq, Nat.digitChar_eq_zero]; omega⟩
    · obtain ⟨d, ds, h, hd⟩ := ih (n / 10) (by omega) (by omega)
      exact ⟨d, ds ++ [(n % 10).digitChar], by rw [h, List.cons_append], hd⟩

/-- The characters a chunk can write. -/
def Chunk.Emits : Chunk → Char → Prop
  | .lit s, c => c ∈ s
  | _, c => c.isDigit ∨ c = '-' ∨ c = '.' ∨ c = ':' ∨ c = 'Z' ∨ c = '+'

theorem appendInt_eq (b : List Char) (x : Int) (width : Nat) :
    ∃ y, appendInt b x width = b ++ y ∧ ∀ c ∈ y, c.isDigit ∨ c = '-' := by
  refine ⟨_, by rw [appendInt, List.append_assoc, List.append_assoc], fun c hc => ?_⟩
  simp only [List.mem_append, List.mem_replicate] at hc
  rcases hc with hc | ⟨-, rfl⟩ | hc
  · right
    by_cases hx : x < 0 <;> simp_all
  · exact .inl rfl
  · exact .inl (Nat.isDigit_of_mem_toDigits (by decide) (by decide) hc)

/-- A nonzero fraction keeps everything before its dot: the trailing zeros it cuts are its own. -/
theorem appendNano_eq (b : List Char) (n : Nat) :
    ∃ y, appendNano b n = b ++ y ∧ ∀ c ∈ y, c.isDigit ∨ c = '.' := by
  unfold appendNano
  split
  · exact ⟨[], by simp, by simp⟩
  · rename_i hn
    obtain ⟨d, ds, hds, hd⟩ := toDigits_head n (by omega)
    -- before the cut: `b`, the dot, the padding, then the digits, which do not all read zero
    set zs := List.replicate (9 - (Nat.toDigits 10 n).length) '0' with hzs
    have hfull : appendInt (b ++ ['.']) n 9 = (b ++ '.' :: zs) ++ (d :: ds) := by
      simp [appendInt, hds, zs]
    have hdig : ∀ c ∈ d :: ds, c.isDigit := fun c hc =>
      Nat.isDigit_of_mem_toDigits (by decide) (by decide) (hds ▸ hc)
    set xs := (d :: ds).reverse with hxs
    have hne : xs.dropWhile (· = '0') ≠ [] := by
      intro h
      have hall := List.all_eq_true.1 (List.all_takeWhile (l := xs) (p := (· = '0')))
      rw [← List.append_nil (xs.takeWhile _), ← h, List.takeWhile_append_dropWhile] at hall
      exact hd (by simpa using hall d (by simp [xs]))
    obtain ⟨e, es, hes⟩ := List.exists_cons_of_ne_nil hne
    have he : e ∈ d :: ds := by
      have : e ∈ xs.dropWhile (· = '0') := by rw [hes]; exact List.mem_cons_self
      exact List.mem_reverse.1 (List.dropWhile_subset _ this)
    have hr : ((appendInt (b ++ ['.']) n 9).reverse.dropWhile (· = '0')).reverse =
        (b ++ '.' :: zs) ++ (e :: es).reverse := by
      rw [hfull, List.reverse_append, List.dropWhile_append, if_neg (by rw [← hxs, hes]; simp), hes,
        List.reverse_append, List.reverse_reverse]
    have hlast : ((b ++ '.' :: zs) ++ (e :: es).reverse).getLast? ≠ some '.' := by
      rw [List.getLast?_append, List.getLast?_reverse, List.head?_cons]
      intro h
      simp only [Option.some_or, Option.some.injEq] at h
      have := hdig e he
      rw [h] at this
      exact absurd this (by decide)
    refine ⟨'.' :: zs ++ (e :: es).reverse, ?_, fun c hc => ?_⟩
    · rw [hr, if_neg hlast, List.append_assoc, List.cons_append]
    · simp only [List.cons_append, List.mem_cons, List.mem_append, List.mem_reverse, hzs,
        List.mem_replicate] at hc
      rcases hc with rfl | ⟨-, rfl⟩ | hc
      · exact .inr rfl
      · exact .inl rfl
      · have : c ∈ xs.dropWhile (· = '0') := by rw [hes]; exact List.mem_cons.2 hc
        exact .inl (hdig c (List.mem_reverse.1 (List.dropWhile_subset _ this)))

theorem appendISO8601ColonSecondsTZ_eq (b : List Char) (offset : Int) :
    ∃ y, appendISO8601ColonSecondsTZ b offset = b ++ y ∧
      ∀ c ∈ y, c.isDigit ∨ c = '-' ∨ c = ':' ∨ c = 'Z' ∨ c = '+' := by
  unfold appendISO8601ColonSecondsTZ
  split
  · exact ⟨['Z'], rfl, by simp⟩
  · -- the sign, then hours, minutes and seconds, each written by `appendInt`
    obtain ⟨sign, zone, absoffset, hsign, htriple⟩ : ∃ sign zone absoffset, (sign = '-' ∨ sign = '+') ∧
        (if offset.tdiv 60 < 0 then ('-', -offset.tdiv 60, -offset)
          else ('+', offset.tdiv 60, offset)) = (sign, zone, absoffset) := by
      split
      · exact ⟨_, _, _, .inl rfl, rfl⟩
      · exact ⟨_, _, _, .inr rfl, rfl⟩
    dsimp only
    rw [htriple]
    obtain ⟨y1, h1, hy1⟩ := appendInt_eq (b ++ [sign]) (zone.tdiv 60) 2
    obtain ⟨y2, h2, hy2⟩ := appendInt_eq (b ++ [sign] ++ y1 ++ [':']) (zone.tmod 60) 2
    obtain ⟨y3, h3, hy3⟩ := appendInt_eq (b ++ [sign] ++ y1 ++ [':'] ++ y2 ++ [':']) (absoffset.tmod 60) 2
    refine ⟨sign :: y1 ++ ':' :: y2 ++ ':' :: y3, ?_, fun c hc => ?_⟩
    · rw [h1, h2, h3]
      simp
    · simp only [List.cons_append, List.mem_cons, List.mem_append] at hc
      rcases hc with rfl | (hc | rfl | hc) | rfl | hc
      · rcases hsign with rfl | rfl <;> simp
      · rcases hy1 c hc with h | h <;> simp [h]
      · simp
      · rcases hy2 c hc with h | h <;> simp [h]
      · simp
      · rcases hy3 c hc with h | h <;> simp [h]

/-- A chunk appends to what is written before it. -/
theorem appendChunk_eq (t : Time) (b : List Char) (ch : Chunk) :
    ∃ y, t.appendChunk b ch = b ++ y ∧ ∀ c ∈ y, ch.Emits c := by
  cases ch
  case lit s => exact ⟨s, rfl, fun c hc => hc⟩
  case fracSecond9 =>
    obtain ⟨y, h, hy⟩ := appendNano_eq b t.nsec
    exact ⟨y, h, fun c hc => by rcases hy c hc with h | h <;> simp [Chunk.Emits, h]⟩
  case iso8601ColonSecondsTZ =>
    obtain ⟨y, h, hy⟩ := appendISO8601ColonSecondsTZ_eq b t.offset
    exact ⟨y, h, fun c hc => by rcases hy c hc with h | h | h | h | h <;> simp [Chunk.Emits, h]⟩
  all_goals
    obtain ⟨y, h, hy⟩ := appendInt_eq b _ _
    exact ⟨y, h, fun c hc => by rcases hy c hc with h | h <;> simp [Chunk.Emits, h]⟩

/-- What a layout writes is made of what its chunks write. -/
theorem foldl_appendChunk (t : Time) (chunks : List Chunk) (b : List Char) :
    ∃ y, chunks.foldl t.appendChunk b = b ++ y ∧ ∀ c ∈ y, ∃ ch ∈ chunks, ch.Emits c := by
  induction chunks generalizing b with
  | nil => exact ⟨[], by simp, by simp⟩
  | cons ch chunks ih =>
    obtain ⟨y1, h1, hy1⟩ := appendChunk_eq t b ch
    obtain ⟨y2, h2, hy2⟩ := ih (t.appendChunk b ch)
    refine ⟨y1 ++ y2, by rw [List.foldl_cons, h2, h1, List.append_assoc], fun c hc => ?_⟩
    rcases List.mem_append.1 hc with hc | hc
    · exact ⟨ch, List.mem_cons_self, hy1 c hc⟩
    · obtain ⟨ch', hch', hc'⟩ := hy2 c hc
      exact ⟨ch', List.mem_cons_of_mem _ hch', hc'⟩

end Time

end Go
