import Pgx.Go.Calendar
import Pgx.Go.Strconv

/-!
# Go's `time.Parse`, for a layout given by its chunks

`parse layout value` reads `value` as `time.Parse` does once `nextStdChunk` has split the layout
into chunks: the literal text before each field must match, a space matching a run of spaces,
and each field reads its digits into the year, month, day, hour, minute, second or nanoseconds,
or the zone into its offset. After the last chunk nothing may be left; the day is checked
against its month, and `time.Date` builds the time, in UTC unless a zone was read.

A four-digit year takes exactly four characters, whatever follows them. So
`parse_appendChunk` (a field reads back what `AppendFormat` wrote for it) needs a year from 0 to
9999: a five-digit year leaves its last digit where the layout expects the `-` after the year.

Go's `leadingInt` fails on a number over `2^63`; the fields here read at most nine digits, so
that check is left out.
-/

namespace Go.Time

/-- The text of a chunk in a layout string. -/
def Chunk.text : Chunk → List Char
  | .lit s => s
  | .longYear => "2006".toList
  | .zeroMonth => "01".toList
  | .zeroDay => "02".toList
  | .hour => "15".toList
  | .zeroMinute => "04".toList
  | .zeroSecond => "05".toList
  | .fracSecond9 => ".999999999".toList
  | .iso8601ColonSecondsTZ => "Z07:00:00".toList

/-- A `*time.ParseError`. -/
structure ParseError where
  layout : List Char
  value : List Char
  layoutElem : List Char
  valueElem : List Char
  message : List Char
  deriving DecidableEq, Repr

/-- `quote(s)`: in double quotes, with a backslash before a quote or a backslash, and the bytes
of a character that is not printable ASCII written as `\xNN`. -/
def quote (s : List Char) : List Char :=
  let hex (b : UInt8) : List Char := ['\\', 'x', (b.toNat / 16).digitChar, (b.toNat % 16).digitChar]
  '"' :: s.flatMap (fun c =>
    if 0x80 ≤ c.toNat ∨ c.toNat < 0x20 then (Utf8.encode [c]).flatMap hex
    else if c = '"' ∨ c = '\\' then ['\\', c] else [c]) ++ ['"']

/-- `skip(value, prefix)`: the literal text matched at the front of `value`, and the rest of
`value`; a space matches a run of spaces, or the end of the value. After a space Go cuts every
space that follows it in the literal, which `afterSpace` carries from one character to the next.
On a mismatch, the value as far as it got. -/
def skip (value : List Char) (afterSpace : Bool) : List Char → Except (List Char) (List Char)
  | [] => .ok value
  | p :: lit =>
    if p = ' ' then
      if afterSpace then skip value true lit
      else if value ≠ [] ∧ value.head? ≠ some ' ' then .error value
      else skip (value.dropWhile (· = ' ')) true lit
    else
      match value with
      | v :: value => if v = p then skip value false lit else .error (v :: value)
      | [] => .error []

/-- `getnum(s, fixed)`: one or two digits, two when `fixed`, and the rest of `s`. -/
def getnum (s : List Char) (fixed : Bool) : Option (Int × List Char) :=
  match s with
  | c0 :: c1 :: rest =>
    if !c0.isDigit then none
    else if c1.isDigit then some (10 * (c0.toNat - '0'.toNat : Nat) + (c1.toNat - '0'.toNat : Nat), rest)
    else if fixed then none
    else some ((c0.toNat - '0'.toNat : Nat), c1 :: rest)
  | [c0] => if c0.isDigit ∧ !fixed then some ((c0.toNat - '0'.toNat : Nat), []) else none
  | [] => none

/-- `leadingInt(s)`: the value of the digits at the front of `s`, and the rest. -/
def leadingInt (s : List Char) : Nat × List Char :=
  (Nat.ofDigitChars 10 (s.takeWhile Char.isDigit) 0, s.dropWhile Char.isDigit)

/-- `atoi(s)` of package `time`: a sign, then digits and nothing else. -/
def atoi (s : List Char) : Option Int :=
  let (neg, s) : Bool × List Char := match s with
    | '-' :: t => (true, t)
    | '+' :: t => (false, t)
    | _ => (false, s)
  let (q, rem) := leadingInt s
  if rem ≠ [] then none else some (if neg then -(q : Int) else q)

/-- `parseNanoseconds(value, nbytes)`: the digits after the separator, at most nine of them,
scaled to nanoseconds, and the name of a value out of range; `none` is `errBad`. -/
def parseNanoseconds (value : List Char) (nbytes : Nat) : Option (Int × List Char) :=
  if !(value.head? = some '.' ∨ value.head? = some ',') then none
  else
    let nbytes := min nbytes 10
    match atoi ((value.take nbytes).drop 1) with
    | none => none
    | some ns => if ns < 0 then some (ns, "fractional second".toList) else some (ns * 10 ^ (10 - nbytes), [])

/-- What `Parse` has read: the fields of the date and the clock, whether the zone is `Z`, and
the offset of a zone read, `-1` for none. -/
structure ParseState where
  year : Int
  month : Int
  day : Int
  hour : Int
  min : Int
  sec : Int
  nsec : Int
  z : Bool
  zoneOffset : Int

/-- The fields before `Parse` reads any: a month and day of `-1` are not read yet. -/
def ParseState.init : ParseState := ⟨0, -1, -1, 0, 0, 0, 0, false, -1⟩

/-- What one field of the layout gives: the rest of the value and what it read, `errBad`, or a
value out of range, with the rest of the value. -/
inductive FieldResult
  | ok (value : List Char) (st : ParseState)
  | bad
  | outOfRange (what : List Char) (value : List Char)

/-- The next chunk of the layout that is not literal text. -/
def nextStd : List Chunk → Option Chunk
  | [] => none
  | .lit _ :: rest => nextStd rest
  | c :: _ => some c

/-- One field of `Parse`, with the chunks after it. -/
def parseField (rest : List Chunk) (value : List Char) (st : ParseState) : Chunk → FieldResult
  -- literal text is matched by `parseChunks` before a field is read
  | .lit _ => .ok value st
  | .longYear =>
    if value.length < 4 ∨ !(value.head?.any Char.isDigit) then .bad
    else match atoi (value.take 4) with
      | none => .bad
      | some year => .ok (value.drop 4) { st with year }
  | .zeroMonth =>
    match getnum value true with
    | none => .bad
    | some (month, v) => if month ≤ 0 ∨ 12 < month then .outOfRange "month".toList v
      else .ok v { st with month }
  | .zeroDay =>
    match getnum value true with
    | none => .bad
    | some (day, v) => .ok v { st with day }
  | .hour =>
    match getnum value false with
    | none => .bad
    | some (hour, v) => if hour < 0 ∨ 24 ≤ hour then .outOfRange "hour".toList v
      else .ok v { st with hour }
  | .zeroMinute =>
    match getnum value true with
    | none => .bad
    | some (min, v) => if min < 0 ∨ 60 ≤ min then .outOfRange "minute".toList v
      else .ok v { st with min }
  | .zeroSecond =>
    match getnum value true with
    | none => .bad
    | some (sec, v) =>
      if sec < 0 ∨ 60 ≤ sec then .outOfRange "second".toList v
      else
        -- a fraction in the value that the layout has no field for
        match v with
        | sep :: d :: _ =>
          if (sep = '.' ∨ sep = ',') ∧ d.isDigit then
            match nextStd rest with
            -- the layout's own fraction field reads it
            | some .fracSecond9 => .ok v { st with sec }
            | _ =>
              let n := 2 + ((v.drop 2).takeWhile Char.isDigit).length
              match parseNanoseconds v n with
              | none => .bad
              | some (nsec, []) => .ok (v.drop n) { st with sec, nsec }
              | some (_, what) => .outOfRange what (v.drop n)
          else .ok v { st with sec }
        | _ => .ok v { st with sec }
  | .fracSecond9 =>
    match value with
    | sep :: d :: _ =>
      if (sep = '.' ∨ sep = ',') ∧ d.isDigit then
        let i := ((value.drop 1).takeWhile Char.isDigit).length
        match parseNanoseconds value (1 + i) with
        | none => .bad
        | some (nsec, []) => .ok (value.drop (1 + i)) { st with nsec }
        | some (_, what) => .outOfRange what (value.drop (1 + i))
      -- the fraction is omitted
      else .ok value st
    | _ => .ok value st
  | .iso8601ColonSecondsTZ =>
    match value with
    | 'Z' :: v => .ok v { st with z := true }
    | sign :: h1 :: h2 :: ':' :: m1 :: m2 :: ':' :: s1 :: s2 :: v =>
      -- the fields read before the first that fails, `0` from there on
      let (hr, mm, ss, bad) : Int × Int × Int × Bool :=
        match getnum [h1, h2] true with
        | none => (0, 0, 0, true)
        | some (hr, _) =>
          match getnum [m1, m2] true with
          | none => (hr, 0, 0, true)
          | some (mm, _) =>
            match getnum [s1, s2] true with
            | none => (hr, mm, 0, true)
            | some (ss, _) => (hr, mm, ss, false)
      -- the last range check that fails names the error
      let rangeErr : List Char :=
        if 60 < ss then "time zone offset second".toList
        else if 60 < mm then "time zone offset minute".toList
        else if 24 < hr then "time zone offset hour".toList
        else []
      let zoneOffset := (hr * 60 + mm) * 60 + ss
      if rangeErr ≠ [] then .outOfRange rangeErr v
      else if bad ∨ ¬(sign = '+' ∨ sign = '-') then .bad
      else .ok v { st with zoneOffset := if sign = '-' then -zoneOffset else zoneOffset }
    | _ => .bad

/-- The loop of `Parse` over the chunks of the layout: `alayout` and `avalue` are the whole
layout and value, for the errors. -/
def parseChunks (alayout avalue : List Char) : List Chunk → List Char → ParseState →
    Except ParseError ParseState
  | [], value, st =>
    if value = [] then .ok st
    else .error ⟨alayout, avalue, [], value, ": extra text: ".toList ++ quote value⟩
  | .lit lit :: rest, value, st =>
    match skip value false lit with
    | .error v => .error ⟨alayout, avalue, lit, v, []⟩
    | .ok v => parseChunks alayout avalue rest v st
  | c :: rest, value, st =>
    match parseField rest value st c with
    | .ok v st => parseChunks alayout avalue rest v st
    | .bad => .error ⟨alayout, avalue, c.text, value, []⟩
    | .outOfRange what v => .error ⟨alayout, avalue, c.text, v, ": ".toList ++ what ++ " out of range".toList⟩

/-- `time.Parse(layout, value)`: the fields read, the day checked against its month, and the time
built in UTC, or at the offset read. -/
def parse (layout : List Chunk) (value : List Char) : Except ParseError Time :=
  let alayout := layout.flatMap Chunk.text
  match parseChunks alayout value layout value ParseState.init with
  | .error e => .error e
  | .ok st =>
    let month := if st.month < 0 then 1 else st.month
    let day := if st.day < 0 then 1 else st.day
    if day < 1 ∨ day > daysIn month st.year then .error ⟨alayout, value, [], [], ": day out of range".toList⟩
    else
      let t := Go.date st.year month day st.hour st.min st.sec st.nsec
      if st.z then .ok t
      else if st.zoneOffset ≠ -1 then .ok { t with unixSec := t.unixSec - st.zoneOffset, offset := st.zoneOffset }
      else .ok t

/-- `t.Format(layout)`. -/
def format (t : Time) (layout : List Chunk) : List Char := layout.foldl t.appendChunk []

/-! ## Reading back decimal digits -/

open Go.Fmt

/-- The decimal digits of `n`, padded with zeros to `w` of them, as `appendInt` writes a number
that is not negative. -/
theorem appendInt_of_nonneg (b : List Char) {x : Int} (hx : 0 ≤ x) (w : Nat) :
    appendInt b x w =
      b ++ (List.replicate (w - (Nat.toDigits 10 x.natAbs).length) '0' ++ Nat.toDigits 10 x.natAbs) := by
  simp [appendInt, Int.not_lt.mpr hx]

theorem length_padDigits {w n : Nat} (hw : 0 < w) (h : n < 10 ^ w) :
    (List.replicate (w - (Nat.toDigits 10 n).length) '0' ++ Nat.toDigits 10 n).length = w := by
  have := Nat.toDigits_length 10 n w hw h
  simp only [List.length_append, List.length_replicate]
  omega

/-- `atoi` reads decimal digits as their value. -/
theorem atoi_digits {ds : List Char} (hne : ds ≠ []) (hd : ∀ c ∈ ds, c.isDigit) :
    atoi ds = some ((Nat.ofDigitChars 10 ds 0 : Nat) : Int) := by
  obtain ⟨c, cs, rfl⟩ := List.exists_cons_of_ne_nil hne
  have hc := hd c List.mem_cons_self
  have hminus : c ≠ '-' := by
    rintro rfl
    exact absurd hc (by decide)
  have hplus : c ≠ '+' := by
    rintro rfl
    exact absurd hc (by decide)
  have htake : (c :: cs).takeWhile Char.isDigit = c :: cs := List.takeWhile_eq_self_iff.2 hd
  have hdrop : (c :: cs).dropWhile Char.isDigit = [] := List.dropWhile_eq_nil_iff.2 hd
  simp [atoi, leadingInt, hminus, hplus, htake, hdrop]

/-- `getnum` reads two digits as their value. -/
theorem getnum_two {c0 c1 : Char} (h0 : c0.isDigit) (h1 : c1.isDigit) (rest : List Char)
    (fixed : Bool) :
    getnum (c0 :: c1 :: rest) fixed = some (((Nat.ofDigitChars 10 [c0, c1] 0 : Nat) : Int), rest) := by
  simp [getnum, h0, h1, Nat.ofDigitChars_cons]

/-- `getnum` reads back a number below 100 that `appendInt` wrote in two digits. -/
theorem getnum_appendInt {x : Int} (h0 : 0 ≤ x) (h1 : x < 100) (rest : List Char) (fixed : Bool) :
    getnum (appendInt [] x 2 ++ rest) fixed = some (x, rest) := by
  rw [appendInt_of_nonneg [] h0, List.nil_append]
  obtain ⟨c0, c1, hcs⟩ := List.length_eq_two.1
    (length_padDigits (n := x.natAbs) (by decide) (by omega))
  have hd := padDigits_isDigit (2 - (Nat.toDigits 10 x.natAbs).length) x.natAbs
  have hv := ofDigitChars_padDigits (2 - (Nat.toDigits 10 x.natAbs).length) x.natAbs
  rw [hcs] at hd hv ⊢
  rw [List.cons_append, List.cons_append, List.nil_append,
    getnum_two (hd c0 (by simp)) (hd c1 (by simp)), hv]
  simp only [Option.some.injEq, Prod.mk.injEq, and_true]
  omega

/-! ## The fields of a layout read back -/

/-- A literal character other than a space matches itself. -/
theorem skip_char {c : Char} (hc : c ≠ ' ') (rest : List Char) :
    skip (c :: rest) false [c] = .ok rest := by
  simp [skip, hc]

/-- A literal space matches one space before a character that is not one. -/
theorem skip_space {rest : List Char} (hr : rest.head? ≠ some ' ') :
    skip (' ' :: rest) false [' '] = .ok rest := by
  have : rest.dropWhile (· = ' ') = rest := by
    cases rest with
    | nil => rfl
    | cons r rs =>
      have hr' : r ≠ ' ' := fun h => hr (by rw [h]; rfl)
      simp [hr']
  simp [skip, this]

/-- A literal space matches the space before a number that `appendInt` wrote, which starts with
a digit. -/
theorem skip_space_appendInt {x : Int} (hx : 0 ≤ x) (w : Nat) (tail : List Char) :
    skip (' ' :: (appendInt [] x w ++ tail)) false [' '] = .ok (appendInt [] x w ++ tail) := by
  apply skip_space
  rw [appendInt_of_nonneg [] hx, List.nil_append]
  obtain ⟨c, cs, h⟩ := List.exists_cons_of_ne_nil
    (List.append_ne_nil_of_right_ne_nil (List.replicate (w - (Nat.toDigits 10 x.natAbs).length) '0')
      (Nat.toDigits_ne_nil (n := x.natAbs) (b := 10)))
  have hc := padDigits_isDigit _ _ c (h ▸ List.mem_cons_self)
  rw [h, List.cons_append, List.head?_cons, ne_eq, Option.some.injEq]
  rintro rfl
  exact absurd hc (by decide)

theorem parseField_longYear (rest : List Chunk) (st : ParseState) {year : Int} (h0 : 0 ≤ year)
    (h1 : year < 10000) (tail : List Char) :
    parseField rest (appendInt [] year 4 ++ tail) st .longYear = .ok tail { st with year } := by
  rw [appendInt_of_nonneg [] h0, List.nil_append]
  have hlen := length_padDigits (n := year.natAbs) (w := 4) (by decide) (by omega)
  have hd := padDigits_isDigit (4 - (Nat.toDigits 10 year.natAbs).length) year.natAbs
  have hv := ofDigitChars_padDigits (4 - (Nat.toDigits 10 year.natAbs).length) year.natAbs
  generalize List.replicate (4 - (Nat.toDigits 10 year.natAbs).length) '0' ++
    Nat.toDigits 10 year.natAbs = ds at hlen hd hv
  obtain ⟨c, cs, rfl⟩ := List.exists_cons_of_ne_nil (List.ne_nil_of_length_pos (by omega) : ds ≠ [])
  have hne : c :: cs ≠ [] := List.cons_ne_nil c cs
  have hcs : cs.length = 3 := by simpa using hlen
  delta parseField
  rw [if_neg (by simp [hd c List.mem_cons_self]; omega), List.take_left' hlen,
    List.drop_left' hlen, atoi_digits hne hd, hv, Int.natAbs_of_nonneg h0]

theorem parseField_zeroMonth (rest : List Chunk) (st : ParseState) {month : Int} (h1 : 1 ≤ month)
    (h12 : month ≤ 12) (tail : List Char) :
    parseField rest (appendInt [] month 2 ++ tail) st .zeroMonth = .ok tail { st with month } := by
  delta parseField
  simp only [getnum_appendInt (by omega : 0 ≤ month) (by omega)]
  rw [if_neg (by omega)]

theorem parseField_zeroDay (rest : List Chunk) (st : ParseState) {day : Int} (h0 : 0 ≤ day)
    (h100 : day < 100) (tail : List Char) :
    parseField rest (appendInt [] day 2 ++ tail) st .zeroDay = .ok tail { st with day } := by
  delta parseField
  simp only [getnum_appendInt h0 h100]

theorem parseField_hour (rest : List Chunk) (st : ParseState) {hour : Int} (h0 : 0 ≤ hour)
    (h24 : hour < 24) (tail : List Char) :
    parseField rest (appendInt [] hour 2 ++ tail) st .hour = .ok tail { st with hour } := by
  delta parseField
  simp only [getnum_appendInt h0 (by omega)]
  rw [if_neg (by omega)]

theorem parseField_zeroMinute (rest : List Chunk) (st : ParseState) {min : Int} (h0 : 0 ≤ min)
    (h60 : min < 60) (tail : List Char) :
    parseField rest (appendInt [] min 2 ++ tail) st .zeroMinute = .ok tail { st with min } := by
  delta parseField
  simp only [getnum_appendInt h0 (by omega)]
  rw [if_neg (by omega)]

/-- The seconds, followed in the layout by the field of their fraction, which reads it. -/
theorem parseField_zeroSecond {rest : List Chunk} (hfrac : nextStd rest = some .fracSecond9)
    (st : ParseState) {sec : Int} (h0 : 0 ≤ sec) (h60 : sec < 60) (tail : List Char) :
    parseField rest (appendInt [] sec 2 ++ tail) st .zeroSecond = .ok tail { st with sec } := by
  delta parseField
  simp only [getnum_appendInt h0 (by omega)]
  rw [if_neg (by omega)]
  split
  · split
    · simp only [hfrac]
    · rfl
  · rfl

/-- A fraction that is not zero is a dot and its nine digits with the trailing zeros cut, which
read back as the nanoseconds once scaled by the zeros cut. -/
theorem appendNano_digits {n : Nat} (h0 : 0 < n) (h1 : n < 1000000000) :
    ∃ ds, (∀ b, appendNano b n = b ++ '.' :: ds) ∧ ds ≠ [] ∧ (∀ c ∈ ds, c.isDigit) ∧
      ds.length ≤ 9 ∧ Nat.ofDigitChars 10 ds 0 * 10 ^ (9 - ds.length) = n := by
  -- the nine digits, and those left when the trailing zeros are cut
  have hP : ∀ b : List Char, appendInt (b ++ ['.']) n 9 =
      b ++ ['.'] ++ (List.replicate (9 - (Nat.toDigits 10 n).length) '0' ++ Nat.toDigits 10 n) :=
    fun b => by simpa using appendInt_of_nonneg (b ++ ['.']) (x := n) (by omega) 9
  have hlen := length_padDigits (n := n) (w := 9) (by decide) (by omega)
  have hd := padDigits_isDigit (9 - (Nat.toDigits 10 n).length) n
  have hv := ofDigitChars_padDigits (9 - (Nat.toDigits 10 n).length) n
  generalize List.replicate (9 - (Nat.toDigits 10 n).length) '0' ++ Nat.toDigits 10 n = P
    at hP hlen hd hv
  have hsplit := List.takeWhile_append_dropWhile (p := fun c => decide (c = '0')) (l := P.reverse)
  generalize hzs0 : P.reverse.takeWhile (fun c => decide (c = '0')) = zs at hsplit
  generalize hys : P.reverse.dropWhile (fun c => decide (c = '0')) = ys at hsplit
  have hzs : zs.reverse = List.replicate zs.length '0' := by
    rw [List.eq_replicate_iff, List.length_reverse]
    refine ⟨rfl, fun c hc => ?_⟩
    rw [List.mem_reverse, ← hzs0] at hc
    simpa using List.mem_takeWhile_imp hc
  have hPds : P = ys.reverse ++ List.replicate zs.length '0' := by
    rw [← hzs, ← List.reverse_append, hsplit, List.reverse_reverse]
  -- a number that is not zero has a digit that is not zero
  have hne : ys ≠ [] := by
    rintro rfl
    rw [List.reverse_nil, List.nil_append] at hPds
    rw [hPds, Nat.ofDigitChars_replicate_zero, Nat.mul_zero] at hv
    omega
  obtain ⟨y, ys', rfl⟩ := List.exists_cons_of_ne_nil hne
  have hy : y.isDigit := hd y (by rw [hPds]; simp)
  -- cutting the zeros stops at the last digit that is not one, before the dot
  have hcut : ∀ b : List Char, ((b ++ ['.'] ++ P).reverse.dropWhile (fun c => decide (c = '0'))).reverse =
      b ++ '.' :: (y :: ys').reverse := fun b => by
    rw [List.reverse_append, List.dropWhile_append, hys, if_neg (by simp), List.reverse_append,
      List.reverse_reverse, List.append_assoc, List.singleton_append]
  refine ⟨(y :: ys').reverse, fun b => ?_, by simp,
    fun c hc => hd c (by rw [hPds]; exact List.mem_append_left _ hc), ?_, ?_⟩
  · rw [appendNano, if_neg (by omega)]
    dsimp only
    rw [hP, hcut, if_neg]
    -- the last character is the last digit kept, not the dot
    rw [List.getLast?_append, List.getLast?_cons, List.getLast?_reverse, List.head?_cons,
      Option.getD_some, Option.some_or, Option.some.injEq]
    rintro rfl
    exact absurd hy (by decide)
  · have := congrArg List.length hPds
    simp only [List.length_append, List.length_replicate] at this
    omega
  · have hk : zs.length = 9 - (y :: ys').reverse.length := by
      have := congrArg List.length hPds
      simp only [List.length_append, List.length_replicate] at this
      omega
    rw [← hk, ← hv, hPds, Nat.ofDigitChars_append, Nat.ofDigitChars_replicate_zero, Nat.mul_comm]

/-- `parseNanoseconds` reads at most nine digits after a dot, scaled to nanoseconds. -/
theorem parseNanoseconds_digits {ds : List Char} (hne : ds ≠ []) (hd : ∀ c ∈ ds, c.isDigit)
    (hlen : ds.length ≤ 9) (tail : List Char) :
    parseNanoseconds ('.' :: (ds ++ tail)) (1 + ds.length) =
      some (((Nat.ofDigitChars 10 ds 0 : Nat) : Int) * 10 ^ (9 - ds.length), []) := by
  have htake : ('.' :: (ds ++ tail)).take (1 + ds.length) = '.' :: ds := by
    rw [Nat.add_comm, List.take_succ_cons, List.take_left' rfl]
  simp only [parseNanoseconds, List.head?_cons, true_or,
    Nat.min_eq_left (by omega : 1 + ds.length ≤ 10), htake,
    List.drop_one, List.tail_cons, atoi_digits hne hd]
  rw [if_neg (by simp), if_neg (by omega), show 10 - (1 + ds.length) = 9 - ds.length by omega]

/-- The fraction reads back as the nanoseconds, when nothing after it looks like more of it. -/
theorem parseField_fracSecond9 (rest : List Chunk) {st : ParseState} (hst : st.nsec = 0) {n : Nat}
    (hn : n < 1000000000) {tail : List Char}
    (ht : ∀ c ∈ tail.head?, c.isDigit = false ∧ c ≠ '.' ∧ c ≠ ',') :
    parseField rest (appendNano [] n ++ tail) st .fracSecond9 = .ok tail { st with nsec := n } := by
  by_cases h0 : n = 0
  · -- the fraction of a whole second is omitted, and nothing is read
    subst h0
    have hst' : { st with nsec := ((0 : Nat) : Int) } = st := by
      cases st
      simp_all
    rw [show appendNano [] 0 = [] from rfl, List.nil_append, hst']
    delta parseField
    match tail, ht with
    | [], _ => rfl
    | [_], _ => rfl
    | c :: d :: t, ht =>
      obtain ⟨-, hdot, hcomma⟩ := ht c rfl
      simp [hdot, hcomma]
  · obtain ⟨ds, hds, hne, hd, hlen, hv⟩ := appendNano_digits (Nat.pos_of_ne_zero h0) hn
    rw [hds, List.nil_append]
    obtain ⟨d, ds', rfl⟩ := List.exists_cons_of_ne_nil hne
    -- the digits of the fraction run up to the tail
    have hi : ((d :: (ds' ++ tail)).takeWhile Char.isDigit).length = (d :: ds').length := by
      rw [← List.cons_append, List.takeWhile_append_of_pos hd, List.length_append, Nat.add_eq_left,
        List.length_eq_zero_iff]
      match tail, ht with
      | [], _ => rfl
      | c :: t, ht => simp [(ht c rfl).1]
    delta parseField
    simp only [List.cons_append]
    rw [if_pos (by simp [hd d List.mem_cons_self])]
    simp only [List.drop_one, List.tail_cons, hi]
    rw [show '.' :: d :: (ds' ++ tail) = '.' :: ((d :: ds') ++ tail) from rfl,
      parseNanoseconds_digits hne hd hlen]
    simp only [Nat.add_comm 1, List.drop_succ_cons, List.drop_left]
    rw [← hv]
    push_cast
    rfl

/-! ## What a layout writes, chunk by chunk -/

theorem appendInt_append (b : List Char) (x : Int) (w : Nat) :
    appendInt b x w = b ++ appendInt [] x w := by
  simp [appendInt]

/-- Each chunk appends what it writes to what is written before it. -/
theorem appendChunk_append (t : Time) (b : List Char) (c : Chunk) :
    t.appendChunk b c = b ++ t.appendChunk [] c := by
  cases c with
  | lit s => rfl
  | fracSecond9 =>
    by_cases h0 : t.nsec = 0
    · simp [appendChunk, appendNano, h0]
    · obtain ⟨ds, hds, -⟩ := appendNano_digits (Nat.pos_of_ne_zero h0) t.nsec_lt
      simp [appendChunk, hds]
  | iso8601ColonSecondsTZ =>
    simp only [appendChunk, appendISO8601ColonSecondsTZ]
    split <;> simp [appendInt]
  | _ => exact appendInt_append _ _ _

theorem foldl_appendChunk_eq (t : Time) (layout : List Chunk) (b : List Char) :
    layout.foldl t.appendChunk b = b ++ layout.flatMap (t.appendChunk []) := by
  induction layout generalizing b with
  | nil => simp
  | cons c cs ih => rw [List.foldl_cons, ih, appendChunk_append, List.flatMap_cons, List.append_assoc]

end Go.Time
