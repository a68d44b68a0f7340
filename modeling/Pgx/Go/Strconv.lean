import Mathlib
import Pgx.Go.Utf8

/-!
# Go's `strconv`: formatting integers, booleans and floats, and parsing integers

The text `strconv.AppendInt`, `strconv.AppendBool` and `strconv.AppendFloat` append, for the
arguments the SQL sanitizer passes them: base 10 for integers, and for a `float64` the format `'f'`
(no exponent) with the shortest precision `-1`.

A `float64` is its IEEE 754 binary64 bit pattern. The shortest precision prints the fewest digits
that `ParseFloat` (round to nearest, ties to even) reads back as the same float: of the decimals
inside the float's rounding interval (closed when its significand is even), those with the fewest
significant digits, and of these the one closest to the float, ties to an even last digit. That is
the result of Go's Ryū-based shortest formatting, which `fmtF` then lays out without an exponent.

`ParseUint` and `ParseInt` return, as Go's do, a value together with an error: a `*NumError`
naming the function, its input and whether the input is no number or out of range.
-/

namespace Go.Strconv

open Utf8

/-- The decimal text of an integer. -/
def formatInt (i : Int) : List Char :=
  (if i < 0 then ['-'] else []) ++ Nat.toDigits 10 i.natAbs

/-- `strconv.AppendInt(dst, i, 10)`. -/
def appendInt (dst : List UInt8) (i : Int64) : List UInt8 := dst ++ encode (formatInt i.toInt)

/-- `strconv.AppendBool`. -/
def appendBool (dst : List UInt8) (b : Bool) : List UInt8 :=
  dst ++ encode (if b then ['t', 'r', 'u', 'e'] else ['f', 'a', 'l', 's', 'e'])

/-- A Go `float64`, as its IEEE 754 bit pattern. -/
structure Float64 where
  bits : UInt64
  deriving DecidableEq, Repr

namespace Float64

/-- The sign bit. -/
def neg (f : Float64) : Bool := f.bits >>> 63 == 1

/-- The biased exponent field. -/
def exp (f : Float64) : Nat := ((f.bits >>> 52) &&& 0x7FF).toNat

/-- The fraction field. -/
def mant (f : Float64) : Nat := (f.bits &&& 0xFFFFFFFFFFFFF).toNat

end Float64

/-- `2 ^ e` for an integer exponent. -/
def pow2 (e : Int) : Rat := if 0 ≤ e then ((2 ^ e.toNat : Nat) : Rat) else 1 / ((2 ^ (-e).toNat : Nat) : Rat)

/-- `10 ^ q` for an integer exponent. -/
def pow10 (q : Int) : Rat := if 0 ≤ q then ((10 ^ q.toNat : Nat) : Rat) else 1 / ((10 ^ (-q).toNat : Nat) : Rat)

/-- The nearest integer, ties to even. -/
def roundHalfEven (r : Rat) : Int :=
  let f := r.floor
  if r - f < 1 / 2 then f else if 1 / 2 < r - f then f + 1 else if f % 2 = 0 then f else f + 1

/-- The multiple `d * 10 ^ q` of `10 ^ q` in the interval from `lo` to `hi` (closed when `closed`)
that is closest to `v`, ties to an even `d`; `none` when the interval holds none. -/
def digitsAt (v lo hi : Rat) (closed : Bool) (q : Int) : Option Nat :=
  let a := lo / pow10 q
  let b := hi / pow10 q
  let dmin := if closed then a.ceil else a.floor + 1
  let dmax := if closed then b.floor else b.ceil - 1
  if dmin ≤ dmax then some (max dmin (min dmax (roundHalfEven (v / pow10 q)))).toNat else none

/-- The largest scale `10 ^ q`, from `10 ^ q0` down and at most `fuel` of them, at which the interval
holds a multiple of it, with that multiple's `d`. -/
def shortestFrom (v lo hi : Rat) (closed : Bool) : Nat → Int → Option (Nat × Int)
  | 0, _ => none
  | fuel + 1, q =>
    match digitsAt v lo hi closed q with
    | some d => some (d, q)
    | none => shortestFrom v lo hi closed fuel (q - 1)

/-- The shortest decimal `d * 10 ^ q` that reads back as the finite, nonzero magnitude `m * 2 ^ e`
of a float whose fraction field is `frac` and exponent field `ex`. Its rounding interval reaches
halfway to the neighbouring floats; below a power of two the lower neighbour is twice as close.
Every float lies below `10 ^ 309` and is a multiple of `2 ^ -1074`, so the scales from `10 ^ 309`
down to `10 ^ -1090` always find one. -/
def shortest (m : Nat) (e : Int) (frac ex : Nat) : Option (Nat × Int) :=
  let v := (m : Rat) * pow2 e
  let lo := if frac = 0 ∧ 1 < ex then v - pow2 (e - 2) else v - pow2 (e - 1)
  let hi := v + pow2 (e - 1)
  shortestFrom v lo hi (m % 2 == 0) 1400 309

/-- `fmtF`: the sign, the integer part (`0` if there is none), then `prec` fraction digits, of the
decimal `0.d × 10 ^ dp`. -/
def fmtF (neg : Bool) (d : List Char) (dp : Int) (prec : Nat) : List Char :=
  (if neg then ['-'] else []) ++
    (if 0 < dp then d.take dp.toNat ++ List.replicate (dp.toNat - d.length) '0' else ['0']) ++
    (if 0 < prec then
      '.' :: (List.range prec).map fun i =>
        if 0 ≤ dp + i ∧ dp + i < d.length then d.getD (dp + i).toNat '0' else '0'
    else [])

/-- The digits and the decimal point position of the shortest decimal of a finite float, as in
Go's `decimalSlice` (`d[:nd]` and `dp`); no digits for zero. -/
def shortestDecimal (f : Float64) : List Char × Int :=
  let (m, e) : Nat × Int :=
    if f.exp = 0 then (f.mant, -1074) else (f.mant + 2 ^ 52, (f.exp : Int) - 1075)
  if m = 0 then ([], 0)
  else
    match shortest m e f.mant f.exp with
    | some (n, q) => (Nat.toDigits 10 n, (Nat.toDigits 10 n).length + q)
    | none => ([], 0)

/-- `strconv.FormatFloat(f, 'f', -1, 64)`: `NaN` and the infinities by name, any other float as
its shortest decimal with as many fraction digits as it needs. -/
def formatFloat (f : Float64) : List Char :=
  if f.exp = 0x7FF then
    if f.mant ≠ 0 then ['N', 'a', 'N'] else if f.neg then ['-', 'I', 'n', 'f'] else ['+', 'I', 'n', 'f']
  else
    let digs := shortestDecimal f
    fmtF f.neg digs.1 digs.2 (max ((digs.1.length : Int) - digs.2) 0).toNat

/-- `strconv.AppendFloat(dst, f, 'f', -1, 64)`. -/
def appendFloat (dst : List UInt8) (f : Float64) : List UInt8 := dst ++ encode (formatFloat f)

/-! ### The characters written -/

/-- `fmtF` writes the sign before the digits of the number. -/
theorem fmtF_neg (neg : Bool) (d : List Char) (dp : Int) (prec : Nat) :
    fmtF neg d dp prec = (if neg then ['-'] else []) ++ fmtF false d dp prec := by
  simp [fmtF]

/-- Without its sign, `fmtF` writes digits of `d`, zeros and a dot. -/
theorem mem_fmtF {c : Char} {d : List Char} {dp : Int} {prec : Nat} (h : c ∈ fmtF false d dp prec) :
    c ∈ d ∨ c = '0' ∨ c = '.' := by
  simp only [fmtF, Bool.false_eq_true, if_false, List.nil_append, List.mem_append] at h
  rcases h with h | h
  · split at h
    · rcases List.mem_append.1 h with h | h
      · exact .inl (List.mem_of_mem_take h)
      · exact .inr (.inl (List.eq_of_mem_replicate h))
    · exact .inr (.inl (List.mem_singleton.1 h))
  · split at h
    · rcases List.mem_cons.1 h with h | h
      · exact .inr (.inr h)
      · obtain ⟨i, -, rfl⟩ := List.mem_map.1 h
        split
        · rw [List.getD_eq_getElem?_getD]
          rcases hget : d[(dp + i).toNat]? with _ | x
          · exact .inr (.inl rfl)
          · exact .inl (List.mem_of_getElem? hget)
        · exact .inr (.inl rfl)
    · simp at h

theorem shortestDecimal_digits (f : Float64) : ∀ c ∈ (shortestDecimal f).1, c.isDigit := by
  intro c hc
  unfold shortestDecimal at hc
  split at hc
  split at hc
  · simp at hc
  · split at hc
    · exact Nat.isDigit_of_mem_toDigits (by decide) (by decide) hc
    · simp at hc

/-- `FormatFloat(f, 'f', -1, 64)` is `NaN`, an infinity, or `fmtF` of decimal digits. -/
theorem formatFloat_cases (f : Float64) :
    formatFloat f = ['N', 'a', 'N'] ∨ formatFloat f = ['-', 'I', 'n', 'f'] ∨
      formatFloat f = ['+', 'I', 'n', 'f'] ∨
      ∃ d dp prec, (∀ c ∈ d, c.isDigit) ∧ formatFloat f = fmtF f.neg d dp prec := by
  unfold formatFloat
  split_ifs
  · exact .inl rfl
  · exact .inr (.inl rfl)
  · exact .inr (.inr (.inl rfl))
  · exact .inr (.inr (.inr ⟨_, _, _, shortestDecimal_digits f, rfl⟩))

/-! ## Parsing integers -/

/-- Why a `strconv` parse failed: `ErrSyntax` or `ErrRange`. -/
inductive NumErr
  | invalidSyntax
  | outOfRange
  deriving DecidableEq, Repr

/-- `*strconv.NumError`: the function, its input, and why it failed. -/
structure NumError where
  func : String
  num : List Char
  err : NumErr
  deriving DecidableEq, Repr

/-- `strconv.Quote(s)` for a string of printable characters: in double quotes, with `"` and `\`
escaped. -/
def quote (s : List Char) : String :=
  "\"" ++ String.ofList (s.flatMap fun c => if c = '"' ∨ c = '\\' then ['\\', c] else [c]) ++ "\""

/-- `(*NumError).Error()`. -/
def NumError.error (e : NumError) : String :=
  "strconv." ++ e.func ++ ": parsing " ++ quote e.num ++ ": " ++
    match e.err with
    | .invalidSyntax => "invalid syntax"
    | .outOfRange => "value out of range"

/-- The value of a digit in the bases up to 36: `0`..`9`, then the letters in either case. -/
def digitValue (c : Char) : Option Nat :=
  if '0' ≤ c ∧ c ≤ '9' then some (c.toNat - '0'.toNat)
  else
    -- lower(c): the byte with the bit 0x20 set
    let l := c.toNat ||| 0x20
    if 'a'.toNat ≤ l ∧ l ≤ 'z'.toNat then some (l - 'a'.toNat + 10) else none

/-- The digit loop of `ParseUint` over the rest of `s0`, from the value `n` read so far: it stops
at the first character that is no digit of the base, or at the first digit that takes the value
past `maxVal`. -/
def parseUintDigits (s0 : List Char) (base cutoff maxVal : Nat) : Nat → List Char → Nat × Option NumError
  | n, [] => (n, none)
  | n, c :: cs =>
    match digitValue c with
    | none => (0, some ⟨"ParseUint", s0, .invalidSyntax⟩)
    | some d =>
      if base ≤ d then (0, some ⟨"ParseUint", s0, .invalidSyntax⟩)
      -- `n * base` overflows 64 bits
      else if cutoff ≤ n then (maxVal, some ⟨"ParseUint", s0, .outOfRange⟩)
      else if maxVal < n * base + d then (maxVal, some ⟨"ParseUint", s0, .outOfRange⟩)
      else parseUintDigits s0 base cutoff maxVal (n * base + d) cs

/-- `strconv.ParseUint(s, base, bitSize)` for a base in `2..36` and a bit size in `1..64`. -/
def parseUint (s : List Char) (base bitSize : Nat) : Nat × Option NumError :=
  if s = [] then (0, some ⟨"ParseUint", s, .invalidSyntax⟩)
  else parseUintDigits s base ((2 ^ 64 - 1) / base + 1) (2 ^ bitSize - 1) 0 s

/-- `strconv.ParseInt(s, base, bitSize)` for a base in `2..36` and a bit size in `1..64`: the sign,
then `ParseUint` of the rest, whose range error is replaced by `ParseInt`'s own. -/
def parseInt (s : List Char) (base bitSize : Nat) : Int × Option NumError :=
  match s with
  | [] => (0, some ⟨"ParseInt", [], .invalidSyntax⟩)
  | c :: cs =>
    let (neg, t) := if c = '+' then (false, cs) else if c = '-' then (true, cs) else (false, c :: cs)
    let (un, err) := parseUint t base bitSize
    let cutoff := 2 ^ (bitSize - 1)
    let checked : Int × Option NumError :=
      if neg = false ∧ cutoff ≤ un then ((cutoff - 1 : Nat), some ⟨"ParseInt", c :: cs, .outOfRange⟩)
      else if neg = true ∧ cutoff < un then (-(cutoff : Int), some ⟨"ParseInt", c :: cs, .outOfRange⟩)
      else (if neg then -(un : Int) else un, none)
    match err with
    | some e => if e.err = .outOfRange then checked else (0, some ⟨"ParseInt", c :: cs, e.err⟩)
    | none => checked

example : parseUint ['6', '5', '5', '3', '5'] 10 16 = (65535, none) := by decide
example : parseUint ['6', '5', '5', '3', '6', 'x'] 10 16 =
    (65535, some ⟨"ParseUint", ['6', '5', '5', '3', '6', 'x'], .outOfRange⟩) := by decide
example : parseInt ['-', '1', '2'] 10 64 = (-12, none) := by decide

/-! ## Reading back decimal digits -/

theorem isDigit_bounds {c : Char} (hc : c.isDigit) : '0' ≤ c ∧ c ≤ '9' ∧ c.toNat - '0'.toNat < 10 := by
  simp only [Char.isDigit, Bool.and_eq_true, decide_eq_true_eq] at hc
  have h1 : '0' ≤ c := hc.1
  have h2 : c ≤ '9' := hc.2
  refine ⟨h1, h2, ?_⟩
  rw [Char.le_def, UInt32.le_iff_toNat_le] at h1 h2
  have e1 : ('0' : Char).val.toNat = 48 := rfl
  have e2 : ('9' : Char).val.toNat = 57 := rfl
  show c.val.toNat - 48 < 10
  omega

theorem digitValue_of_isDigit {c : Char} (h : c.isDigit) : digitValue c = some (c.toNat - '0'.toNat) := by
  have hb := isDigit_bounds h
  rw [digitValue, if_pos ⟨hb.1, hb.2.1⟩]

theorem le_ofDigitChars (ds : List Char) (n : Nat) : n ≤ Nat.ofDigitChars 10 ds n := by
  rw [Nat.ofDigitChars_eq_ofDigitChars_zero]
  have : n ≤ 10 ^ ds.length * n := Nat.le_mul_of_pos_left n (Nat.pow_pos (by decide))
  omega

/-- The digit loop reads decimal digits as their value while that value stays within `maxVal`,
below the cutoff of the overflow check. -/
theorem parseUintDigits_decimal {s0 : List Char} {cutoff maxVal : Nat} (hcut : maxVal < cutoff * 10) :
    ∀ (ds : List Char) (n : Nat), (∀ c ∈ ds, c.isDigit) → Nat.ofDigitChars 10 ds n ≤ maxVal →
      parseUintDigits s0 10 cutoff maxVal n ds = (Nat.ofDigitChars 10 ds n, none)
  | [], n, _, _ => by simp [parseUintDigits]
  | c :: cs, n, hd, hle => by
    have hc : c.isDigit := hd c List.mem_cons_self
    have hc10 : c.toNat - '0'.toNat < 10 := (isDigit_bounds hc).2.2
    rw [Nat.ofDigitChars_cons] at hle ⊢
    have hstep := le_ofDigitChars cs (10 * n + (c.toNat - '0'.toNat))
    simp only [parseUintDigits, digitValue_of_isDigit hc]
    rw [if_neg (by omega), if_neg (by omega), if_neg (by omega), Nat.mul_comm n 10]
    exact parseUintDigits_decimal hcut cs _ (fun c' h => hd c' (List.mem_cons_of_mem _ h)) hle

theorem parseUint_decimal {ds : List Char} {bitSize : Nat} (hb : bitSize ≤ 64) (hne : ds ≠ [])
    (hd : ∀ c ∈ ds, c.isDigit) (hlt : Nat.ofDigitChars 10 ds 0 < 2 ^ bitSize) :
    parseUint ds 10 bitSize = (Nat.ofDigitChars 10 ds 0, none) := by
  have hpow : 2 ^ bitSize ≤ 2 ^ 64 := Nat.pow_le_pow_right (by decide) hb
  rw [parseUint, if_neg hne]
  exact parseUintDigits_decimal (by omega) ds 0 hd (by omega)

/-- The digit loop stops with a range error at the first digit that takes the value past
`maxVal`. -/
theorem parseUintDigits_overflow {s0 : List Char} {cutoff maxVal : Nat} (hcut : maxVal < cutoff * 10) :
    ∀ (ds : List Char) (n : Nat), (∀ c ∈ ds, c.isDigit) → n ≤ maxVal →
      maxVal < Nat.ofDigitChars 10 ds n →
      parseUintDigits s0 10 cutoff maxVal n ds = (maxVal, some ⟨"ParseUint", s0, .outOfRange⟩)
  | [], n, _, hn, hgt => by simp [Nat.ofDigitChars_nil] at hgt; omega
  | c :: cs, n, hd, hn, hgt => by
    have hc : c.isDigit := hd c List.mem_cons_self
    have hc10 : c.toNat - '0'.toNat < 10 := (isDigit_bounds hc).2.2
    rw [Nat.ofDigitChars_cons] at hgt
    simp only [parseUintDigits, digitValue_of_isDigit hc]
    rw [if_neg (by omega)]
    -- the overflow check and the range check give the same error
    by_cases hcn : cutoff ≤ n
    · rw [if_pos hcn]
    by_cases hover : maxVal < n * 10 + (c.toNat - '0'.toNat)
    · rw [if_neg hcn, if_pos hover]
    rw [if_neg hcn, if_neg hover, Nat.mul_comm n 10] at *
    exact parseUintDigits_overflow hcut cs _ (fun c' h => hd c' (List.mem_cons_of_mem _ h)) (by omega) hgt

theorem parseUint_overflow {ds : List Char} {bitSize : Nat} (hb : bitSize ≤ 64) (hne : ds ≠ [])
    (hd : ∀ c ∈ ds, c.isDigit) (hge : 2 ^ bitSize ≤ Nat.ofDigitChars 10 ds 0) :
    parseUint ds 10 bitSize = (2 ^ bitSize - 1, some ⟨"ParseUint", ds, .outOfRange⟩) := by
  have hpow : 2 ^ bitSize ≤ 2 ^ 64 := Nat.pow_le_pow_right (by decide) hb
  have hpos : 0 < 2 ^ bitSize := Nat.pow_pos (by decide)
  rw [parseUint, if_neg hne]
  exact parseUintDigits_overflow (by omega) ds 0 hd (Nat.zero_le _) (by omega)

/-- Decimal digits without a sign read back as their value, below `2 ^ (bitSize - 1)`. -/
theorem parseInt_decimal {ds : List Char} {bitSize : Nat} (hb : 1 ≤ bitSize ∧ bitSize ≤ 64)
    (hne : ds ≠ []) (hd : ∀ c ∈ ds, c.isDigit) (hlt : Nat.ofDigitChars 10 ds 0 < 2 ^ (bitSize - 1)) :
    parseInt ds 10 bitSize = ((Nat.ofDigitChars 10 ds 0 : Int), none) := by
  obtain ⟨c, cs, rfl⟩ := List.exists_cons_of_ne_nil hne
  have hc : c.isDigit := hd c List.mem_cons_self
  have hplus : c ≠ '+' := by rintro rfl; exact absurd hc (by decide)
  have hminus : c ≠ '-' := by rintro rfl; exact absurd hc (by decide)
  have hpow : 2 ^ (bitSize - 1) ≤ 2 ^ bitSize := Nat.pow_le_pow_right (by decide) (by omega)
  have hu : parseUint (c :: cs) 10 bitSize = (Nat.ofDigitChars 10 (c :: cs) 0, none) :=
    parseUint_decimal hb.2 hne hd (by omega)
  simp only [parseInt, if_neg hplus, if_neg hminus]
  simp [hu, Nat.not_le.mpr hlt]

/-- Decimal digits without a sign from `2 ^ (bitSize - 1)` on are out of range. -/
theorem parseInt_outOfRange {ds : List Char} {bitSize : Nat} (hb : 1 ≤ bitSize ∧ bitSize ≤ 64)
    (hne : ds ≠ []) (hd : ∀ c ∈ ds, c.isDigit) (hge : 2 ^ (bitSize - 1) ≤ Nat.ofDigitChars 10 ds 0) :
    parseInt ds 10 bitSize = (((2 ^ (bitSize - 1) - 1 : Nat) : Int), some ⟨"ParseInt", ds, .outOfRange⟩) := by
  obtain ⟨c, cs, rfl⟩ := List.exists_cons_of_ne_nil hne
  have hc : c.isDigit := hd c List.mem_cons_self
  have hplus : c ≠ '+' := by rintro rfl; exact absurd hc (by decide)
  have hminus : c ≠ '-' := by rintro rfl; exact absurd hc (by decide)
  have hpow : 2 * 2 ^ (bitSize - 1) = 2 ^ bitSize := by
    rw [← Nat.pow_succ', Nat.succ_eq_add_one, Nat.sub_add_cancel hb.1]
  simp only [parseInt, if_neg hplus, if_neg hminus]
  -- past `2 ^ bitSize` `ParseUint` fails too, with a range error that `ParseInt` replaces
  by_cases hlt : Nat.ofDigitChars 10 (c :: cs) 0 < 2 ^ bitSize
  · simp [parseUint_decimal hb.2 hne hd hlt, hge]
  · simp [parseUint_overflow hb.2 hne hd (by omega), show 2 ^ (bitSize - 1) ≤ 2 ^ bitSize - 1 by omega]

/-- A minus sign and decimal digits read back as the negated value, down to `-2 ^ 63`. -/
theorem parseInt_neg_decimal {ds : List Char} (hne : ds ≠ []) (hd : ∀ c ∈ ds, c.isDigit)
    (hle : Nat.ofDigitChars 10 ds 0 ≤ 2 ^ 63) :
    parseInt ('-' :: ds) 10 64 = (-(Nat.ofDigitChars 10 ds 0 : Int), none) := by
  have hu : parseUint ds 10 64 = (Nat.ofDigitChars 10 ds 0, none) :=
    parseUint_decimal (le_refl 64) hne hd (by omega)
  have h63 : Nat.ofDigitChars 10 ds 0 ≤ 9223372036854775808 := hle
  simp only [parseInt]
  simp [hu, Nat.not_lt.mpr h63]

/-- A minus sign and decimal digits read back as the negated value, down to `-2 ^ (bitSize - 1)`. -/
theorem parseInt_neg_decimal_of_le {ds : List Char} {bitSize : Nat} (hb : 1 ≤ bitSize ∧ bitSize ≤ 64)
    (hne : ds ≠ []) (hd : ∀ c ∈ ds, c.isDigit) (hle : Nat.ofDigitChars 10 ds 0 ≤ 2 ^ (bitSize - 1)) :
    parseInt ('-' :: ds) 10 bitSize = (-(Nat.ofDigitChars 10 ds 0 : Int), none) := by
  have hpow : 2 ^ (bitSize - 1) < 2 ^ bitSize := Nat.pow_lt_pow_right (by decide) (by omega)
  have hu : parseUint ds 10 bitSize = (Nat.ofDigitChars 10 ds 0, none) :=
    parseUint_decimal hb.2 hne hd (by omega)
  simp only [parseInt]
  simp [hu, Nat.not_lt.mpr hle]

/-- `ParseInt` in `bitSize` bits reads back what `FormatInt` writes, for every number in range. -/
theorem parseInt_formatInt {bitSize : Nat} (hb : 1 ≤ bitSize ∧ bitSize ≤ 64) {n : Int}
    (h1 : -2 ^ (bitSize - 1) ≤ n) (h2 : n < 2 ^ (bitSize - 1)) :
    parseInt (formatInt n) 10 bitSize = (n, none) := by
  have hdig : ∀ c ∈ Nat.toDigits 10 n.natAbs, c.isDigit := fun c h =>
    Nat.isDigit_of_mem_toDigits (by decide) (by decide) h
  have hval : Nat.ofDigitChars 10 (Nat.toDigits 10 n.natAbs) 0 = n.natAbs := Nat.ofDigitChars_ten_toDigits
  have hcast : ((2 ^ (bitSize - 1) : Nat) : Int) = (2 : Int) ^ (bitSize - 1) := by norm_num
  by_cases hn : n < 0
  · have h := parseInt_neg_decimal_of_le hb (Nat.toDigits_ne_nil) hdig (by rw [hval]; omega)
    rw [hval] at h
    simpa [formatInt, hn, abs_of_neg hn] using h
  · have h := parseInt_decimal hb (Nat.toDigits_ne_nil) hdig (by rw [hval]; omega)
    rw [hval] at h
    simpa [formatInt, hn, abs_of_nonneg (Int.not_lt.mp hn)] using h

/-- What `FormatInt` writes is digits, after a minus sign for a negative number. -/
theorem mem_formatInt {n : Int} {c : Char} (h : c ∈ formatInt n) : c.isDigit ∨ c = '-' := by
  unfold formatInt at h
  rcases List.mem_append.mp h with h | h
  · split at h <;> simp_all
  · exact .inl (Nat.isDigit_of_mem_toDigits (by decide) (by decide) h)

end Go.Strconv

namespace Go.Fmt

open Strconv

/-- `fmt.Sprintf("%0wd", n)`: the sign, then the decimal digits of `|n|`, padded with zeros so that
with the sign they fill `w` characters. -/
def padInt (w : Nat) (n : Int) : List Char :=
  let sign := if n < 0 then ['-'] else []
  let ds := Nat.toDigits 10 n.natAbs
  sign ++ List.replicate (w - sign.length - ds.length) '0' ++ ds

example : padInt 2 5 = ['0', '5'] := by decide
example : padInt 6 (-775808) = ['-', '7', '7', '5', '8', '0', '8'] := by decide

/-- The digits of `padInt`, after its sign. -/
theorem padDigits_isDigit (k n : Nat) : ∀ c ∈ List.replicate k '0' ++ Nat.toDigits 10 n, c.isDigit := by
  intro c hc
  rcases List.mem_append.mp hc with h | h
  · rw [List.eq_of_mem_replicate h]
    decide
  · exact Nat.isDigit_of_mem_toDigits (by decide) (by decide) h

theorem ofDigitChars_padDigits (k n : Nat) :
    Nat.ofDigitChars 10 (List.replicate k '0' ++ Nat.toDigits 10 n) 0 = n := by
  rw [Nat.ofDigitChars_append, Nat.ofDigitChars_replicate_zero, Nat.mul_zero, Nat.ofDigitChars_ten_toDigits]

theorem padDigits_ne_nil (k n : Nat) : List.replicate k '0' ++ Nat.toDigits 10 n ≠ [] := by
  simp [Nat.toDigits_ne_nil]

/-- `ParseInt` reads back what `%0wd` writes, for every `int64`. -/
theorem parseInt_padInt (w : Nat) {n : Int} (h1 : -2 ^ 63 ≤ n) (h2 : n < 2 ^ 63) :
    parseInt (padInt w n) 10 64 = (n, none) := by
  by_cases hn : n < 0
  · have h := parseInt_neg_decimal (padDigits_ne_nil (w - 1 - (Nat.toDigits 10 n.natAbs).length) n.natAbs)
      (padDigits_isDigit _ _) (by rw [ofDigitChars_padDigits]; omega)
    rw [ofDigitChars_padDigits] at h
    simpa [padInt, hn, abs_of_neg hn] using h
  · have h := parseInt_decimal (by decide : 1 ≤ 64 ∧ 64 ≤ 64)
      (padDigits_ne_nil (w - (Nat.toDigits 10 n.natAbs).length) n.natAbs)
      (padDigits_isDigit _ _) (by rw [ofDigitChars_padDigits]; omega)
    rw [ofDigitChars_padDigits] at h
    simpa [padInt, hn, abs_of_nonneg (Int.not_lt.mp hn)] using h

theorem length_padInt (w : Nat) (n : Int) : w ≤ (padInt w n).length := by
  simp only [padInt, List.length_append, List.length_replicate]
  split <;> simp <;> omega

/-- What `%0wd` writes is digits, after a minus sign for a negative number. -/
theorem mem_padInt {w : Nat} {n : Int} {c : Char} (h : c ∈ padInt w n) : c.isDigit ∨ c = '-' := by
  simp only [padInt, List.append_assoc] at h
  rcases List.mem_append.mp h with h | h
  · split at h <;> simp_all
  · exact .inl (padDigits_isDigit _ _ c h)

theorem not_mem_padInt {w : Nat} {n : Int} {c : Char} (hd : c.isDigit = false) (hm : c ≠ '-') :
    c ∉ padInt w n := fun h => by
  rcases mem_padInt h with h | h
  · rw [hd] at h
    exact Bool.false_ne_true h
  · exact hm h

/-- For a number that is not negative, `%0wd` writes digits only. -/
theorem padInt_of_nonneg (w : Nat) {n : Int} (h : 0 ≤ n) :
    padInt w n = List.replicate (w - (Nat.toDigits 10 n.natAbs).length) '0' ++ Nat.toDigits 10 n.natAbs := by
  simp [padInt, Int.not_lt.mpr h]

/-- `FormatInt` writes what `%0d` writes: no padding. -/
theorem formatInt_eq_padInt (n : Int) : formatInt n = padInt 0 n := by
  simp [formatInt, padInt]

/-- What `%0wd` writes for a number that is not negative starts with a digit. -/
theorem padInt_cons_of_nonneg (w : Nat) {n : Int} (h : 0 ≤ n) : ∃ c cs, padInt w n = c :: cs ∧ c ≠ '-' := by
  obtain ⟨c, cs, hcs⟩ := List.exists_cons_of_ne_nil (padDigits_ne_nil (w - (Nat.toDigits 10 n.natAbs).length) n.natAbs)
  have hc : c.isDigit := padDigits_isDigit _ _ c (hcs ▸ List.mem_cons_self)
  refine ⟨c, cs, by rw [padInt_of_nonneg w h, hcs], ?_⟩
  rintro rfl
  exact absurd hc (by decide)

end Go.Fmt
