import Pgx.Go.Strconv
import Pgx.Go.Binary

/-!
# `pgtype.Numeric` in the text format

`encodeNumericText` writes a finite `Numeric` by `numberTextBytes`: the digits of `Int`, with
`Exp` zeros after them when `Exp` is positive, and a decimal point `-Exp` digits from the end when
it is negative (with `0.` and leading zeros when there are not that many digits).
`scanPlanTextAnyToNumericScanner` reads it back by `parseNumericString`: a text with a point has
the exponent `-(digits after the point)`, and a text without one has its trailing zeros cut off,
one `exp++` of the `int32` exponent for each.

The value `Int * 10^Exp` comes back, and a negative `Exp` itself, as long as fewer than `2^31`
zeros are cut off (`numeric_text_roundTrip`). Past that the `int32` counter wraps: the text of
`Numeric{Int: 10, Exp: 2147483647}` is read back as `Numeric{Int: 1, Exp: -2147483648}`
(`numeric_text_expWraps`).

Go strings are lists of characters; every text here is ASCII, so its bytes are its characters.
-/

namespace Pgx.Pgtype

open Go Go.Strconv

/-- `InfinityModifier`, an `int8`. -/
structure InfinityModifier where
  val : Int8
  deriving DecidableEq, Repr

namespace InfinityModifier

/-- `Infinity`. -/
def infinity : InfinityModifier := ⟨1⟩

/-- `Finite`. -/
def finite : InfinityModifier := ⟨0⟩

/-- `NegativeInfinity`. -/
def negativeInfinity : InfinityModifier := ⟨-1⟩

end InfinityModifier

/-- `Numeric`: the `*big.Int` is `none` when nil. -/
structure Numeric where
  int : Option Int
  exp : Int32
  nan : Bool
  infinityModifier : InfinityModifier
  valid : Bool
  deriving DecidableEq

/-- `(*big.Int).String()`: the decimal text, and `<nil>` for a nil pointer. -/
def bigIntString : Option Int → List Char
  | none => ['<', 'n', 'i', 'l', '>']
  | some i => formatInt i

/-- The sign `numberTextBytes` takes off the front of the digits, to write it first. -/
def splitSign : List Char → List Char × List Char
  | '-' :: rest => (['-'], rest)
  | intStr => ([], intStr)

/-- The digits after the sign as `numberTextBytes` lays them out for the exponent `exp`: zeros after
them, or a decimal point `-exp` digits from the end, with `0.` and leading zeros when there are not
that many digits. -/
def placePoint (intStr : List Char) (exp : Int) : List Char :=
  if 0 < exp then intStr ++ List.replicate exp.toNat '0'
  else if exp < 0 then
    if (intStr.length : Int) ≤ -exp then
      let leadingZeros := (-exp).toNat - intStr.length
      ['0', '.'] ++ List.replicate leadingZeros '0' ++ intStr
    else
      let dpPos := (intStr.length + exp).toNat
      intStr.take dpPos ++ ['.'] ++ intStr.drop dpPos
  else intStr

/-- `Numeric.numberTextBytes`: the sign, then the digits laid out for the exponent. -/
def Numeric.numberTextBytes (n : Numeric) : List Char :=
  let (sign, intStr) := splitSign (bigIntString n.int)
  sign ++ placePoint intStr n.exp.toInt

/-- `encodeNumericText`: `nil` for an invalid `Numeric`. -/
def encodeNumericText (n : Numeric) (buf : List Char) : Option (List Char) :=
  if !n.valid then none
  else if n.nan then some (buf ++ ['N', 'a', 'N'])
  else if n.infinityModifier = .infinity then some (buf ++ "Infinity".toList)
  else if n.infinityModifier = .negativeInfinity then some (buf ++ "-Infinity".toList)
  else some (buf ++ n.numberTextBytes)

/-- `scanSign` of `big.Int`: an optional `+` or `-`. -/
def scanSign : List Char → Bool × List Char
  | '-' :: ds => (true, ds)
  | '+' :: ds => (false, ds)
  | ds => (false, ds)

/-- `(*big.Int).SetString(s, 10)`: an optional sign, then one decimal digit or more. -/
def setString (s : List Char) : Option Int :=
  let (neg, ds) := scanSign s
  if ds ≠ [] ∧ ∀ c ∈ ds, c.isDigit then
    let v : Int := Nat.ofDigitChars 10 ds 0
    some (if neg then -v else v)
  else none

/-- The loop of `parseNumericString` over a text without a point: a trailing zero is cut off while
the text is longer than one byte and the zero does not follow a `-`, and each one cut adds one to
the `int32` exponent. -/
def trimZeros (str : List Char) (exp : Int32) : List Char × Int32 :=
  if 1 < str.length ∧ str[str.length - 1]? = some '0' ∧ str[str.length - 2]? ≠ some '-' then
    trimZeros (str.take (str.length - 1)) (exp + 1)
  else (str, exp)
termination_by str.length
decreasing_by simp only [List.length_take]; omega

/-- `parseNumericString`: the exponent of a text with a point is `-(digits after it)`, through
`int32`, and the point is taken out. -/
def parseNumericString (str : List Char) : GoM (Int × Int32) :=
  let (str, exp) := match str.idxOf? '.' with
    | none => trimZeros str 0
    | some idx => (str.take idx ++ str.drop (idx + 1), Int32.ofInt (-((str.length : Int) - idx - 1)))
  match setString str with
  | some n => .ok (n, exp)
  | none => .error (.error (String.ofList str ++ " is not a number"))

/-- `scanPlanTextAnyToNumericScanner.Scan`: the `Numeric` it stores in the target. -/
def scanPlanTextAnyToNumericScanner (src : Option (List Char)) : GoM Numeric :=
  match src with
  | none => .ok ⟨none, 0, false, .finite, false⟩
  | some src =>
    if src = ['N', 'a', 'N'] then .ok ⟨none, 0, true, .finite, true⟩
    else if src = "Infinity".toList then .ok ⟨none, 0, false, .infinity, true⟩
    else if src = "-Infinity".toList then .ok ⟨none, 0, false, .negativeInfinity, true⟩
    else do
      let (num, exp) ← parseNumericString src
      return ⟨some num, exp, false, .finite, true⟩

/-- The value `Int * 10^Exp` of a `Numeric` whose `Int` is not nil. -/
def Numeric.value (n : Numeric) : Option ℚ := n.int.map fun (i : Int) => (i : ℚ) * 10 ^ n.exp.toInt

/-! ## The loop that cuts off trailing zeros -/

/-- One pass: a zero after a byte that is not `-` is cut off. -/
theorem trimZeros_snoc_zero {s : List Char} (hs : s ≠ []) (hl : s.getLast? ≠ some '-') (exp : Int32) :
    trimZeros (s ++ ['0']) exp = trimZeros s (exp + 1) := by
  have hlen : 0 < s.length := List.length_pos_iff.mpr hs
  have hsecond : (s ++ ['0'])[(s ++ ['0']).length - 2]? = s.getLast? := by
    rw [List.getLast?_eq_getElem?, List.getElem?_append_left (by simp; omega)]
    simp
  rw [trimZeros, if_pos ⟨by simp; omega, by simp, by rw [hsecond]; exact hl⟩]
  simp

/-- **Run.** Zeros after a byte that is not `-` are all cut off, each counted in the exponent. -/
theorem trimZeros_append_zeros {s : List Char} (hs : s ≠ []) (hl : s.getLast? ≠ some '-') :
    ∀ (k : Nat) (exp : Int32), trimZeros (s ++ List.replicate k '0') exp = trimZeros s (exp + Int32.ofNat k)
  | 0, exp => by simp
  | k + 1, exp => by
    have hne : s ++ List.replicate k '0' ≠ [] := by simp [hs]
    -- the byte before the last zero is the last of `s`, or a zero
    have hlast : (s ++ List.replicate k '0').getLast? ≠ some '-' := by
      cases k with
      | zero => simpa using hl
      | succ k => simp [List.getLast?_append, List.replicate_succ']
    rw [List.replicate_succ', ← List.append_assoc, trimZeros_snoc_zero hne hlast,
      trimZeros_append_zeros hs hl k, Int32.ofNat_add, Int32.add_assoc, Int32.add_comm 1]
    rfl

/-- The loop stops at once when it cannot cut. -/
theorem trimZeros_of_not_cut {s : List Char}
    (h : ¬(1 < s.length ∧ s[s.length - 1]? = some '0' ∧ s[s.length - 2]? ≠ some '-')) (exp : Int32) :
    trimZeros s exp = (s, exp) := by
  rw [trimZeros, if_neg h]

/-- What the loop leaves: the text less `k` trailing zeros, with `k` added to the exponent; and
what it cut, it cut after a byte that is not `-`. -/
theorem trimZeros_spec (str : List Char) (exp : Int32) :
    ∃ k, str = (trimZeros str exp).1 ++ List.replicate k '0' ∧ (trimZeros str exp).2 = exp + Int32.ofNat k ∧
      (k = 0 ∨ ∃ c, (trimZeros str exp).1.getLast? = some c ∧ c ≠ '-') := by
  fun_induction trimZeros str exp with
  | case1 str exp hcut ih =>
    generalize trimZeros (str.take (str.length - 1)) (exp + 1) = r at ih ⊢
    obtain ⟨k, hk, he, hc⟩ := ih
    obtain ⟨hlen, hz, hm⟩ := hcut
    -- the text is what is left before the cut zero, and the zero
    have hsplit : str = str.take (str.length - 1) ++ ['0'] := by
      have hne : str ≠ [] := List.ne_nil_of_length_pos (by omega)
      conv_lhs => rw [← List.take_append_drop (str.length - 1) str]
      rw [List.drop_length_sub_one hne, List.getLast_eq_getElem]
      simp only [List.getElem?_eq_some_iff] at hz
      obtain ⟨_, hz⟩ := hz
      rw [hz]
    refine ⟨k + 1, ?_, ?_, .inr ?_⟩
    · rw [hsplit, hk, List.replicate_succ', List.append_assoc]
    · rw [he, Int32.ofNat_add, Int32.add_assoc, Int32.add_comm 1]
      rfl
    · rcases hc with rfl | hc
      · -- nothing cut later: the last byte left is the one before the cut zero
        simp only [List.replicate_zero, List.append_nil] at hk
        obtain ⟨c, hc2⟩ : ∃ c, str[str.length - 2]? = some c := ⟨_, List.getElem?_eq_getElem (by omega)⟩
        refine ⟨c, ?_, fun h => hm (by rw [hc2, h])⟩
        rw [← hk, List.getLast?_eq_getElem?, List.length_take, List.getElem?_take, if_pos (by omega),
          show min (str.length - 1) str.length - 1 = str.length - 2 by omega, hc2]
      · exact hc
  | case2 str exp _ => exact ⟨0, by simp, by simp, .inl rfl⟩

/-! ## Parsing -/

/-- A text without a point: its trailing zeros are cut off and counted in the exponent. -/
theorem parseNumericString_of_no_point {str : List Char} (h : '.' ∉ str) {v : Int}
    (hv : setString (trimZeros str 0).1 = some v) :
    parseNumericString str = .ok (v, (trimZeros str 0).2) := by
  have hidx : str.idxOf? '.' = none := List.idxOf?_eq_none_iff.mpr h
  rcases htz : trimZeros str 0 with ⟨s', e'⟩
  rw [htz] at hv
  unfold parseNumericString
  simp only [hidx, htz, hv]

/-- The point is found where it first stands. -/
theorem idxOf?_point {a b : List Char} (h : '.' ∉ a) : (a ++ '.' :: b).idxOf? '.' = some a.length := by
  induction a with
  | nil => simp [List.idxOf?_cons]
  | cons x a ih =>
    simp only [List.mem_cons, not_or] at h
    simp [List.idxOf?_cons, ih h.2, Ne.symm h.1]

/-- A text with a point: the exponent is minus the number of bytes after it, and the point is
taken out. -/
theorem parseNumericString_point {a b : List Char} (h : '.' ∉ a) {v : Int} (hv : setString (a ++ b) = some v) :
    parseNumericString (a ++ '.' :: b) = .ok (v, Int32.ofInt (-(b.length : Int))) := by
  unfold parseNumericString
  simp only [idxOf?_point h, List.take_left, List.length_append, List.length_cons]
  rw [show (a ++ '.' :: b).drop (a.length + 1) = b by simp, hv]
  simp only [Except.ok.injEq, Prod.mk.injEq, true_and]
  congr 2
  push_cast
  omega

/-! ## Reading the digits back -/

theorem scanSign_of_head {c : Char} (hm : c ≠ '-') (hp : c ≠ '+') (r : List Char) :
    scanSign (c :: r) = (false, c :: r) := by
  unfold scanSign
  split
  · rename_i h
    exact absurd (List.cons.inj h).1 hm
  · rename_i h
    exact absurd (List.cons.inj h).1 hp
  · rfl

/-- A sign is read off a text the same whatever follows it. -/
theorem scanSign_append {s : List Char} (hs : s ≠ []) (t : List Char) :
    scanSign (s ++ t) = ((scanSign s).1, (scanSign s).2 ++ t) := by
  obtain ⟨c, r, rfl⟩ := List.exists_cons_of_ne_nil hs
  by_cases hm : c = '-'
  · subst hm
    rfl
  · by_cases hp : c = '+'
    · subst hp
      rfl
    · rw [List.cons_append, scanSign_of_head hm hp, scanSign_of_head hm hp]
      rfl

/-- Zeros after the digits multiply the value. -/
theorem setString_append_zeros {s : List Char} (hs : s ≠ []) (hd : (scanSign s).2 ≠ []) (k : Nat) :
    setString (s ++ List.replicate k '0') = (setString s).map (· * 10 ^ k) := by
  unfold setString
  rw [scanSign_append hs]
  rcases hsign : scanSign s with ⟨neg, ds⟩
  rw [hsign] at hd
  simp only at hd ⊢
  have hzeros : ∀ c ∈ List.replicate k '0', c.isDigit := by
    intro c hc
    rw [List.eq_of_mem_replicate hc]
    rfl
  by_cases hdig : ∀ c ∈ ds, c.isDigit
  · have hdig' : ∀ c ∈ ds ++ List.replicate k '0', c.isDigit := by
      intro c hc
      rcases List.mem_append.mp hc with hc | hc
      · exact hdig c hc
      · exact hzeros c hc
    have hc1 : ds ++ List.replicate k '0' ≠ [] ∧ ∀ c ∈ ds ++ List.replicate k '0', c.isDigit :=
      ⟨by simp [hd], hdig'⟩
    have hc2 : ds ≠ [] ∧ ∀ c ∈ ds, c.isDigit := ⟨hd, hdig⟩
    rw [if_pos hc1, if_pos hc2, Nat.ofDigitChars_append, Nat.ofDigitChars_eq_ofDigitChars_zero,
      Nat.ofDigitChars_replicate_zero]
    cases neg <;> simp [mul_comm]
  · have hdig' : ¬∀ c ∈ ds ++ List.replicate k '0', c.isDigit := fun h' =>
      hdig fun c hc => h' c (List.mem_append_left _ hc)
    rw [if_neg (fun h => hdig' h.2), if_neg (fun h => hdig h.2)]
    rfl

theorem ne_of_isDigit {c d : Char} (hc : c.isDigit) (hd : d.isDigit = false) : c ≠ d := by
  rintro rfl
  rw [hc] at hd
  cases hd

/-- The first digit of a number's decimal text. -/
theorem toDigits_head (m : Nat) : ∃ c r, Nat.toDigits 10 m = c :: r ∧ c.isDigit := by
  obtain ⟨c, r, h⟩ := List.exists_cons_of_ne_nil (Nat.toDigits_ne_nil (n := m) (b := 10))
  exact ⟨c, r, h, Nat.isDigit_of_mem_toDigits (by norm_num) (by norm_num) (h ▸ List.mem_cons_self ..)⟩

theorem scanSign_snd_ne_nil {s : List Char} (h1 : s ≠ []) (h2 : s ≠ ['-']) (h3 : s ≠ ['+']) :
    (scanSign s).2 ≠ [] := by
  obtain ⟨c, r, rfl⟩ := List.exists_cons_of_ne_nil h1
  by_cases hm : c = '-'
  · subst hm
    rintro (rfl : r = [])
    exact h2 rfl
  · by_cases hp : c = '+'
    · subst hp
      rintro (rfl : r = [])
      exact h3 rfl
    · rw [scanSign_of_head hm hp]
      exact List.cons_ne_nil _ _

/-- The sign of a number, then decimal digits of its absolute value, read back. -/
theorem setString_sign_digits (i : Int) {dd : List Char} (hne : dd ≠ []) (hd : ∀ c ∈ dd, c.isDigit)
    (hv : Nat.ofDigitChars 10 dd 0 = i.natAbs) : setString ((if i < 0 then ['-'] else []) ++ dd) = some i := by
  by_cases hneg : i < 0
  · simp only [setString, hneg, if_true, List.singleton_append, scanSign]
    rw [if_pos ⟨hne, hd⟩, hv]
    simp only [Option.some.injEq]
    omega
  · obtain ⟨c, r, rfl⟩ := List.exists_cons_of_ne_nil hne
    have hc := hd c (List.mem_cons_self ..)
    simp only [setString, hneg, if_false, List.nil_append,
      scanSign_of_head (ne_of_isDigit hc (by decide)) (ne_of_isDigit hc (by decide))]
    rw [if_pos ⟨hne, hd⟩, hv]
    simp only [Bool.false_eq_true, if_false, Option.some.injEq]
    omega

theorem setString_formatInt (i : Int) : setString (formatInt i) = some i :=
  setString_sign_digits i Nat.toDigits_ne_nil (fun _ => Nat.isDigit_of_mem_toDigits (by norm_num) (by norm_num))
    Nat.ofDigitChars_ten_toDigits

theorem splitSign_formatInt (i : Int) :
    splitSign (formatInt i) = (if i < 0 then ['-'] else [], Nat.toDigits 10 i.natAbs) := by
  by_cases hneg : i < 0
  · simp [formatInt, hneg, splitSign]
  · obtain ⟨c, r, hcr, hc⟩ := toDigits_head i.natAbs
    simp only [formatInt, hneg, if_false, List.nil_append, hcr]
    unfold splitSign
    split
    · rename_i h
      exact absurd (List.cons.inj h).1 (ne_of_isDigit hc (by decide))
    · rfl

/-- The text of a `Numeric` whose `Int` is not nil: the sign, then its digits laid out. -/
theorem numberTextBytes_of_int {n : Numeric} {i : Int} (hi : n.int = some i) :
    n.numberTextBytes = (if i < 0 then ['-'] else []) ++ placePoint (Nat.toDigits 10 i.natAbs) n.exp.toInt := by
  simp only [Numeric.numberTextBytes, hi, bigIntString, splitSign_formatInt]

/-- A finite `Numeric` is written as its number. -/
theorem encodeNumericText_finite {n : Numeric} (hv : n.valid = true) (hnan : n.nan = false)
    (hinf : n.infinityModifier ≠ .infinity) (hninf : n.infinityModifier ≠ .negativeInfinity) (buf : List Char) :
    encodeNumericText n buf = some (buf ++ n.numberTextBytes) := by
  simp [encodeNumericText, hv, hnan, hinf, hninf]

/-- What is neither `NaN` nor an infinity is parsed as a number. -/
theorem scan_of_parse {sign : List Char} (hsign : sign = [] ∨ sign = ['-']) {c : Char} (hc : c.isDigit)
    {r : List Char} {v : Int} {x : Int32} (h : parseNumericString (sign ++ c :: r) = .ok (v, x)) :
    scanPlanTextAnyToNumericScanner (some (sign ++ c :: r)) = .ok ⟨some v, x, false, .finite, true⟩ := by
  have hN := ne_of_isDigit hc (d := 'N') (by decide)
  have hI := ne_of_isDigit hc (d := 'I') (by decide)
  have hm := ne_of_isDigit hc (d := '-') (by decide)
  have hnot : sign ++ c :: r ≠ ['N', 'a', 'N'] ∧ sign ++ c :: r ≠ "Infinity".toList ∧
      sign ++ c :: r ≠ "-Infinity".toList := by
    rcases hsign with rfl | rfl <;>
      simp [hN, hI, hm, show "Infinity".toList = 'I' :: "nfinity".toList from rfl,
        show "-Infinity".toList = '-' :: 'I' :: "nfinity".toList from rfl]
  rw [scanPlanTextAnyToNumericScanner, if_neg hnot.1, if_neg hnot.2.1, if_neg hnot.2.2, h]
  rfl

/-! ## The text read back -/

section PlacePoint

variable (ds : List Char) {exp : Int}

theorem placePoint_of_nonneg (h : 0 ≤ exp) : placePoint ds exp = ds ++ List.replicate exp.toNat '0' := by
  rcases h.lt_or_eq with h | rfl
  · rw [placePoint, if_pos h]
  · simp [placePoint]

theorem placePoint_of_short (h : exp < 0) (hl : (ds.length : Int) ≤ -exp) :
    placePoint ds exp = ['0'] ++ '.' :: (List.replicate ((-exp).toNat - ds.length) '0' ++ ds) := by
  rw [placePoint, if_neg (by omega), if_pos h, if_pos hl]
  simp

theorem placePoint_of_long (h : exp < 0) (hl : -exp < (ds.length : Int)) :
    placePoint ds exp =
      ds.take (ds.length + exp).toNat ++ '.' :: ds.drop (ds.length + exp).toNat := by
  rw [placePoint, if_neg (by omega), if_pos h, if_neg (by omega)]
  simp

end PlacePoint

/-- The digits of a number with zeros after them: no point, and no `-` before the first zero. -/
theorem trimZeros_digits (i : Int) (m : Nat) :
    trimZeros ((if i < 0 then ['-'] else []) ++ Nat.toDigits 10 i.natAbs ++ List.replicate m '0') 0 =
      trimZeros (formatInt i) (0 + Int32.ofNat m) := by
  obtain ⟨c, r, hcr, hc⟩ := toDigits_head i.natAbs
  have hlast : (formatInt i).getLast? ≠ some '-' := by
    intro h
    have hmem : '-' ∈ Nat.toDigits 10 i.natAbs := by
      rw [formatInt, List.getLast?_append_of_ne_nil _ Nat.toDigits_ne_nil] at h
      exact List.mem_of_getLast? h
    exact absurd (Nat.isDigit_of_mem_toDigits (by norm_num) (by norm_num) hmem) (by decide)
  exact trimZeros_append_zeros (by simp [formatInt, hcr]) hlast m 0

/-- **Without a point.** A number's text with `m` zeros after it is read back as `v` with the
exponent `m + k`, where `v` is the number less its `k` trailing zeros; when the text is at most
`2^31` bytes, the count does not wrap. -/
theorem parse_nonneg (i : Int) (m : Nat) (hfit : m + (formatInt i).length ≤ 2 ^ 31) :
    ∃ v k, parseNumericString ((if i < 0 then ['-'] else []) ++ (Nat.toDigits 10 i.natAbs ++ List.replicate m '0')) =
      .ok (v, Int32.ofNat (m + k)) ∧ v * 10 ^ k = i ∧ m + k < 2 ^ 31 := by
  obtain ⟨k, hk, he, hc⟩ := trimZeros_spec (formatInt i) (0 + Int32.ofNat m)
  generalize hs' : (trimZeros (formatInt i) (0 + Int32.ofNat m)).1 = s' at hk hc
  -- what is left keeps a digit after its sign
  have hne : s' ≠ [] := by
    rcases hc with rfl | ⟨c, hc, -⟩
    · rintro rfl
      simp [formatInt] at hk
    · rintro rfl
      cases hc
  have hnotm : s' ≠ ['-'] := by
    rintro rfl
    rcases hc with rfl | ⟨c, hc, hcm⟩
    · obtain ⟨c, r, hcr, hcd⟩ := toDigits_head i.natAbs
      by_cases hneg : i < 0 <;> simp [formatInt, hneg, hcr] at hk
      exact absurd hk.1 (ne_of_isDigit hcd (by decide))
    · simp at hc
      exact hcm hc.symm
  have hnotp : s' ≠ ['+'] := by
    rintro rfl
    have hmem : '+' ∈ formatInt i := by rw [hk]; simp
    simp only [formatInt, List.mem_append] at hmem
    rcases hmem with hmem | hmem
    · split_ifs at hmem <;> simp at hmem
    · exact absurd (Nat.isDigit_of_mem_toDigits (by norm_num) (by norm_num) hmem) (by decide)
  have hread := setString_append_zeros hne (scanSign_snd_ne_nil hne hnotm hnotp) k
  rw [← hk, setString_formatInt] at hread
  obtain ⟨v, hv, hvk⟩ : ∃ v, setString s' = some v ∧ v * 10 ^ k = i := by
    cases hsv : setString s' with
    | none => simp [hsv] at hread
    | some v => exact ⟨v, rfl, by simpa [hsv] using hread.symm⟩
  have hlen : s'.length + k = (formatInt i).length := by
    rw [hk]
    simp
  have hpos : 0 < s'.length := List.length_pos_iff.mpr hne
  refine ⟨v, k, ?_, hvk, by omega⟩
  have hpoint : '.' ∉ (if i < 0 then ['-'] else []) ++ (Nat.toDigits 10 i.natAbs ++ List.replicate m '0') := by
    intro hmem
    simp only [List.mem_append, List.mem_replicate] at hmem
    rcases hmem with hmem | hmem | hmem
    · split_ifs at hmem <;> simp at hmem
    · exact absurd (Nat.isDigit_of_mem_toDigits (by norm_num) (by norm_num) hmem) (by decide)
    · exact absurd hmem.2 (by decide)
  have htrim : trimZeros ((if i < 0 then ['-'] else []) ++ (Nat.toDigits 10 i.natAbs ++ List.replicate m '0')) 0 =
      (s', Int32.ofNat (m + k)) := by
    rw [← List.append_assoc, trimZeros_digits, Prod.ext_iff]
    refine ⟨hs', ?_⟩
    rw [he, Int32.zero_add, Int32.ofNat_add]
  rw [parseNumericString_of_no_point hpoint (by rw [htrim]; exact hv), htrim]

theorem not_point_sign (i : Int) : '.' ∉ (if i < 0 then ['-'] else []) := by
  split_ifs <;> simp

/-- **With a point**, when the number has no more digits than the scale: `0.`, zeros, and the
digits give back the number and the scale. -/
theorem parse_short (i : Int) (z : Nat) :
    parseNumericString ((if i < 0 then ['-'] else []) ++
        (['0'] ++ '.' :: (List.replicate z '0' ++ Nat.toDigits 10 i.natAbs))) =
      .ok (i, Int32.ofInt (-((z + (Nat.toDigits 10 i.natAbs).length : Nat) : Int))) := by
  -- leading zeros do not change the value
  have hdigits : ∀ c ∈ '0' :: (List.replicate z '0' ++ Nat.toDigits 10 i.natAbs), c.isDigit := by
    intro c hc
    simp only [List.mem_cons, List.mem_append, List.mem_replicate] at hc
    rcases hc with rfl | ⟨-, rfl⟩ | hc
    · rfl
    · rfl
    · exact Nat.isDigit_of_mem_toDigits (by norm_num) (by norm_num) hc
  have hvalue : Nat.ofDigitChars 10 ('0' :: (List.replicate z '0' ++ Nat.toDigits 10 i.natAbs)) 0 = i.natAbs := by
    rw [Nat.ofDigitChars_cons, Nat.ofDigitChars_append, Nat.ofDigitChars_replicate_zero]
    simp [Nat.ofDigitChars_ten_toDigits]
  rw [← List.append_assoc, parseNumericString_point (by simp [not_point_sign i])
    (by rw [List.append_assoc, List.singleton_append]; exact setString_sign_digits i (List.cons_ne_nil _ _) hdigits hvalue)]
  simp

/-- **With a point**, when the number has more digits than the scale: the digits around the point
give back the number and the scale. -/
theorem parse_long (i : Int) (dp : Nat) :
    parseNumericString ((if i < 0 then ['-'] else []) ++
        ((Nat.toDigits 10 i.natAbs).take dp ++ '.' :: (Nat.toDigits 10 i.natAbs).drop dp)) =
      .ok (i, Int32.ofInt (-(((Nat.toDigits 10 i.natAbs).drop dp).length : Int))) := by
  have hpoint : '.' ∉ (if i < 0 then ['-'] else []) ++ (Nat.toDigits 10 i.natAbs).take dp := by
    simp only [List.mem_append, not_or]
    refine ⟨not_point_sign i, fun hmem => ?_⟩
    exact absurd (Nat.isDigit_of_mem_toDigits (by norm_num) (by norm_num) (List.mem_of_mem_take hmem))
      (by decide)
  rw [← List.append_assoc, parseNumericString_point hpoint (by
    rw [List.append_assoc, List.take_append_drop]
    have := setString_formatInt i
    simpa [formatInt] using this)]

/-- **Text round trip.** A finite `Numeric` whose `Int` is not nil is scanned back from its text
with the same value, and with the same `Int` and `Exp` when `Exp` is negative; when `Exp` is not
negative, provided the text is at most `2^31` bytes. -/
theorem numeric_text_roundTrip {n : Numeric} {i : Int} (hi : n.int = some i) (hv : n.valid = true)
    (hnan : n.nan = false) (hinf : n.infinityModifier ≠ .infinity)
    (hninf : n.infinityModifier ≠ .negativeInfinity)
    (hfit : 0 ≤ n.exp.toInt → n.exp.toInt + (formatInt i).length ≤ 2 ^ 31) :
    ∃ n', scanPlanTextAnyToNumericScanner (encodeNumericText n []) = .ok n' ∧ n'.valid = true ∧
      n'.nan = false ∧ n'.infinityModifier = .finite ∧ n'.value = n.value ∧
      (n.exp.toInt < 0 → n'.int = some i ∧ n'.exp = n.exp) := by
  obtain ⟨c, r, hcr, hc⟩ := toDigits_head i.natAbs
  have hsign : (if i < 0 then ['-'] else []) = [] ∨ (if i < 0 then ['-'] else []) = ['-'] := by
    split_ifs <;> simp
  rw [encodeNumericText_finite hv hnan hinf hninf, List.nil_append, numberTextBytes_of_int hi]
  by_cases he : n.exp.toInt < 0
  · -- a point: the same `Int` and `Exp` come back
    have hexp : ∀ b : Nat, (b : Int) = -n.exp.toInt → Int32.ofInt (-(b : Int)) = n.exp := by
      intro b hb
      rw [hb, neg_neg, Int32.ofInt_toInt]
    have hval : (⟨some i, n.exp, false, .finite, true⟩ : Numeric).value = n.value := by
      simp [Numeric.value, hi]
    by_cases hl : ((Nat.toDigits 10 i.natAbs).length : Int) ≤ -n.exp.toInt
    · have hparse := parse_short i ((-n.exp.toInt).toNat - (Nat.toDigits 10 i.natAbs).length)
      rw [hexp _ (by omega)] at hparse
      rw [placePoint_of_short _ he hl]
      exact ⟨_, scan_of_parse hsign (c := '0') rfl hparse, rfl, rfl, rfl, hval, fun _ => ⟨rfl, rfl⟩⟩
    · have hparse := parse_long i ((Nat.toDigits 10 i.natAbs).length + n.exp.toInt).toNat
      rw [hexp _ (by simp; omega)] at hparse
      rw [placePoint_of_long _ he (by omega)]
      -- the text starts with the first digit
      obtain ⟨dp, hdp⟩ : ∃ dp, ((Nat.toDigits 10 i.natAbs).length + n.exp.toInt).toNat = dp + 1 :=
        ⟨((Nat.toDigits 10 i.natAbs).length + n.exp.toInt).toNat - 1, by omega⟩
      rw [hdp, hcr, List.take_succ_cons, List.cons_append] at hparse ⊢
      exact ⟨_, scan_of_parse hsign hc hparse, rfl, rfl, rfl, hval, fun _ => ⟨rfl, rfl⟩⟩
  · -- no point: the value comes back, with the trailing zeros moved into `Exp`
    have he0 : 0 ≤ n.exp.toInt := by omega
    obtain ⟨v, k, hparse, hvk, hfit'⟩ := parse_nonneg i n.exp.toInt.toNat (by have := hfit he0; omega)
    rw [placePoint_of_nonneg _ he0]
    rw [hcr, List.cons_append] at hparse ⊢
    refine ⟨_, scan_of_parse hsign hc hparse, rfl, rfl, rfl, ?_, fun h => absurd h he⟩
    have hk : (Int32.ofNat (n.exp.toInt.toNat + k)).toInt = n.exp.toInt + k := by
      rw [Int32.toInt_ofNat_of_lt hfit']
      omega
    simp only [Numeric.value, hi, Option.map_some, Option.some.injEq, hk]
    rw [← hvk, zpow_add₀ (by norm_num), zpow_natCast]
    push_cast
    ring

/-! ## The `int32` exponent wraps -/

/-- The text of `Numeric{Int: 10, Exp: 2147483647}` is `1` and `2^31` zeros. `parseNumericString`
cuts off all the zeros, counting them in its `int32` exponent, which wraps to `-2^31`: the scan
gives `Numeric{Int: 1, Exp: -2147483648}`, whose value `10^-2147483648` is not `10^2147483648`. -/
theorem numeric_text_expWraps :
    encodeNumericText ⟨some 10, 2147483647, false, .finite, true⟩ [] =
        some ('1' :: List.replicate 2147483648 '0') ∧
      scanPlanTextAnyToNumericScanner (some ('1' :: List.replicate 2147483648 '0')) =
        .ok ⟨some 1, -2147483648, false, .finite, true⟩ ∧
      (⟨some 10, 2147483647, false, .finite, true⟩ : Numeric).value ≠
        (⟨some 1, -2147483648, false, .finite, true⟩ : Numeric).value := by
  have hmax : (2147483647 : Int32).toInt = 2147483647 := by decide
  have hmin : (-2147483648 : Int32).toInt = -2147483648 := by decide
  refine ⟨?_, ?_, ?_⟩
  · -- `Exp` zeros after the digits `10`
    have htext : (⟨some 10, 2147483647, false, .finite, true⟩ : Numeric).numberTextBytes =
        ['1', '0'] ++ List.replicate 2147483647 '0' := by
      rw [Numeric.numberTextBytes, bigIntString, show formatInt 10 = ['1', '0'] from rfl]
      simp only [splitSign, hmax, placePoint, if_pos (show (0 : Int) < 2147483647 by decide)]
      rfl
    rw [encodeNumericText, if_neg (by decide), if_neg (by decide), if_neg (by decide), if_neg (by decide),
      List.nil_append, htext, show 2147483648 = 2147483647 + 1 from rfl, List.replicate_succ]
    rfl
  · -- no point: every zero is cut, and the count passes `2^31 - 1`
    have hcut : trimZeros ('1' :: List.replicate 2147483648 '0') 0 = (['1'], -2147483648) := by
      have h : trimZeros (['1'] ++ List.replicate 2147483648 '0') 0 =
          trimZeros ['1'] (0 + Int32.ofNat 2147483648) :=
        trimZeros_append_zeros (List.cons_ne_nil _ _) (by decide) 2147483648 0
      rw [List.singleton_append] at h
      rw [h, trimZeros_of_not_cut (by decide)]
      decide
    have hpoint : '.' ∉ '1' :: List.replicate 2147483648 '0' := by
      simp only [List.mem_cons, List.mem_replicate]
      decide
    have hone : setString (trimZeros ('1' :: List.replicate 2147483648 '0') 0).1 = some 1 := by
      rw [hcut]
      simp [setString, scanSign, Nat.ofDigitChars_cons]
    -- the text is none of `NaN`, `Infinity` and `-Infinity`: its first byte is `1`
    have hhead : ∀ (c : Char) (r : List Char), c ≠ '1' → '1' :: List.replicate 2147483648 '0' ≠ c :: r :=
      fun c r hc h => hc (List.cons.inj h).1.symm
    rw [scanPlanTextAnyToNumericScanner, if_neg (hhead 'N' _ (by decide)),
      if_neg (show _ ≠ "Infinity".toList from hhead 'I' ['n', 'f', 'i', 'n', 'i', 't', 'y'] (by decide)),
      if_neg (show _ ≠ "-Infinity".toList from hhead '-' ['I', 'n', 'f', 'i', 'n', 'i', 't', 'y'] (by decide)),
      parseNumericString_of_no_point hpoint hone, hcut]
    rfl
  · -- one value is at least ten, the other below one
    simp only [Numeric.value, Option.map_some, ne_eq, Option.some.injEq, hmax, hmin, Int.cast_ofNat,
      Int.cast_one, one_mul]
    intro h
    have hbig : (1 : ℚ) ≤ 10 ^ (2147483647 : ℤ) := one_le_zpow₀ (by norm_num) (by norm_num)
    have hsmall : (10 : ℚ) ^ (-2147483648 : ℤ) < 1 := zpow_lt_one_of_neg₀ (by norm_num) (by norm_num)
    have hlt : (1 : ℚ) < 10 * 10 ^ (2147483647 : ℤ) :=
      lt_of_lt_of_le (by norm_num) (le_mul_of_one_le_right (by norm_num) hbig)
    rw [h] at hlt
    exact absurd hsmall (not_lt.mpr hlt.le)

end Pgx.Pgtype
