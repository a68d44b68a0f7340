import Pgx.Sanitize.Sanitize
import Pgx.Go.Slices

/-!
# `QuoteString` and `QuoteBytes` on slices

`Pgx.Sanitize.quoteString` and `Pgx.Sanitize.quoteBytes` say what the two functions append to
`dst`. Here they are as the source writes them, on a `Slice` with its capacity: `QuoteString`
grows `dst` for the worst case and appends byte by byte; `QuoteBytes` computes the length it
needs, moves `dst` to a new array when the capacity is short, reslices, and writes the prefix, the
hex digits (through a window of the array) and the closing quote by index.

`toList_quoteString` and `quoteBytes_toList` prove that they append what the list model says,
for every `dst`, whatever its capacity and whatever capacity `append` picks for a new array, and
that `QuoteBytes` does not panic. `oldQuoteString` and `oldQuoteBytes` are the implementations
they replaced, which the tests compare them with.
-/

namespace Pgx.Sanitize.Quote

open Go Go.Utf8 Go.Slice

/-- The constant `quote` of `QuoteString`, `'\''`. -/
def quote : UInt8 := 0x27

/-- `QuoteString(dst, str)`: room for the worst case first, then the opening quote, each byte of
`str` (a quote twice), and the closing quote, each by `append`. -/
def quoteString (newCap : Nat → Nat → Nat) (dst : Slice UInt8) (str : List UInt8) : Slice UInt8 :=
  -- preallocate space for the worst case scenario
  let dst := dst.grow newCap 0 (str.length * 2 + 2)
  let dst := dst.append newCap 0 [quote]
  let dst := str.foldl (fun dst c =>
    if c = quote then dst.append newCap 0 [quote, quote] else dst.append newCap 0 [c]) dst
  dst.append newCap 0 [quote]

/-- `QuoteBytes(dst, buf)`: `'\x'` appended for an empty `buf`; otherwise `requiredLen` bytes
after the length of `dst`, in a new array when fewer fit, written by index. -/
def quoteBytes (newCap : Nat → Nat → Nat) (dst : Slice UInt8) (buf : List UInt8) :
    GoM (Slice UInt8) :=
  if buf.length = 0 then .ok (dst.append newCap 0 (encode ['\'', '\\', 'x', '\'']))
  else do
    let requiredLen := 3 + buf.length * 2 + 1
    -- ensure dst has enough capacity
    let dst := if dst.cap - dst.len < requiredLen then
        (copy (Slice.make 0 dst.len (dst.len + requiredLen) (Nat.le_add_right _ _)) dst).1
      else dst
    let origLen := dst.len
    let dst ← dst.reslice (origLen + requiredLen)
    let dst ← dst.store origLen 0x27
    let dst ← dst.store (origLen + 1) 0x5c
    let dst ← dst.store (origLen + 2) 0x78
    let dst ← Hex.encode dst (origLen + 3) (dst.len - 1) buf
    dst.store (dst.len - 1) 0x27

/-- `strings.ReplaceAll(s, old, new)` for a one-byte `old`: each occurrence of it replaced by
`new`. -/
def replaceAll (s : List UInt8) (old : UInt8) (new : List UInt8) : List UInt8 :=
  s.flatMap fun c => if c = old then new else [c]

/-- `oldQuoteString`: `"'" + strings.ReplaceAll(str, "'", "''") + "'"`. -/
def oldQuoteString (str : List UInt8) : List UInt8 := [0x27] ++ replaceAll str 0x27 [0x27, 0x27] ++ [0x27]

/-- `oldQuoteBytes`: `` `'\x` `` + `hex.EncodeToString(buf)` + `"'"`. -/
def oldQuoteBytes (buf : List UInt8) : List UInt8 := encode (['\'', '\\', 'x'] ++ hexEncode buf ++ ['\''])

/-! ### `QuoteString` -/

/-- The loop of `QuoteString` appends each byte, a quote twice. -/
theorem toList_foldl (newCap : Nat → Nat → Nat) (str : List UInt8) :
    ∀ dst : Slice UInt8, (str.foldl (fun dst c =>
        if c = quote then dst.append newCap 0 [quote, quote] else dst.append newCap 0 [c]) dst).toList =
      dst.toList ++ str.flatMap fun c => if c = quote then [quote, quote] else [c] := by
  induction str with
  | nil =>
    intro dst
    simp
  | cons c str ih =>
    intro dst
    rw [List.foldl_cons, ih, List.flatMap_cons, ← List.append_assoc]
    congr 1
    split <;> simp

/-- **`QuoteString` appends what the list model says**, for every capacity of `dst`. -/
theorem toList_quoteString (newCap : Nat → Nat → Nat) (dst : Slice UInt8) (str : List UInt8) :
    (quoteString newCap dst str).toList = Sanitize.quoteString dst.toList str := by
  simp only [quoteString, toList_append, toList_foldl, toList_grow]
  simp [Sanitize.quoteString, quote]
  rfl

/-! ### `QuoteBytes` -/

/-- `hextable` at a digit's value is the digit's byte. -/
theorem utf8EncodeChar_digitChar : ∀ n : Fin 16,
    String.utf8EncodeChar (n : Nat).digitChar = [Hex.hextable.getD n 0] := by
  decide

/-- The two digits `hex.Encode` writes are those of `hexEncode`. -/
theorem encode_hexEncode (buf : List UInt8) : encode (hexEncode buf) = buf.flatMap Hex.digits := by
  have hhi : ∀ v : UInt8, (v >>> 4).toNat = v.toNat / 16 := by
    intro v
    simp [UInt8.toNat_shiftRight, Nat.shiftRight_eq_div_pow]
  have hlo : ∀ v : UInt8, (v &&& 0x0f).toNat = v.toNat % 16 := by
    intro v
    simp only [UInt8.toNat_and]
    exact Nat.and_two_pow_sub_one_eq_mod _ 4
  induction buf with
  | nil => rfl
  | cons v buf ih =>
    have hv := v.toNat_lt
    rw [hexEncode, List.flatMap_cons, encode_append, ← hexEncode, ih, List.flatMap_cons]
    congr 1
    rw [encode_cons, encode_singleton, Hex.digits, hhi, hlo,
      utf8EncodeChar_digitChar ⟨v.toNat / 16, by omega⟩,
      utf8EncodeChar_digitChar ⟨v.toNat % 16, by omega⟩]
    rfl

/-- The capacity step of `QuoteBytes` keeps the elements of `dst` at the front of the array, with
room for `n` more after them. -/
theorem ensure_room (dst : Slice UInt8) (n : Nat) :
    ∃ T, (if dst.cap - dst.len < n then
          (copy (Slice.make 0 dst.len (dst.len + n) (Nat.le_add_right _ _)) dst).1 else dst).backing =
        dst.toList ++ T ∧ n ≤ T.length ∧
      (if dst.cap - dst.len < n then
          (copy (Slice.make 0 dst.len (dst.len + n) (Nat.le_add_right _ _)) dst).1 else dst).len =
        dst.len := by
  split
  · -- a new array of capacity `len(dst) + n`, with the elements copied to its front
    refine ⟨(List.replicate (dst.len + n) (0 : UInt8)).drop dst.len, copy_backing (le_refl _), ?_, rfl⟩
    simp
  · rename_i hroom
    refine ⟨dst.backing.drop dst.len, backing_eq dst, ?_, rfl⟩
    simp only [cap] at hroom
    simp only [List.length_drop]
    omega

/-- The room after the elements, as `QuoteBytes` fills it: three bytes for `'\x`, a window of
two bytes per byte of `buf`, and one for the closing quote. -/
theorem room_split {T : List UInt8} {n : Nat} (h : 3 + n * 2 + 1 ≤ T.length) :
    ∃ t0 t1 t2 W t R, T = t0 :: t1 :: t2 :: (W ++ t :: R) ∧ W.length = 2 * n := by
  match T, h with
  | t0 :: t1 :: t2 :: T', h =>
    simp only [List.length_cons] at h
    obtain ⟨t, R, hR⟩ : ∃ t R, T'.drop (2 * n) = t :: R := by
      match hd : T'.drop (2 * n) with
      | t :: R => exact ⟨t, R, rfl⟩
      | [] =>
        rw [List.drop_eq_nil_iff] at hd
        omega
    refine ⟨t0, t1, t2, T'.take (2 * n), t, R, by rw [← hR, List.take_append_drop], ?_⟩
    rw [List.length_take]
    omega
  | [], h | [_], h | [_, _], h =>
    simp only [List.length_cons, List.length_nil] at h
    omega

/-- **`QuoteBytes` appends what the list model says, and does not panic**, for every capacity of
`dst`: the index writes stay within the resliced length, and the window of the hex digits is
exactly two bytes per byte of `buf`. -/
theorem quoteBytes_toList (newCap : Nat → Nat → Nat) (dst : Slice UInt8) (buf : List UInt8) :
    ∃ d, quoteBytes newCap dst buf = .ok d ∧ d.toList = Sanitize.quoteBytes dst.toList buf := by
  by_cases hb : buf.length = 0
  · refine ⟨_, if_pos hb, ?_⟩
    simp [Sanitize.quoteBytes, List.length_eq_zero_iff.1 hb]
  have hne : buf ≠ [] := fun h => hb (by simp [h])
  unfold quoteBytes
  rw [if_neg hb]
  dsimp only
  obtain ⟨T, hT, hTl, hlen⟩ := ensure_room dst (3 + buf.length * 2 + 1)
  generalize (if dst.cap - dst.len < 3 + buf.length * 2 + 1 then
      (copy (Slice.make 0 dst.len (dst.len + (3 + buf.length * 2 + 1)) (Nat.le_add_right _ _)) dst).1
    else dst) = d1 at hT hlen ⊢
  obtain ⟨t0, t1, t2, W, t, R, rfl, hW⟩ := room_split hTl
  have hP : dst.toList.length = dst.len := length_toList dst
  -- the lengths of the front parts the writes end at
  have hP1 : (dst.toList ++ [0x27]).length = dst.len + 1 := by simp [hP]
  have hP2 : (dst.toList ++ [0x27, 0x5c]).length = dst.len + 2 := by simp [hP]
  have hP3 : (dst.toList ++ [0x27, 0x5c, 0x78]).length = dst.len + 3 := by simp [hP]
  have hP4 : (dst.toList ++ [0x27, 0x5c, 0x78] ++ buf.flatMap Hex.digits).length =
      dst.len + 3 + 2 * buf.length := by
    simp only [List.length_append, Hex.length_flatMap_digits, hP3]
  have hcap : d1.len + (3 + buf.length * 2 + 1) ≤ d1.cap := by
    simp only [cap, hT, List.length_append, List.length_cons, hP, hlen, hW]
    omega
  rw [reslice_of_le hcap, ok_bind]
  have hb2 : (d1.take _ hcap).backing = dst.toList ++ t0 :: t1 :: t2 :: (W ++ t :: R) := by
    rw [take_backing, hT]
  have hl2 : (d1.take _ hcap).len = dst.len + (3 + buf.length * 2 + 1) := by rw [take_len, hlen]
  generalize d1.take (d1.len + (3 + buf.length * 2 + 1)) hcap = d2 at hb2 hl2 ⊢
  rw [hlen]
  -- the prefix `'\x`, one write at a time
  obtain ⟨d3, h3, hb3, hl3⟩ := store_of_backing (P := dst.toList) hb2 (by rw [hl2, hP]; omega) 0x27
  rw [← hP, h3, ok_bind]
  obtain ⟨d4, h4, hb4, hl4⟩ := store_of_backing (P := dst.toList ++ [0x27]) (y := t1)
    (R := t2 :: (W ++ t :: R)) (by rw [hb3]; simp) (by rw [hl3, hl2, hP1]; omega) 0x5c
  rw [hP, ← hP1, h4, ok_bind]
  obtain ⟨d5, h5, hb5, hl5⟩ := store_of_backing (P := dst.toList ++ [0x27, 0x5c]) (y := t2)
    (R := W ++ t :: R) (by rw [hb4]; simp) (by rw [hl4, hl3, hl2, hP2]; omega) 0x78
  rw [← hP2, h5, ok_bind]
  -- the digits, through the window of `2 * len(buf)` bytes after the prefix
  obtain ⟨d6, h6, hb6, hl6⟩ := Hex.encode_spec (P := dst.toList ++ [0x27, 0x5c, 0x78]) (W := W)
    (R := t :: R) (by rw [hb5]; simp) hW
  have hl : d5.len = dst.len + (3 + buf.length * 2 + 1) := by rw [hl5, hl4, hl3, hl2]
  rw [← hP3, show d5.len - 1 = (dst.toList ++ [0x27, 0x5c, 0x78]).length + 2 * buf.length by
    rw [hl, hP3]; omega, h6, ok_bind]
  -- the closing quote, at the last index
  obtain ⟨d7, h7, hb7, hl7⟩ := store_of_backing
    (P := dst.toList ++ [0x27, 0x5c, 0x78] ++ buf.flatMap Hex.digits) (by rw [hb6]) (by rw [hl6, hl, hP4]; omega) 0x27
  rw [show d6.len - 1 = (dst.toList ++ [0x27, 0x5c, 0x78] ++ buf.flatMap Hex.digits).length by
    rw [hl6, hl, hP4]; omega, h7]
  refine ⟨d7, rfl, ?_⟩
  rw [toList, hb7, hl7, hl6, hl, show dst.toList ++ [0x27, 0x5c, 0x78] ++ buf.flatMap Hex.digits ++ 0x27 :: R =
      (dst.toList ++ [0x27, 0x5c, 0x78] ++ buf.flatMap Hex.digits ++ [0x27]) ++ R by simp,
    List.take_left' (by simp only [List.length_append, List.length_singleton, hP4]; omega)]
  simp [Sanitize.quoteBytes, hne, encode_hexEncode]
  rfl

/-- **`QuoteString` and `QuoteBytes` agree with the implementations they replaced**: for every `dst`,
whatever its capacity, and whatever capacity `append` gives a new array, they append to the
elements of `dst` what `oldQuoteString` and `oldQuoteBytes` return. -/
theorem quote_refines_old (newCap : Nat → Nat → Nat) (dst : Slice UInt8) (s b : List UInt8) :
    (quoteString newCap dst s).toList = dst.toList ++ oldQuoteString s ∧
      ∃ d, quoteBytes newCap dst b = .ok d ∧ d.toList = dst.toList ++ oldQuoteBytes b := by
  constructor
  · rw [toList_quoteString]
    simp [Sanitize.quoteString, oldQuoteString, replaceAll]
  · obtain ⟨d, hd, hl⟩ := quoteBytes_toList newCap dst b
    refine ⟨d, hd, ?_⟩
    rw [hl]
    by_cases hb : b = []
    · subst hb
      rfl
    · simp [Sanitize.quoteBytes, oldQuoteBytes, hb]

end Pgx.Sanitize.Quote
