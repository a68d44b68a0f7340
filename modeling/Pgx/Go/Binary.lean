import Mathlib

/-!
# Go's big-endian byte order, and calls that fail or panic

What `encoding/binary` and slicing do on byte slices, for decoders that trust lengths read from
their input:

* `Fault`, `GoM`: a call returns a value, returns an error, or panics;
* `putUint16`, `putUint32`, `putUint64` and the readers `uint16`, `uint32`, `uint64`, which
  panic on a short slice;
* `sliceFrom`, `slice`, `getAt`: `s[lo:]`, `s[lo:hi]` and `s[i]`, which panic out of bounds;
* `toInt32`, `ofInt32`: the conversions between `uint32` and `int32`;
* `Slice`: a slice that keeps its backing array, for decoders that reuse a slice's capacity.
-/

namespace Go

/-- How a Go call ends when it does not return a value: with an error, or by panicking. -/
inductive Fault
  | error (msg : String)
  | panic (msg : String)
  deriving DecidableEq, Repr

/-- A Go call that returns a value, an error, or panics. -/
abbrev GoM := Except Fault

/-- A call that returns passes its value on. -/
@[simp] theorem ok_bind {ε α β : Type} (a : α) (f : α → Except ε β) : (Except.ok a >>= f : Except ε β) = f a :=
  rfl

/-- A chain of calls that returned: the first call returned too. -/
theorem bind_eq_ok {ε α β : Type} {x : Except ε α} {f : α → Except ε β} {b : β} (h : (x >>= f) = .ok b) :
    ∃ a, x = .ok a ∧ f a = .ok b := by
  rcases x with e | a
  · cases h
  · exact ⟨a, rfl, h⟩

/-- `binary.BigEndian.PutUint16`. -/
def putUint16 (n : UInt16) : List UInt8 := [UInt8.ofNat (n.toNat / 2 ^ 8), UInt8.ofNat n.toNat]

/-- `binary.BigEndian.PutUint32`. -/
def putUint32 (n : UInt32) : List UInt8 :=
  [UInt8.ofNat (n.toNat / 2 ^ 24), UInt8.ofNat (n.toNat / 2 ^ 16), UInt8.ofNat (n.toNat / 2 ^ 8),
    UInt8.ofNat n.toNat]

/-- `binary.BigEndian.PutUint64`. -/
def putUint64 (n : UInt64) : List UInt8 :=
  putUint32 (UInt32.ofNat (n.toNat / 2 ^ 32)) ++ putUint32 (UInt32.ofNat n.toNat)

/-- `binary.BigEndian.Uint16(b)`: it reads `b[1]` first, so it panics on fewer than two bytes. -/
def uint16 : List UInt8 → GoM UInt16
  | b0 :: b1 :: _ => .ok (UInt16.ofNat (b0.toNat * 2 ^ 8 + b1.toNat))
  | _ => .error (.panic "index out of range")

/-- `binary.BigEndian.Uint32(b)`: it panics on fewer than four bytes. -/
def uint32 : List UInt8 → GoM UInt32
  | b0 :: b1 :: b2 :: b3 :: _ =>
    .ok (UInt32.ofNat (b0.toNat * 2 ^ 24 + b1.toNat * 2 ^ 16 + b2.toNat * 2 ^ 8 + b3.toNat))
  | _ => .error (.panic "index out of range")

/-- `binary.BigEndian.Uint64(b)`: it panics on fewer than eight bytes. -/
def uint64 : List UInt8 → GoM UInt64
  | b0 :: b1 :: b2 :: b3 :: b4 :: b5 :: b6 :: b7 :: _ =>
    .ok (UInt64.ofNat (b0.toNat * 2 ^ 56 + b1.toNat * 2 ^ 48 + b2.toNat * 2 ^ 40 + b3.toNat * 2 ^ 32 +
      b4.toNat * 2 ^ 24 + b5.toNat * 2 ^ 16 + b6.toNat * 2 ^ 8 + b7.toNat))
  | _ => .error (.panic "index out of range")

/-- `s[lo:]`: it panics when `lo` is past the end. -/
def sliceFrom {α : Type} (s : List α) (lo : Int) : GoM (List α) :=
  if 0 ≤ lo ∧ lo ≤ s.length then .ok (s.drop lo.toNat) else .error (.panic "slice bounds out of range")

/-- `s[lo:hi]`, for a slice whose capacity is its length: it panics unless
`0 ≤ lo ≤ hi ≤ len(s)`. -/
def slice {α : Type} (s : List α) (lo hi : Int) : GoM (List α) :=
  if 0 ≤ lo ∧ lo ≤ hi ∧ hi ≤ s.length then .ok ((s.drop lo.toNat).take (hi - lo).toNat)
  else .error (.panic "slice bounds out of range")

theorem sliceFrom_of_le {α : Type} {s : List α} {lo : Nat} (h : lo ≤ s.length) :
    sliceFrom s lo = .ok (s.drop lo) := by
  unfold sliceFrom
  rw [if_pos ⟨Int.natCast_nonneg lo, by exact_mod_cast h⟩, Int.toNat_natCast]

@[simp] theorem sliceFrom_zero {α : Type} (s : List α) : sliceFrom s 0 = .ok s := by
  simp [sliceFrom]

/-- `s[i:]` that starts with `b`: `i` is in range, `s[i]` is `b`, and `s[i+1:]` is the rest. -/
theorem drop_eq_cons {α : Type} {s r : List α} {i : Nat} {b : α} (h : s.drop i = b :: r) :
    ∃ hi : i < s.length, s[i] = b ∧ s.drop (i + 1) = r := by
  have hi : i < s.length := by
    by_contra hn
    rw [List.drop_eq_nil_of_le (by omega)] at h
    cases h
  rw [List.drop_eq_getElem_cons hi, List.cons.injEq] at h
  exact ⟨hi, h⟩

theorem drop_add_of_drop {α : Type} {s u r : List α} {i : Nat} (h : s.drop i = u ++ r) :
    s.drop (i + u.length) = r := by
  rw [← List.drop_drop, h, List.drop_left]

/-- `s[lo:lo+len(mid)]` where `mid` starts at `lo`. -/
theorem slice_of_drop {α : Type} {s mid t : List α} {lo : Nat} (hlo : lo ≤ s.length)
    (h : s.drop lo = mid ++ t) : slice s lo (lo + mid.length) = .ok mid := by
  have hlen : lo + mid.length ≤ s.length := by
    have := congrArg List.length h
    simp only [List.length_drop, List.length_append] at this
    omega
  unfold slice
  rw [if_pos ⟨by omega, by omega, by exact_mod_cast hlen⟩]
  simp [h]

/-- A slice that did not panic had its bounds in order. -/
theorem slice_bounds {α : Type} {s r : List α} {lo hi : Int} (h : slice s lo hi = .ok r) :
    0 ≤ lo ∧ lo ≤ hi ∧ hi ≤ s.length := by
  unfold slice at h
  split_ifs at h with hb
  · exact hb

/-- `s[i]`: it panics when `i` is past the end. -/
def getAt {α : Type} (s : List α) (i : Nat) : GoM α :=
  match s[i]? with
  | some x => .ok x
  | none => .error (.panic "index out of range")

theorem getAt_of_drop {α : Type} {s r : List α} {i : Nat} {b : α} (h : s.drop i = b :: r) :
    getAt s i = .ok b := by
  obtain ⟨hi, hb, -⟩ := drop_eq_cons h
  simp [getAt, List.getElem?_eq_getElem hi, hb]

/-- `int32(x)` for a `uint32`: the same 32 bits, read as a signed number. -/
def toInt32 (x : UInt32) : Int := if x.toNat < 2 ^ 31 then x.toNat else x.toNat - 2 ^ 32

/-- `uint32(n)` for an `int32` (or the low 32 bits of a wider integer). -/
def ofInt32 (n : Int) : UInt32 := UInt32.ofNat (n % 2 ^ 32).toNat

/-- `int16(x)` for a `uint16`. -/
def toInt16 (x : UInt16) : Int := if x.toNat < 2 ^ 15 then x.toNat else x.toNat - 2 ^ 16

theorem uint16_putUint16 (n : UInt16) (t : List UInt8) : uint16 (putUint16 n ++ t) = .ok n := by
  have hn := n.toNat_lt
  simp only [putUint16, List.cons_append, List.nil_append, uint16, UInt8.toNat_ofNat']
  congr 1
  apply UInt16.toNat.inj
  rw [UInt16.toNat_ofNat']
  omega

theorem uint32_putUint32 (n : UInt32) (t : List UInt8) : uint32 (putUint32 n ++ t) = .ok n := by
  have hn := n.toNat_lt
  simp only [putUint32, List.cons_append, List.nil_append, uint32, UInt8.toNat_ofNat']
  congr 1
  apply UInt32.toNat.inj
  rw [UInt32.toNat_ofNat']
  omega

theorem uint64_putUint64 (n : UInt64) (t : List UInt8) : uint64 (putUint64 n ++ t) = .ok n := by
  have hn := n.toNat_lt
  simp only [putUint64, putUint32, List.cons_append, List.nil_append, uint64, UInt8.toNat_ofNat',
    UInt32.toNat_ofNat']
  congr 1
  apply UInt64.toNat.inj
  rw [UInt64.toNat_ofNat']
  omega

theorem length_putUint64 (n : UInt64) : (putUint64 n).length = 8 := rfl

theorem toNat_ofInt32 {n : Nat} (h : n < 2 ^ 32) : (ofInt32 n).toNat = n := by
  unfold ofInt32
  rw [UInt32.toNat_ofNat']
  omega

theorem toInt32_ofInt32 {n : Int} (h1 : -2 ^ 31 ≤ n) (h2 : n < 2 ^ 31) : toInt32 (ofInt32 n) = n := by
  unfold toInt32 ofInt32
  rw [UInt32.toNat_ofNat']
  split <;> omega


/-! ### Slices over a backing array -/

/-- A Go slice: its backing array from the slice's first element on, whose length is the slice's
capacity, and the slice's length. Reslicing up to the capacity shows again what the array held. -/
structure Slice (α : Type) where
  backing : List α
  len : Nat
  len_le : len ≤ backing.length
  deriving DecidableEq, Repr

namespace Slice

variable {α : Type}

/-- `cap(s)`. -/
def cap (s : Slice α) : Nat := s.backing.length

/-- The elements of the slice, what a reader of it sees. -/
def toList (s : Slice α) : List α := s.backing.take s.len

/-- The nil slice. -/
def nil : Slice α := ⟨[], 0, le_refl 0⟩

/-- `make([]T, len, cap)`, `zero` being the zero value of `T`. -/
def make (zero : α) (len cap : Nat) (h : len ≤ cap) : Slice α :=
  ⟨List.replicate cap zero, len, by simpa using h⟩

/-- `s[:n]`, for `n ≤ cap(s)`. -/
def take (s : Slice α) (n : Nat) (h : n ≤ s.cap) : Slice α := ⟨s.backing, n, h⟩

/-- `s[i] = x`, for `i < len(s)` (a write past the length panics, and no caller makes one). -/
def set (s : Slice α) (i : Nat) (x : α) : Slice α :=
  ⟨s.backing.set i x, s.len, by simpa using s.len_le⟩

@[simp] theorem set_len (s : Slice α) (i : Nat) (x : α) : (s.set i x).len = s.len := rfl

@[simp] theorem length_toList (s : Slice α) : s.toList.length = s.len := by
  simp [toList, s.len_le]

/-- A write at `i` leaves the first `i` elements and puts `x` after them. -/
theorem toList_set_take {s : Slice α} {i : Nat} (x : α) (h : i < s.len) :
    (s.set i x).toList.take (i + 1) = s.toList.take i ++ [x] := by
  have hb : i < s.backing.length := Nat.lt_of_lt_of_le h s.len_le
  simp only [toList, set, List.take_take, Nat.min_eq_left (Nat.succ_le_of_lt h), Nat.min_eq_left h.le]
  rw [List.take_add_one, List.getElem?_set_self hb, List.take_set_of_le (Nat.le_refl i), Option.toList_some]

end Slice

end Go
