import Pgx.Go.Binary

/-!
# `append`, `copy` and `slices.Grow`, and writes through a window

What the built-ins do to the backing array of a `Slice`: `append` writes after the length when the
capacity allows, and otherwise moves the elements to a new array; `copy` overwrites the front of
its destination; `s[i] = x` and `s[:n]` panic out of range; `slices.Grow` makes room for `n` more
elements. `hex.Encode` writes two digits per byte through a window `dst[lo:hi]`, which shares the
array of `dst`.

The capacity of the new array `append` allocates is the runtime's choice (its growth rule and its
rounding to size classes): it is a function `newCap` of the old capacity and the length needed,
and every result here holds for any such function.

* `Slice.store`, `Slice.storeAt`, `Slice.reslice`: `s[i] = x`, a write through a window, `s[:n]`;
* `Slice.append`, `Slice.copy`, `Slice.grow` (`slices.Grow`);
* `Hex.encode`: `hex.Encode(dst[lo:hi], src)`.

A write is followed by what it does to the array split around it (`set_of_backing`); a loop of
writes by what it leaves between the untouched front and back (`encodeLoop_spec`).
-/

namespace Go

namespace Slice

variable {α : Type}

theorem len_le_cap (s : Slice α) : s.len ≤ s.cap := s.len_le

@[simp] theorem take_len (s : Slice α) (n : Nat) (h : n ≤ s.cap) : (s.take n h).len = n := rfl

@[simp] theorem take_backing (s : Slice α) (n : Nat) (h : n ≤ s.cap) :
    (s.take n h).backing = s.backing := rfl

@[simp] theorem set_backing (s : Slice α) (i : Nat) (x : α) :
    (s.set i x).backing = s.backing.set i x := rfl

/-- The array holds the elements, then what lies between the length and the capacity. -/
theorem backing_eq (s : Slice α) : s.backing = s.toList ++ s.backing.drop s.len :=
  (List.take_append_drop _ _).symm

/-- Reslicing to a shorter length shows the front of the elements. -/
theorem toList_take_of_le (s : Slice α) {n : Nat} (h : n ≤ s.cap) (hn : n ≤ s.len) :
    (s.take n h).toList = s.toList.take n := by
  simp only [toList, take_backing, take_len, List.take_take, Nat.min_eq_left hn]

/-- A write at the end of a front part `P` replaces the element after it. -/
theorem set_of_backing {s : Slice α} {P R : List α} {y : α} (h : s.backing = P ++ y :: R)
    (x : α) : (s.set P.length x).backing = P ++ x :: R := by
  rw [set_backing, h, List.set_append_right _ _ (le_refl _), Nat.sub_self, List.set_cons_zero]

/-! ### Index writes and reslicing -/

/-- `s[i] = x`: it panics unless `i < len(s)`. -/
def store (s : Slice α) (i : Nat) (x : α) : GoM (Slice α) :=
  if i < s.len then .ok (s.set i x) else .error (.panic "index out of range")

/-- `w[j] = x` for the window `w` of length `n` that starts at `lo` in the array of `s`: a write
to that array at `lo + j`, which panics unless `j < n`. -/
def storeAt (s : Slice α) (lo n j : Nat) (x : α) : GoM (Slice α) :=
  if j < n then .ok (s.set (lo + j) x) else .error (.panic "index out of range")

/-- `s[:n]`: it panics unless `n ≤ cap(s)`. -/
def reslice (s : Slice α) (n : Nat) : GoM (Slice α) :=
  if h : n ≤ s.cap then .ok (s.take n h) else .error (.panic "slice bounds out of range")

theorem store_of_lt {s : Slice α} {i : Nat} (h : i < s.len) (x : α) :
    s.store i x = .ok (s.set i x) := by
  simp [store, h]

/-- A write within the length at the end of a front part `P` of the array. -/
theorem store_of_backing {s : Slice α} {P R : List α} {y : α} (h : s.backing = P ++ y :: R)
    (hl : P.length < s.len) (x : α) :
    ∃ s', s.store P.length x = .ok s' ∧ s'.backing = P ++ x :: R ∧ s'.len = s.len :=
  ⟨_, store_of_lt hl x, set_of_backing h x, rfl⟩

theorem storeAt_of_lt {s : Slice α} {lo n j : Nat} (h : j < n) (x : α) :
    s.storeAt lo n j x = .ok (s.set (lo + j) x) := by
  simp [storeAt, h]

theorem reslice_of_le {s : Slice α} {n : Nat} (h : n ≤ s.cap) : s.reslice n = .ok (s.take n h) := by
  simp [reslice, h]

/-! ### `append` -/

/-- `append(s, xs...)`: in place when the capacity allows; otherwise into a new array whose
capacity is the larger of the length needed and `newCap cap(s) needed`, holding the elements,
then `xs`, then zero values. -/
def append (newCap : Nat → Nat → Nat) (zero : α) (s : Slice α) (xs : List α) : Slice α :=
  if h : s.len + xs.length ≤ s.cap then
    ⟨s.backing.take s.len ++ xs ++ s.backing.drop (s.len + xs.length), s.len + xs.length, by
      simp only [cap] at h
      simp only [List.length_append, List.length_take, List.length_drop]
      omega⟩
  else
    ⟨s.toList ++ xs ++ List.replicate (newCap s.cap (s.len + xs.length) - (s.len + xs.length)) zero,
      s.len + xs.length, by simp⟩

section Append

variable (newCap : Nat → Nat → Nat) (zero : α) (s : Slice α) (xs : List α)

@[simp] theorem append_len : (s.append newCap zero xs).len = s.len + xs.length := by
  unfold append
  split <;> rfl

/-- `append` adds `xs` after the elements, whether or not it moves them. -/
@[simp] theorem toList_append : (s.append newCap zero xs).toList = s.toList ++ xs := by
  unfold append
  split
  · have hl : (s.backing.take s.len).length = s.len := by
      simp only [List.length_take]
      exact Nat.min_eq_left s.len_le
    simp [toList, List.take_append, hl]
  · simp [toList, List.take_append, s.len_le]

end Append

/-! ### `copy` and `slices.Grow` -/

/-- `copy(dst, src)`: the first elements of `dst` overwritten by those of `src`, as many as both
have, and how many that is. -/
def copy (dst src : Slice α) : Slice α × Nat :=
  (⟨src.toList.take (min dst.len src.len) ++ dst.backing.drop (min dst.len src.len), dst.len, by
    have := dst.len_le
    simp only [List.length_append, List.length_take, List.length_drop, length_toList]
    omega⟩, min dst.len src.len)

/-- Copying a slice into one at least as long puts its elements at the front. -/
theorem copy_backing {dst src : Slice α} (h : src.len ≤ dst.len) :
    (copy dst src).1.backing = src.toList ++ dst.backing.drop src.len := by
  simp [copy, Nat.min_eq_right h]

@[simp] theorem copy_len (dst src : Slice α) : (copy dst src).1.len = dst.len := rfl

/-- `slices.Grow(s, n)`: when fewer than `n` elements fit after the length,
`append(s[:cap(s)], make([]T, n - (cap(s) - len(s)))...)[:len(s)]`. -/
def grow (newCap : Nat → Nat → Nat) (zero : α) (s : Slice α) (n : Nat) : Slice α :=
  if s.cap - s.len < n then
    ((s.take s.cap le_rfl).append newCap zero (List.replicate (n - (s.cap - s.len)) zero)).take
      s.len (by
        refine le_trans ?_ (len_le_cap _)
        simp only [append_len, take_len]
        exact le_trans s.len_le_cap (Nat.le_add_right _ _))
  else s

section Grow

variable (newCap : Nat → Nat → Nat) (zero : α) (s : Slice α) (n : Nat)

@[simp] theorem grow_len : (s.grow newCap zero n).len = s.len := by
  unfold grow
  split <;> rfl

/-- `slices.Grow` keeps the elements. -/
@[simp] theorem toList_grow : (s.grow newCap zero n).toList = s.toList := by
  unfold grow
  split
  · -- the elements are the front of the appended slice
    have h := toList_append newCap zero (s.take s.cap le_rfl) (List.replicate (n - (s.cap - s.len)) zero)
    have hfront : (s.take s.cap le_rfl).toList = s.backing := List.take_of_length_le (le_refl _)
    have hle : s.len ≤ ((s.take s.cap le_rfl).append newCap zero
        (List.replicate (n - (s.cap - s.len)) zero)).len := by
      simp only [append_len, take_len]
      exact le_trans s.len_le_cap (Nat.le_add_right _ _)
    rw [toList_take_of_le _ _ hle, h, hfront, List.take_append_of_le_length s.len_le]
    rfl
  · rfl

/-- After `slices.Grow(s, n)`, `n` more elements fit. -/
theorem grow_room : n ≤ (s.grow newCap zero n).cap - s.len := by
  unfold grow
  split
  · rename_i hlt
    have hc := len_le_cap ((s.take s.cap le_rfl).append newCap zero
      (List.replicate (n - (s.cap - s.len)) zero))
    simp only [append_len, take_len, List.length_replicate] at hc
    simp only [cap, take_backing] at hc ⊢
    have := s.len_le
    simp only [cap] at hlt
    omega
  · rename_i hge
    omega

end Grow

end Slice

/-! ### `hex.Encode` -/

namespace Hex

open Slice

/-- `hextable`, the digits `0123456789abcdef`. -/
def hextable : List UInt8 := "0123456789abcdef".toList.map Char.toUInt8

/-- The two digits `hex.Encode` writes for a byte, read from `hextable` at `v >> 4` and
`v & 0x0f` (both below 16). -/
def digits (v : UInt8) : List UInt8 :=
  [hextable.getD (v >>> 4).toNat 0, hextable.getD (v &&& 0x0f).toNat 0]

/-- Two digits per byte. -/
@[simp] theorem length_flatMap_digits (src : List UInt8) : (src.flatMap digits).length = 2 * src.length := by
  induction src with
  | nil => rfl
  | cons v src ih =>
    rw [List.flatMap_cons, List.length_append, ih, List.length_cons]
    simp only [digits, List.length_cons, List.length_nil]
    omega

/-- The loop of `hex.Encode(w, src)` from position `j` of the window `w` of length `n` that starts
at `lo` in the array of `dst`. -/
def encodeLoop (lo n : Nat) (dst : Slice UInt8) (j : Nat) : List UInt8 → GoM (Slice UInt8)
  | [] => .ok dst
  | v :: src => do
    let dst ← dst.storeAt lo n j (hextable.getD (v >>> 4).toNat 0)
    let dst ← dst.storeAt lo n (j + 1) (hextable.getD (v &&& 0x0f).toNat 0)
    encodeLoop lo n dst (j + 2) src

/-- `hex.Encode(dst[lo:hi], src)`: making the window panics unless `lo ≤ hi ≤ cap(dst)`. -/
def encode (dst : Slice UInt8) (lo hi : Nat) (src : List UInt8) : GoM (Slice UInt8) :=
  if lo ≤ hi ∧ hi ≤ dst.cap then encodeLoop lo (hi - lo) dst 0 src
  else .error (.panic "slice bounds out of range")

/-- **The loop writes the digits in place.** From `j`, with room in the window for two digits per
byte, it replaces the `2 * src.length` elements after the front `P` of the array by the digits,
and keeps the front, the back and the length. -/
theorem encodeLoop_spec {lo n : Nat} (src : List UInt8) :
    ∀ (dst : Slice UInt8) (j : Nat) (P W R : List UInt8), dst.backing = P ++ W ++ R →
      P.length = lo + j → W.length = 2 * src.length → j + 2 * src.length ≤ n →
      ∃ d, encodeLoop lo n dst j src = .ok d ∧ d.backing = P ++ src.flatMap digits ++ R ∧
        d.len = dst.len := by
  induction src with
  | nil =>
    intro dst j P W R hb hP hW _
    rw [List.length_nil, Nat.mul_zero, List.length_eq_zero_iff] at hW
    subst hW
    exact ⟨dst, rfl, by simpa using hb, rfl⟩
  | cons v src ih =>
    intro dst j P W R hb hP hW hn
    -- the window's next two elements are the ones the two writes replace
    obtain ⟨w0, w1, W', rfl⟩ : ∃ w0 w1 W', W = w0 :: w1 :: W' := by
      match W, hW with
      | w0 :: w1 :: W', _ => exact ⟨w0, w1, W', rfl⟩
    have hW' : W'.length = 2 * src.length := by
      simp only [List.length_cons] at hW
      omega
    have hb0 : dst.backing = P ++ w0 :: (w1 :: W' ++ R) := by simpa using hb
    set x0 := hextable.getD (v >>> 4).toNat 0
    set x1 := hextable.getD (v &&& 0x0f).toNat 0
    have hb1 : (dst.set (lo + j) x0).backing = (P ++ [x0]) ++ w1 :: (W' ++ R) := by
      rw [← hP, set_of_backing hb0]
      simp
    have hb2 : ((dst.set (lo + j) x0).set (lo + (j + 1)) x1).backing = (P ++ [x0, x1]) ++ W' ++ R := by
      rw [show lo + (j + 1) = (P ++ [x0]).length by simp [hP]; omega, set_of_backing hb1]
      simp
    obtain ⟨d, hd, hdb, hdl⟩ := ih _ (j + 2) (P ++ [x0, x1]) W' R hb2
      (by simp only [List.length_append, List.length_cons, List.length_nil, hP]; omega) hW'
      (by simp only [List.length_cons] at hn; omega)
    refine ⟨d, ?_, ?_, hdl⟩
    · simp only [encodeLoop, storeAt_of_lt (show j < n by simp only [List.length_cons] at hn; omega),
      storeAt_of_lt (show j + 1 < n by simp only [List.length_cons] at hn; omega), ok_bind]
      exact hd
    · rw [hdb, List.flatMap_cons]
      simp only [List.append_assoc, List.cons_append, List.nil_append]
      rfl

/-- `hex.Encode` through a window of exactly `2 * src.length` elements after the front `P`. -/
theorem encode_spec {dst : Slice UInt8} {P W R : List UInt8} {src : List UInt8}
    (hb : dst.backing = P ++ W ++ R) (hW : W.length = 2 * src.length) :
    ∃ d, encode dst P.length (P.length + 2 * src.length) src = .ok d ∧
      d.backing = P ++ src.flatMap digits ++ R ∧ d.len = dst.len := by
  have hcap : P.length + 2 * src.length ≤ dst.cap := by
    simp only [cap, hb, List.length_append, hW]
    omega
  unfold encode
  rw [if_pos ⟨Nat.le_add_right _ _, hcap⟩]
  exact encodeLoop_spec src dst 0 P W R hb (by omega) hW (by omega)

end Hex

end Go
