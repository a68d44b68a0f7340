import Pgx.Go.Slices
import Pgx.Lib.Transition

/-!
# `iobufpool`: buffers in eighteen size classes

`Get(size)` takes a buffer from the pool of the smallest class that holds `size` bytes, class `i`
being `256 * 2^i` bytes for `i < 18`, and reslices it to `size`; a size past the largest class
gets a buffer of its own. `Put(buf)` gives a buffer to the pool of the class its capacity is, and
drops a buffer of any other capacity.

`getPoolIdx` finds the class by shifting: `getPoolIdx_isLeast` proves it is the smallest class
that holds `size`, for every `size`, zero included (where `size--` gives `-1`, which the
arithmetic shift keeps). `putPoolIdx` finds it by comparing with each class size.

A `sync.Pool` hands out any buffer it holds, or a new one from its `New`, and may drop a buffer at
any time. `step` takes `Get`, `Put` and such drops in any order; `Inv.of_reachable` proves that
every pool holds only buffers of its class's capacity in every reachable state, and `get_spec`
what follows for `Get`: no panic, and a buffer of length `size` and capacity at least `size`, at
most `2 * size` when `size > 256`.
-/

namespace Pgx.Iobufpool

open Go Go.Slice

/-- `minPoolExpOf2`: the smallest class is `2^8` bytes. -/
def minPoolExpOf2 : Nat := 8

/-- `len(pools)`. -/
def poolCount : Nat := 18

/-- The loop of `getPoolIdx`: `for size > 0 { size >>= 1; i++ }`. -/
def shiftLoop (size : Int) (i : Nat) : Nat :=
  if 0 < size then shiftLoop (size >>> (1 : Nat)) (i + 1) else i
termination_by size.toNat
decreasing_by
  rw [Int.shiftRight_eq_div_pow]
  push_cast
  omega

/-- `getPoolIdx(size)`: `size--`, `size >>= minPoolExpOf2`, and then the loop. -/
def getPoolIdx (size : Int) : Nat := shiftLoop ((size - 1) >>> minPoolExpOf2) 0

/-- `putPoolIdx(size)`: the first `i` of the pools with `size == minPoolSize << i`, or `-1`. -/
def putPoolIdx (size : Nat) : Int :=
  match (List.range poolCount).find? (fun i => size = (1 <<< minPoolExpOf2) <<< i) with
  | some i => i
  | none => -1

/-! ### The size classes -/

/-- The loop counts the bits of a natural number. -/
theorem shiftLoop_natCast (m : Nat) : ∀ i, shiftLoop m i = i + m.size := by
  induction m using Nat.strong_induction_on with
  | _ m ih =>
    intro i
    rw [shiftLoop]
    split
    · rename_i hpos
      have hm : 0 < m := by exact_mod_cast hpos
      have hshift : (m : Int) >>> (1 : Nat) = ((m >>> 1 : Nat) : Int) := by
        rw [Int.shiftRight_eq_div_pow, Nat.shiftRight_eq_div_pow]
        push_cast
        rfl
      -- one bit fewer after the shift
      have hsize : m.size = (m >>> 1).size + 1 := by
        conv_lhs => rw [← Nat.bit_decide_mod_two_eq_one_shiftRight_one m]
        rw [Nat.size_bit (by rw [Nat.bit_decide_mod_two_eq_one_shiftRight_one]; omega)]
      rw [hshift, ih _ (by rw [Nat.shiftRight_eq_div_pow]; omega), hsize]
      omega
    · rename_i hz
      have hm : m = 0 := by omega
      subst hm
      rfl

/-- A negative number stops the loop at once. -/
theorem shiftLoop_of_nonpos {size : Int} (h : size ≤ 0) (i : Nat) : shiftLoop size i = i := by
  rw [shiftLoop, if_neg (by omega)]

/-- **`getPoolIdx` is the smallest class that holds `size` bytes.** -/
theorem getPoolIdx_isLeast (size : Nat) : IsLeast {i | size ≤ 256 * 2 ^ i} (getPoolIdx size) := by
  rcases Nat.eq_zero_or_pos size with rfl | hpos
  · -- `size--` is `-1`, and stays `-1` through the shift
    have h0 : getPoolIdx ((0 : Nat) : Int) = 0 := shiftLoop_of_nonpos (by decide) 0
    rw [h0]
    exact ⟨Nat.zero_le _, fun j _ => Nat.zero_le j⟩
  · have hshift : ((size : Int) - 1) >>> minPoolExpOf2 = (((size - 1) / 256 : Nat) : Int) := by
      rw [Int.shiftRight_eq_div_pow]
      simp only [minPoolExpOf2]
      push_cast
      omega
    have hidx : getPoolIdx size = ((size - 1) / 256).size := by
      rw [getPoolIdx, hshift, shiftLoop_natCast, Nat.zero_add]
    -- `size ≤ 256 * 2^j` exactly when `(size - 1) / 256 < 2^j`
    have hiff : ∀ j, size ≤ 256 * 2 ^ j ↔ ((size - 1) / 256).size ≤ j := by
      intro j
      rw [Nat.size_le, Nat.div_lt_iff_lt_mul (by norm_num)]
      omega
    rw [hidx]
    exact ⟨(hiff _).2 le_rfl, fun j hj => (hiff j).1 hj⟩

/-- `putPoolIdx` names a class only for a capacity of that class's size, and never one past the
pools. -/
theorem putPoolIdx_spec {c : Nat} {i : Int} (h : putPoolIdx c = i) (hi : 0 ≤ i) :
    i.toNat < poolCount ∧ c = 256 * 2 ^ i.toNat := by
  unfold putPoolIdx at h
  split at h
  · rename_i k hk
    subst h
    have hmem := List.mem_range.1 (List.mem_of_find?_eq_some hk)
    have hc : c = 1 <<< minPoolExpOf2 <<< k := by simpa using List.find?_some hk
    refine ⟨by simpa using hmem, ?_⟩
    rw [hc, Int.toNat_natCast, Nat.shiftLeft_eq, Nat.one_shiftLeft]
    simp [minPoolExpOf2, Nat.mul_comm]
  · omega

/-! ### The pools -/

/-- The buffers each `sync.Pool` holds; a `*[]byte` is the slice it points to. -/
structure Pools where
  pools : Fin poolCount → List (Slice UInt8)

/-- `make([]byte, bufLen)` with `bufLen := 1 << (minPoolExpOf2 + i)`, the `New` of pool `i`. -/
def newBuf (i : Nat) : Slice UInt8 :=
  Slice.make 0 (1 <<< (minPoolExpOf2 + i)) (1 <<< (minPoolExpOf2 + i)) le_rfl

namespace Pools

/-- `pools[i].Get()`: the buffer at position `k` of the pool, taken out of it, when `choice` is
`some k` and there is one; otherwise a new one. -/
def get (p : Pools) (i : Fin poolCount) (choice : Option Nat) : Slice UInt8 × Pools :=
  match choice with
  | some k =>
    match (p.pools i)[k]? with
    | some b => (b, ⟨Function.update p.pools i ((p.pools i).eraseIdx k)⟩)
    | none => (newBuf i, p)
  | none => (newBuf i, p)

/-- `pools[i].Put(buf)`. -/
def put (p : Pools) (i : Fin poolCount) (b : Slice UInt8) : Pools :=
  ⟨Function.update p.pools i (b :: p.pools i)⟩

/-- Pool `i` dropping the buffer at position `k`, as a `sync.Pool` may at any time. -/
def drop (p : Pools) (i : Fin poolCount) (k : Nat) : Pools :=
  ⟨Function.update p.pools i ((p.pools i).eraseIdx k)⟩

/-- The pools before any call: `New` only. -/
def empty : Pools := ⟨fun _ => []⟩

end Pools

/-- `Get(size)`: the buffer resliced to `size`, or the panic of the reslice, and the pools after
it. -/
def get (p : Pools) (size : Nat) (choice : Option Nat) : GoM (Slice UInt8) × Pools :=
  let i := getPoolIdx size
  if h : i < poolCount then
    -- `ptrBuf := pools[i].Get()`, then `*ptrBuf = (*ptrBuf)[:size]`
    ((p.get ⟨i, h⟩ choice).1.reslice size, (p.get ⟨i, h⟩ choice).2)
  else (.ok (Slice.make 0 size size le_rfl), p)

/-- `Put(buf)`: a capacity of no class is dropped; indexing `pools` past its end would panic. -/
def put (p : Pools) (buf : Slice UInt8) : GoM Pools :=
  let i := putPoolIdx buf.cap
  if i < 0 then .ok p
  else if h : i.toNat < poolCount then .ok (p.put ⟨i.toNat, h⟩ buf)
  else .error (.panic "index out of range")

/-- The calls on the pools, and the drops a `sync.Pool` makes on its own. -/
inductive Op
  | get (size : Nat) (choice : Option Nat)
  | put (buf : Slice UInt8)
  | drop (i : Fin poolCount) (k : Nat)

/-- One call or drop; a call that panics ends the run. -/
def step (p : Pools) : Op → Option Pools
  | .get size choice =>
    match get p size choice with
    | (.ok _, p') => some p'
    | (.error _, _) => none
  | .put buf => (put p buf).toOption
  | .drop i k => some (p.drop i k)

/-- The states the pools reach from `Pools.empty`. -/
def Reachable : Pools → Prop := Transition.Reachable step (· = Pools.empty)

/-! ### The capacity invariant -/

/-- Every buffer of pool `i` has the capacity of class `i`. -/
def Inv (p : Pools) : Prop := ∀ i : Fin poolCount, ∀ b ∈ p.pools i, b.cap = 256 * 2 ^ (i : Nat)

theorem newBuf_cap (i : Nat) : (newBuf i).cap = 256 * 2 ^ i := by
  simp [newBuf, cap, Slice.make, Nat.one_shiftLeft, minPoolExpOf2, pow_add]

/-- Taking a buffer out of a pool, or dropping one, keeps only buffers that were there. -/
theorem Inv.update_sub {p : Pools} (hp : Inv p) {i : Fin poolCount} {l : List (Slice UInt8)}
    (hl : ∀ b ∈ l, b ∈ p.pools i) : Inv ⟨Function.update p.pools i l⟩ := by
  intro j b hb
  dsimp only at hb
  by_cases hj : j = i
  · subst hj
    rw [Function.update_self] at hb
    exact hp j b (hl b hb)
  · rw [Function.update_of_ne hj] at hb
    exact hp j b hb

/-- `pools[i].Get()` returns a buffer of class `i` and keeps the invariant. -/
theorem Inv.poolGet {p : Pools} (hp : Inv p) (i : Fin poolCount) (choice : Option Nat) :
    (p.get i choice).1.cap = 256 * 2 ^ (i : Nat) ∧ Inv (p.get i choice).2 := by
  unfold Pools.get
  split
  · rename_i k
    split
    · rename_i b hb
      exact ⟨hp i b (List.mem_of_getElem? hb), hp.update_sub fun b' => List.mem_of_mem_eraseIdx⟩
    · exact ⟨newBuf_cap i, hp⟩
  · exact ⟨newBuf_cap i, hp⟩

theorem Inv.put {p p' : Pools} (hp : Inv p) {buf : Slice UInt8} (h : put p buf = .ok p') : Inv p' := by
  unfold Iobufpool.put at h
  dsimp only at h
  split at h
  · cases h
    exact hp
  · rename_i hi
    split at h
    · cases h
      -- the class `putPoolIdx` names is the buffer's capacity
      obtain ⟨-, hc⟩ := putPoolIdx_spec (c := buf.cap) rfl (by omega)
      intro j b hb
      by_cases hj : j = ⟨(putPoolIdx buf.cap).toNat, by omega⟩
      · subst hj
        rw [Pools.put] at hb
        dsimp only at hb
        rw [Function.update_self, List.mem_cons] at hb
        rcases hb with rfl | hb
        · exact hc
        · exact hp _ b hb
      · rw [Pools.put] at hb
        dsimp only at hb
        rw [Function.update_of_ne hj] at hb
        exact hp j b hb
    · cases h

theorem Inv.get {p : Pools} (hp : Inv p) (size : Nat) (choice : Option Nat) :
    Inv (get p size choice).2 := by
  unfold Iobufpool.get
  dsimp only
  split
  · exact (hp.poolGet _ choice).2
  · exact hp

/-- **Every step keeps the invariant.** -/
theorem Inv.step {p p' : Pools} (hp : Inv p) {op : Op} (h : step p op = some p') : Inv p' := by
  cases op with
  | get size choice =>
    simp only [Iobufpool.step] at h
    split at h
    · rename_i r p'' hget
      cases h
      have hinv := hp.get size choice
      rw [hget] at hinv
      exact hinv
    · cases h
  | put buf =>
    simp only [Iobufpool.step] at h
    cases hput : Iobufpool.put p buf with
    | error e =>
      simp only [hput, Except.toOption] at h
      cases h
    | ok q =>
      simp only [hput, Except.toOption, Option.some.injEq] at h
      subst h
      exact hp.put hput
  | drop i k =>
    cases h
    exact hp.update_sub fun b => List.mem_of_mem_eraseIdx

theorem Inv.of_reachable {p : Pools} (h : Reachable p) : Inv p :=
  Transition.Reachable.invariant (fun _ h0 => h0 ▸ fun _ _ hb => nomatch hb)
    (fun _ _ _ hp hs => hp.step hs) h

/-- **`Get(size)` from pools that keep the invariant**: no panic, `size` bytes, a capacity of at
least `size`, and at most `2 * size` when `size > 256`. -/
theorem get_spec {p : Pools} (hp : Inv p) (size : Nat) (choice : Option Nat) :
    ∃ b, (get p size choice).1 = .ok b ∧ b.len = size ∧ size ≤ b.cap ∧
      (256 < size → b.cap ≤ 2 * size) := by
  obtain ⟨hfits, hleast⟩ := getPoolIdx_isLeast size
  unfold get
  dsimp only
  split
  · rename_i hi
    obtain ⟨hcap, -⟩ := hp.poolGet ⟨getPoolIdx size, hi⟩ choice
    have hle : size ≤ (p.get ⟨getPoolIdx size, hi⟩ choice).1.cap := by
      rw [hcap]
      exact hfits
    refine ⟨_, reslice_of_le hle, rfl, hle, fun hbig => ?_⟩
    -- past the smallest class, the class below is too small for `size`
    obtain ⟨j, hj⟩ : ∃ j, getPoolIdx size = j + 1 := by
      refine Nat.exists_eq_succ_of_ne_zero fun h0 => ?_
      have h256 : size ≤ 256 * 2 ^ 0 := h0 ▸ hfits
      omega
    have hbelow : ¬ size ≤ 256 * 2 ^ j := fun h => by
      have := hleast h
      omega
    show (p.get ⟨getPoolIdx size, hi⟩ choice).1.cap ≤ 2 * size
    rw [hcap, Fin.val_mk, hj, pow_succ]
    omega
  · refine ⟨_, rfl, rfl, by simp [cap, Slice.make], fun _ => by simp [cap, Slice.make]; omega⟩

/-- **The size classes of the pools.** `getPoolIdx(size)` is the smallest `i` with
`size ≤ 256 * 2^i`; in every state the pools reach, whatever buffers `Put` was given, pool `i`
holds only buffers of capacity `256 * 2^i`; and so `Get(size)` returns `size` bytes in a buffer of
capacity at least `size`, and at most `2 * size` when `size > 256`. -/
theorem iobufpool_sizeClasses {p : Pools} (hp : Reachable p) :
    (∀ size : Nat, IsLeast {i | size ≤ 256 * 2 ^ i} (getPoolIdx size)) ∧
      (∀ i : Fin poolCount, ∀ b ∈ p.pools i, b.cap = 256 * 2 ^ (i : Nat)) ∧
      ∀ size choice, ∃ b, (get p size choice).1 = .ok b ∧ b.len = size ∧ size ≤ b.cap ∧
        (256 < size → b.cap ≤ 2 * size) := by
  have hinv : Inv p := Inv.of_reachable hp
  exact ⟨getPoolIdx_isLeast, hinv, get_spec hinv⟩

/-- The pools after a 512-byte buffer, a 100-byte one and a 256-byte one are put, and the pool
drops the 256-byte one. -/
def putBack : Pools :=
  (Transition.Runs step Pools.empty
    [.put (newBuf 1), .put (Slice.make 0 100 100 le_rfl), .put (newBuf 0), .drop ⟨0, by decide⟩ 0]).getD
    Pools.empty

set_option maxRecDepth 4000 in
theorem iobufpool_sizeClasses_putBack :
    Reachable putBack ∧
      ((∀ size : Nat, IsLeast {i | size ≤ 256 * 2 ^ i} (getPoolIdx size)) ∧
        (∀ i : Fin poolCount, ∀ b ∈ putBack.pools i, b.cap = 256 * 2 ^ (i : Nat)) ∧
        ∀ size choice, ∃ b, (get putBack size choice).1 = .ok b ∧ b.len = size ∧ size ≤ b.cap ∧
          (256 < size → b.cap ≤ 2 * size)) :=
  have hr : Reachable putBack :=
    Transition.Reachable.runs (Transition.Reachable.of_init rfl)
      (show Transition.Runs step Pools.empty
        [.put (newBuf 1), .put (Slice.make 0 100 100 le_rfl), .put (newBuf 0), .drop ⟨0, by decide⟩ 0] =
          some putBack from rfl)
  ⟨hr, iobufpool_sizeClasses hr⟩

end Pgx.Iobufpool
