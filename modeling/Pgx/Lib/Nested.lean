import Mathlib.Algebra.Order.BigOperators.GroupWithZero.List
import Mathlib.Data.List.Basic
import Mathlib.Algebra.Order.Ring.Nat

/-!
# Nested and flat layouts of a multi-dimensional array

An array of shape `[d₀, …, dₖ₋₁]` (the lengths of its dimensions, outermost first) keeps its
elements in row-major order: element `r` of block `j` of a dimension whose blocks hold `Q`
elements each has the flat index `j * Q + r`. As text the array is nested: an opening token, the
blocks separated by a separator, a closing token (`nested`). A writer that walks the flat indices
writes the same text without recursion: before element `i` an opening token for each dimension
one of whose blocks starts at `i`, after it a closing token for each one whose block ends there
(`flat`). A block of the dimension `m` holds the product of the lengths from `m` on
(`suffixProducts`), so it starts at `i` when that product divides `i`.

* `range_mul`, `flatMap_range_ends`: the flat indices split into blocks, and what a block writes
  only at its first or at its last index comes out in front of it or after it;
* `foldl_append_if`, `foldlM_range_append`: a loop that appends builds a `replicate` or a
  `flatMap`;
* `flat_eq_nested`: the two layouts are the same text.
-/

namespace Nested

variable {α : Type}

/-- The indices `0, …, d * Q - 1`, block by block. -/
theorem range_mul (d Q : Nat) :
    List.range (d * Q) = (List.range d).flatMap fun j => (List.range Q).map (j * Q + ·) := by
  induction d with
  | zero => simp
  | succ d ih =>
    rw [Nat.succ_mul, List.range_add, ih, List.range_succ, List.flatMap_append, List.flatMap_singleton]

theorem flatMap_range_first {P : Nat} (hP : 0 < P) (a : List α) (g : Nat → List α) :
    (List.range P).flatMap (fun r => (if r = 0 then a else []) ++ g r) = a ++ (List.range P).flatMap g := by
  obtain ⟨n, rfl⟩ := Nat.exists_eq_add_of_lt hP
  simp [List.range_succ_eq_map, List.flatMap_map]

theorem flatMap_range_last {P : Nat} (hP : 0 < P) (z : List α) (g : Nat → List α) :
    (List.range P).flatMap (fun r => g r ++ (if r + 1 = P then z else [])) = (List.range P).flatMap g ++ z := by
  obtain ⟨n, rfl⟩ := Nat.exists_eq_add_of_lt hP
  rw [Nat.zero_add, List.range_succ, List.flatMap_append, List.flatMap_append, List.flatMap_singleton,
    List.flatMap_singleton, if_pos rfl]
  have hbody : ∀ r ∈ List.range n, g r ++ (if r + 1 = n + 1 then z else []) = g r := by
    intro r hr
    rw [if_neg (by simp at hr; omega), List.append_nil]
  rw [List.flatMap_congr hbody]
  simp only [List.append_assoc]

/-- What a block writes only at its first index comes out in front of it, and what it writes
only at its last index comes out after it. -/
theorem flatMap_range_ends {P : Nat} (hP : 0 < P) (a z : List α) (g : Nat → List α) :
    (List.range P).flatMap (fun r => (if r = 0 then a else []) ++ g r ++ (if r + 1 = P then z else [])) =
      a ++ (List.range P).flatMap g ++ z := by
  simp only [List.append_assoc]
  rw [flatMap_range_first hP a, flatMap_range_last hP z]

/-- A loop that appends `x` for each item that passes a test appends as many copies of `x`. -/
theorem foldl_append_if {β : Type} (p : β → Prop) [DecidablePred p] (x : α) :
    ∀ (l : List β) (buf : List α),
      l.foldl (fun buf b => if p b then buf ++ [x] else buf) buf = buf ++ List.replicate (l.countP p) x
  | [], buf => by simp
  | b :: l, buf => by
    rw [List.foldl_cons, foldl_append_if p x l, List.countP_cons]
    by_cases hb : p b
    · simp [hb, List.replicate_succ]
    · simp [hb]

/-- A loop over `0, …, n - 1` whose every pass that returns appends `g i` to the buffer. -/
theorem foldlM_range_append {ε : Type} {f : List α → Nat → Except ε (List α)} {g : Nat → List α} :
    ∀ {n : Nat}, (∀ i < n, ∀ buf, f buf i = .ok (buf ++ g i)) →
      ∀ buf, (List.range n).foldlM f buf = .ok (buf ++ (List.range n).flatMap g)
  | 0, _, buf => by simp [pure, Except.pure]
  | n + 1, h, buf => by
    rw [List.range_succ, List.foldlM_append, foldlM_range_append (fun i hi => h i (by omega)) buf]
    simp [h n (by omega), bind, Except.bind, pure, Except.pure]

/-- The number of elements in one block of each dimension: its length times those after it. -/
def suffixProducts : List Nat → List Nat
  | [] => []
  | d :: ds => d * ds.prod :: suffixProducts ds

section Layout

variable (lb rb sep : α) (text : Nat → List α)

/-- The nested layout of the block of shape `ls` whose first element has the flat index `off`. -/
def nested : List Nat → Nat → List α
  | [], off => text off
  | d :: ds, off =>
    lb :: ((List.range d).flatMap (fun j => (if 0 < j then [sep] else []) ++ nested ds (off + j * ds.prod)) ++
      [rb])

/-- The piece a flat writer writes for the index `i`: a separator after the first of the block
that starts at `off`, an opening token for each block size in `counts` that divides `i`, the
element, and a closing token for each that divides `i + 1`. -/
def flatPiece (counts : List Nat) (off r : Nat) : List α :=
  (if 0 < r then [sep] else []) ++ List.replicate (counts.countP (· ∣ off + r)) lb ++ text (off + r) ++
    List.replicate (counts.countP (· ∣ off + r + 1)) rb

/-- The flat layout of the `P` elements from the flat index `off` on. -/
def flat (counts : List Nat) (off P : Nat) : List α := (List.range P).flatMap (flatPiece lb rb sep text counts off)

variable {lb rb sep text}

/-- In a block of `d * Q` elements that starts at a multiple of `d * Q`, only the first index is a
multiple. -/
theorem dvd_block_iff {d Q off j r : Nat} (hoff : d * Q ∣ off) (hj : j < d) (hr : r < Q) :
    d * Q ∣ off + (j * Q + r) ↔ j = 0 ∧ r = 0 := by
  rw [Nat.dvd_add_right hoff]
  constructor
  · intro h
    have hlt : j * Q + r < d * Q := by
      have : (j + 1) * Q ≤ d * Q := Nat.mul_le_mul_right Q hj
      rw [Nat.succ_mul] at this
      omega
    have h0 := Nat.eq_zero_of_dvd_of_lt h hlt
    have hQ : 0 < Q := by omega
    refine ⟨?_, by omega⟩
    rcases Nat.eq_zero_or_pos j with hj0 | hj0
    · exact hj0
    · have : Q ≤ j * Q := Nat.le_mul_of_pos_left Q hj0
      omega
  · rintro ⟨rfl, rfl⟩
    simp

/-- In such a block only the last index is one short of a multiple. -/
theorem dvd_block_succ_iff {d Q off j r : Nat} (hoff : d * Q ∣ off) (hj : j < d) (hr : r < Q) :
    d * Q ∣ off + (j * Q + r) + 1 ↔ j + 1 = d ∧ r + 1 = Q := by
  rw [Nat.add_assoc, Nat.dvd_add_right hoff]
  have hle : (j + 1) * Q ≤ d * Q := Nat.mul_le_mul_right Q hj
  rw [Nat.succ_mul] at hle
  constructor
  · intro h
    have hpos : 0 < j * Q + r + 1 := by omega
    have h1 := Nat.le_of_dvd hpos h
    have heq : j * Q + r + 1 = d * Q := by omega
    have hjd : j + 1 = d := by
      by_contra hne
      have : (j + 2) * Q ≤ d * Q := Nat.mul_le_mul_right Q (by omega)
      rw [Nat.add_mul] at this
      omega
    subst hjd
    rw [Nat.succ_mul] at heq
    exact ⟨rfl, by omega⟩
  · rintro ⟨rfl, rfl⟩
    exact ⟨1, by rw [Nat.mul_one, Nat.succ_mul]; omega⟩

/-- The piece of index `j * Q + r` in a block of `d * Q` elements: the piece of index `r` of the
`j`-th block of `Q`, after the opening token of the outer block and a separator between blocks,
and before its closing token. -/
theorem flatPiece_block {d Q off j r : Nat} (counts : List Nat) (hoff : d * Q ∣ off) (hj : j < d)
    (hr : r < Q) :
    flatPiece lb rb sep text (d * Q :: counts) off (j * Q + r) =
      (if r = 0 then (if j = 0 then [lb] else [sep]) else []) ++
        flatPiece lb rb sep text counts (off + j * Q) r ++ (if r + 1 = Q then (if j + 1 = d then [rb] else []) else []) := by
  have hidx : off + (j * Q + r) = off + j * Q + r := by omega
  -- the outer block adds an opening token at its first index and a closing one at its last
  have hopen : List.replicate ((d * Q :: counts).countP (· ∣ off + (j * Q + r))) lb =
      (if j = 0 ∧ r = 0 then [lb] else []) ++ List.replicate (counts.countP (· ∣ off + j * Q + r)) lb := by
    have hiff := dvd_block_iff hoff hj hr
    rw [List.countP_cons, ← hidx]
    by_cases h : j = 0 ∧ r = 0
    · obtain ⟨rfl, rfl⟩ := h
      simp [hoff, List.replicate_succ]
    · simp [mt hiff.mp h, h]
  have hclose : List.replicate ((d * Q :: counts).countP (· ∣ off + (j * Q + r) + 1)) rb =
      List.replicate (counts.countP (· ∣ off + j * Q + r + 1)) rb ++ (if j + 1 = d ∧ r + 1 = Q then [rb] else []) := by
    have hiff := dvd_block_succ_iff hoff hj hr
    rw [List.countP_cons, ← hidx]
    by_cases h : j + 1 = d ∧ r + 1 = Q
    · simp [hiff.mpr h, h, List.replicate_succ']
    · simp [mt hiff.mp h, h]
  -- the separator of index `j * Q + r` is the one between blocks at `r = 0`, and the inner one after
  have hfront : ∀ t : List α, (if 0 < j * Q + r then [sep] else []) ++ ((if j = 0 ∧ r = 0 then [lb] else []) ++ t) =
      (if r = 0 then (if j = 0 then [lb] else [sep]) else []) ++ ((if 0 < r then [sep] else []) ++ t) := by
    intro t
    have hQ : 0 < Q := by omega
    by_cases hr0 : r = 0
    · subst hr0
      by_cases hj0 : j = 0
      · simp [hj0]
      · simp [hj0, Nat.mul_pos (Nat.pos_of_ne_zero hj0) hQ]
    · rw [if_pos (by omega)]
      simp [hr0, Nat.pos_of_ne_zero hr0]
  have hback : (if j + 1 = d ∧ r + 1 = Q then [rb] else []) =
      (if r + 1 = Q then (if j + 1 = d then [rb] else []) else []) := by
    by_cases hr1 : r + 1 = Q <;> by_cases hj1 : j + 1 = d <;> simp [hr1, hj1]
  unfold flatPiece
  rw [hopen, hclose, hidx, ← hback]
  simp only [List.append_assoc]
  rw [hfront]

/-- The flat layout of a block is its nested layout: the writer that walks the indices and counts
the block sizes that divide them writes the braces of the nested array. -/
theorem flat_eq_nested : ∀ (ls : List Nat), (∀ d ∈ ls, 0 < d) → ∀ off, ls.prod ∣ off →
    flat lb rb sep text (suffixProducts ls) off ls.prod = nested lb rb sep text ls off
  | [], _, off, _ => by simp [flat, flatPiece, nested, suffixProducts]
  | d :: ds, hpos, off, hoff => by
    have hd : 0 < d := hpos d List.mem_cons_self
    have hQ : 0 < ds.prod := List.prod_pos fun x hx => hpos x (List.mem_cons_of_mem d hx)
    rw [List.prod_cons] at hoff
    -- each block of the outer dimension is a block of the inner shape, at its own offset
    have hinner : ∀ j, ds.prod ∣ off + j * ds.prod := fun j =>
      Nat.dvd_add (Nat.dvd_trans (Nat.dvd_mul_left _ _) hoff) (Nat.dvd_mul_left _ _)
    have hblock : ∀ j ∈ List.range d,
        ((List.range ds.prod).map (j * ds.prod + ·)).flatMap (flatPiece lb rb sep text (suffixProducts (d :: ds)) off) =
          (if j = 0 then [lb] else []) ++
            ((if 0 < j then [sep] else []) ++ nested lb rb sep text ds (off + j * ds.prod)) ++
            (if j + 1 = d then [rb] else []) := by
      intro j hj
      rw [List.mem_range] at hj
      rw [List.flatMap_map, suffixProducts]
      have hpiece : ∀ r ∈ List.range ds.prod,
          flatPiece lb rb sep text (d * ds.prod :: suffixProducts ds) off (j * ds.prod + r) =
            (if r = 0 then (if j = 0 then [lb] else [sep]) else []) ++
              flatPiece lb rb sep text (suffixProducts ds) (off + j * ds.prod) r ++
              (if r + 1 = ds.prod then (if j + 1 = d then [rb] else []) else []) :=
        fun r hr => flatPiece_block _ hoff hj (List.mem_range.mp hr)
      rw [List.flatMap_congr hpiece, flatMap_range_ends hQ, ← flat,
        flat_eq_nested ds (fun x hx => hpos x (List.mem_cons_of_mem d hx)) _ (hinner j)]
      by_cases hj0 : j = 0 <;> simp [hj0, Nat.pos_iff_ne_zero]
    rw [flat, List.prod_cons, range_mul, List.flatMap_assoc, List.flatMap_congr hblock,
      flatMap_range_ends hd, nested]
    simp
end Layout

end Nested
