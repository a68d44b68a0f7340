import Mathlib

/-!
# Go's `strings` helpers and `net.SplitHostPort`

What the connection-string parser calls on its strings. A Go string is modelled as the list of
its characters: every character these functions look for is ASCII, and no byte of a multi-byte
character is ASCII, so an index into the bytes and one into the characters cut out the same
pieces.

* `split` and `join` for a one-character separator, `trim`, `trimLeft`, `index`, `lastIndex`
  and `replace`;
* `splitHostPort`, with the texts of the `AddrError` it returns.
-/

namespace Go.Strings

/-- `strings.Split(s, sep)` for a one-character separator. -/
def split (s : List Char) (sep : Char) : List (List Char) := s.splitOn sep

/-- `strings.Join(elems, sep)` for a one-character separator. -/
def join (elems : List (List Char)) (sep : Char) : List Char := [sep].intercalate elems

/-- `strings.TrimLeft(s, cutset)`. -/
def trimLeft (s cutset : List Char) : List Char := s.dropWhile fun c => decide (c ∈ cutset)

/-- `strings.Trim(s, cutset)`: `TrimLeft`, then the same from the right. -/
def trim (s cutset : List Char) : List Char :=
  (trimLeft s cutset).rdropWhile fun c => decide (c ∈ cutset)

/-- `strings.IndexByte(s, c)` and `strings.IndexRune(s, c)`: the index of the first `c`, or
`-1`. -/
def index (s : List Char) (c : Char) : Int := if c ∈ s then s.idxOf c else -1

/-- `strings.LastIndexByte(s, c)`: the index of the last `c`, or `-1`. -/
def lastIndex (s : List Char) (c : Char) : Int :=
  if c ∈ s then ((s.length - 1 - s.reverse.idxOf c : Nat) : Int) else -1

/-- `strings.SplitN(s, sep, n)` for a one-character separator and `n ≥ 0`: at most `n` pieces, the
last one holding the rest of `s`. -/
def splitN (s : List Char) (sep : Char) : Nat → List (List Char)
  | 0 => []
  | 1 => [s]
  | n + 2 => if sep ∈ s then s.take (s.idxOf sep) :: splitN (s.drop (s.idxOf sep + 1)) sep (n + 1) else [s]

/-- `strings.Cut(s, sep)` for a one-character separator: what stands before and after the first
`sep`, and whether there is one. -/
def cut (s : List Char) (sep : Char) : List Char × List Char × Bool :=
  if sep ∈ s then (s.take (s.idxOf sep), s.drop (s.idxOf sep + 1), true) else (s, [], false)

/-- `strings.Replace(s, old, new, -1)` for a non-empty `old`: every occurrence of `old`, from the
left and without overlaps, is replaced by `new`. -/
def replace (s old new : List Char) : List Char :=
  match s with
  | [] => []
  | c :: cs =>
    if _h : old ≠ [] ∧ old.isPrefixOf (c :: cs) then new ++ replace ((c :: cs).drop old.length) old new
    else c :: replace cs old new
termination_by s.length
decreasing_by
  · have := List.length_pos_of_ne_nil _h.1
    simp only [List.length_drop, List.length_cons]
    omega
  · simp

theorem split_join {ls : List (List Char)} {sep : Char} (h : ∀ l ∈ ls, sep ∉ l) (hne : ls ≠ []) :
    split (join ls sep) sep = ls :=
  List.splitOn_intercalate sep h hne

/-- Joining pieces and a last one: each piece followed by the separator, then the last. -/
theorem join_append_singleton (ps : List (List Char)) (last : List Char) (sep : Char) :
    join (ps ++ [last]) sep = ps.flatMap (· ++ [sep]) ++ last := by
  induction ps with
  | nil => simp [join]
  | cons p ps ih =>
    obtain ⟨q, qs, hq⟩ := List.exists_cons_of_ne_nil (List.append_ne_nil_of_right_ne_nil ps (List.cons_ne_nil last []))
    rw [join] at ih ⊢
    rw [List.cons_append, hq, List.intercalate_cons_cons, ← hq, ih, List.flatMap_cons]
    simp

theorem trim_of_forall_not_mem {s cutset : List Char} (h : ∀ c ∈ s, c ∉ cutset) : trim s cutset = s := by
  have hl : trimLeft s cutset = s := by
    rw [trimLeft, List.dropWhile_eq_self_iff]
    intro hl
    simpa using h _ (List.getElem_mem hl)
  rw [trim, hl, List.rdropWhile_eq_self_iff]
  intro hne
  simpa using h _ (List.getLast_mem hne)

/-- The first separator of `a ++ sep :: b`, with none in `a`. -/
theorem take_drop_idxOf {a b : List Char} {sep : Char} (h : sep ∉ a) :
    (a ++ sep :: b).take ((a ++ sep :: b).idxOf sep) = a ∧
      (a ++ sep :: b).drop ((a ++ sep :: b).idxOf sep + 1) = b := by
  have hidx : (a ++ sep :: b).idxOf sep = a.length := by
    rw [List.idxOf_append_of_notMem h, List.idxOf_cons_self, Nat.add_zero]
  rw [hidx, List.take_left]
  refine ⟨rfl, ?_⟩
  rw [List.drop_append, List.drop_eq_nil_of_le (by omega), List.nil_append, Nat.add_sub_cancel_left]
  rfl

theorem splitN_three {a b c : List Char} {sep : Char} (ha : sep ∉ a) (hb : sep ∉ b) :
    splitN (a ++ sep :: b ++ sep :: c) sep 3 = [a, b, c] := by
  have h1 := take_drop_idxOf (b := b ++ sep :: c) ha
  have h2 := take_drop_idxOf (b := c) hb
  rw [List.append_assoc, List.cons_append] at *
  simp only [splitN, List.mem_append, List.mem_cons, true_or, or_true, if_true, h1.1, h1.2, h2.1, h2.2]

theorem cut_of_mem {a b : List Char} {sep : Char} (h : sep ∉ a) : cut (a ++ sep :: b) sep = (a, b, true) := by
  have := take_drop_idxOf (b := b) h
  simp [cut, this.1, this.2]

theorem cut_of_not_mem {s : List Char} {sep : Char} (h : sep ∉ s) : cut s sep = (s, [], false) := by
  simp [cut, h]

theorem index_of_not_mem {s : List Char} {c : Char} (h : c ∉ s) : index s c = -1 := by
  simp [index, h]

theorem lastIndex_of_last {u t : List Char} {c : Char} (ht : c ∉ t) : lastIndex (u ++ c :: t) c = u.length := by
  have hr : (u ++ c :: t).reverse.idxOf c = t.length := by
    rw [List.reverse_append, List.reverse_cons, List.append_assoc,
      List.idxOf_append_of_notMem (by simpa using ht)]
    simp
  simp only [lastIndex, List.mem_append, List.mem_cons, true_or, or_true, if_true, hr,
    List.length_append, List.length_cons]
  omega

/-- Where the first character of `old` does not occur, `Replace` has nothing to replace. -/
theorem replace_of_not_mem {o : Char} {os new : List Char} :
    ∀ {s : List Char}, o ∉ s → replace s (o :: os) new = s
  | [], _ => by simp [replace]
  | c :: cs, h => by
    have hc : c ≠ o := fun hc => h (hc ▸ List.mem_cons_self)
    have hnp : ¬((o :: os).isPrefixOf (c :: cs) = true) := by
      simp [List.isPrefixOf, Ne.symm hc]
    rw [replace, dif_neg (fun hp => hnp hp.2), replace_of_not_mem (fun hm => h (List.mem_cons_of_mem _ hm))]

@[simp] theorem replace_nil (old new : List Char) : replace [] old new = [] := by
  simp [replace]

/-- A two-character `old` found at the front is replaced, and the search goes on after it. -/
theorem replace_pair_match (a b : Char) (t new : List Char) :
    replace (a :: b :: t) [a, b] new = new ++ replace t [a, b] new := by
  rw [replace, dif_pos ⟨List.cons_ne_nil _ _, by simp [List.isPrefixOf]⟩]
  rfl

theorem replace_pair_of_ne_fst {a b c : Char} (h : c ≠ a) (t new : List Char) :
    replace (c :: t) [a, b] new = c :: replace t [a, b] new := by
  rw [replace, dif_neg (by simp [List.isPrefixOf, Ne.symm h])]

theorem replace_pair_single (a b : Char) (new : List Char) : replace [a] [a, b] new = [a] := by
  rw [replace, dif_neg (by simp [List.isPrefixOf]), replace_nil]

theorem replace_pair_of_ne_snd {a b c : Char} (h : c ≠ b) (t new : List Char) :
    replace (a :: c :: t) [a, b] new = a :: replace (c :: t) [a, b] new := by
  rw [replace, dif_neg (by simp [List.isPrefixOf, Ne.symm h])]

end Go.Strings

namespace Go.Net

open Strings

/-- The text of `&AddrError{Err: why, Addr: addr}`. -/
def addrError (addr : List Char) (why : String) : String :=
  if addr = [] then why else "address " ++ String.ofList addr ++ ": " ++ why

/-- The reason `SplitHostPort` gives for an address without a port. -/
def missingPort : String := "missing port in address"

/-- The reason `SplitHostPort` gives for a colon in the host. -/
def tooManyColons : String := "too many colons in address"

/-- `net.SplitHostPort(hostport)`: the host and the port of `host:port` or `[host]:port`, the port
being what follows the last colon. -/
def splitHostPort (hostport : List Char) : Except String (List Char × List Char) :=
  let i := lastIndex hostport ':'
  if i < 0 then .error (addrError hostport missingPort)
  else
    -- the host, and from where on no '[' and no ']' may follow
    let hostBounds : Except String (List Char × Nat × Nat) :=
      if hostport.head? = some '[' then
        -- the first ']' must stand just before the last ':'
        let e := index hostport ']'
        if e < 0 then .error (addrError hostport "missing ']' in address")
        else if e + 1 = hostport.length then .error (addrError hostport missingPort)
        else if e + 1 = i then .ok ((hostport.take e.toNat).drop 1, 1, e.toNat + 1)
        else if hostport.getD (e.toNat + 1) ' ' = ':' then .error (addrError hostport tooManyColons)
        else .error (addrError hostport missingPort)
      else
        let host := hostport.take i.toNat
        if 0 ≤ index host ':' then .error (addrError hostport tooManyColons)
        else .ok (host, 0, 0)
    hostBounds >>= fun (host, j, k) =>
      if 0 ≤ index (hostport.drop j) '[' then .error (addrError hostport "unexpected '[' in address")
      else if 0 ≤ index (hostport.drop k) ']' then .error (addrError hostport "unexpected ']' in address")
      else .ok (host, hostport.drop (i.toNat + 1))

/-- A host and a port with no colon and no bracket in them are split back apart. -/
theorem splitHostPort_of_plain {h p : List Char} (hh : ∀ c ∈ h, c ∉ [':', '[', ']'])
    (hp : ∀ c ∈ p, c ∉ [':', '[', ']']) : splitHostPort (h ++ ':' :: p) = .ok (h, p) := by
  have hpc : ':' ∉ p := fun hm => hp _ hm (by simp)
  have hhc : ':' ∉ h := fun hm => hh _ hm (by simp)
  have hhead : (h ++ ':' :: p).head? ≠ some '[' := by
    cases h with
    | nil => simp
    | cons c h' => simpa using fun hc => hh c List.mem_cons_self (by simp [hc])
  have hnoOpen : '[' ∉ h ++ ':' :: p := by
    simpa using ⟨fun hm => hh _ hm (by simp), fun hm => hp _ hm (by simp)⟩
  have hnoClose : ']' ∉ h ++ ':' :: p := by
    simpa using ⟨fun hm => hh _ hm (by simp), fun hm => hp _ hm (by simp)⟩
  have hdrop : (h ++ ':' :: p).drop (h.length + 1) = p := by
    rw [List.drop_append, List.drop_eq_nil_of_le (by omega), Nat.add_sub_cancel_left]
    rfl
  simp only [splitHostPort, lastIndex_of_last hpc, if_neg hhead]
  rw [if_neg (by omega)]
  simp [bind, Except.bind, index_of_not_mem hhc, index_of_not_mem hnoOpen,
    index_of_not_mem hnoClose, hdrop]

end Go.Net
