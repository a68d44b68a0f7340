import Mathlib
import Pgx.Go.Binary

/-!
# `stmtcache.LRUCache`: the cache of prepared statement descriptions

A connection caches the descriptions of the statements it prepared, keyed by their SQL, and
deallocates on the server those that leave the cache (`Conn.deallocateInvalidatedCachedStatements`
sends a `Deallocate` for each description `GetInvalidated` returns, then calls
`RemoveInvalidated`). `LRUCache` keeps a map from SQL to the elements of a list, the list with
the most recently used first, and the descriptions invalidated since the last
`RemoveInvalidated`.

* `LRUCache` and its calls, `run` over a sequence of calls (`Op`);
* `Wf`: the capacity is at least one and the list fits in it, and the map and the list hold the
  same keys, each once;
* `Tracked`: the cache with what its specification speaks of, the time of each key's last use
  and the log of the descriptions that left the list. `Effect` says what one call can do to the
  list; `Inv.step` derives every invariant from it, and `Inv.run` carries them along a run.

A use is a `Get` that finds its key or a `Put` that adds its description. A `Put` of an SQL that
is cached, or invalidated and not yet removed, does nothing, and so does not make its key recent.

The list's elements are the descriptions themselves: `m[k]`, a pointer to an element, is read as
the description it holds.
-/

namespace Pgx.StmtCache

open Go

section Lists

variable {α : Type} [DecidableEq α]

theorem erase_getLast_of_nodup {l : List α} (hl : l.Nodup) (h : l ≠ []) :
    l.erase (l.getLast h) = l.dropLast := by
  obtain ⟨t, g, rfl⟩ := (List.eq_nil_or_concat l).resolve_left h
  simp only [List.concat_eq_append] at hl ⊢
  have hg : g ∉ t := fun hm => (List.nodup_append.1 hl).2.2 _ hm _ (List.mem_singleton_self _) rfl
  simp [List.erase_append_right _ hg]

theorem filter_not_mem_of_subset {l l' : List α} (h : ∀ x ∈ l, x ∈ l') :
    l.filter (· ∉ l') = [] := by
  rw [List.filter_eq_nil_iff]
  intro x hx
  simpa using h x hx

/-- What leaves a duplicate-free list when everything but `a` stays is `[a]`. -/
theorem filter_not_mem_of_erase {l l' : List α} {a : α} (hl : l.Nodup) (ha : a ∈ l)
    (hstay : ∀ x ∈ l, x ≠ a → x ∈ l') (hgone : a ∉ l') : l.filter (· ∉ l') = [a] := by
  have hcongr : l.filter (· ∉ l') = l.filter (fun x => decide (x = a)) := by
    refine List.filter_congr fun x hx => ?_
    by_cases hxa : x = a
    · subst hxa; simp [hgone]
    · simp [hxa, hstay x hx hxa]
  rw [hcongr, List.filter_eq, List.count_eq_one_of_mem hl ha, List.replicate_one]

omit [DecidableEq α] in
/-- The back of a list ordered by a decreasing key has the least key. -/
theorem getLast_le_of_pairwise {f : α → Nat} {l : List α} (hl : l.Pairwise fun a b => f b < f a)
    (hne : l ≠ []) : ∀ y ∈ l, f (l.getLast hne) ≤ f y := by
  intro y hy
  rw [← List.dropLast_concat_getLast hne] at hl hy
  rcases List.mem_append.1 hy with hy | hy
  · exact Nat.le_of_lt ((List.pairwise_append.1 hl).2.2 y hy _ (List.mem_singleton_self _))
  · rw [List.mem_singleton.1 hy]

end Lists

/-- The fields of a `pgconn.StatementDescription` that the cache and the connection's
deallocation read: the prepared statement's name, and its SQL, the cache's key. -/
structure StatementDescription where
  name : String
  SQL : String
  deriving DecidableEq, Repr

/-- `LRUCache`: the list holds the descriptions, the most recently used first, and `m` maps an SQL
to the description of its element. -/
structure LRUCache where
  cap : Int
  m : String → Option StatementDescription
  l : List StatementDescription
  invalidStmts : List StatementDescription

/-- `NewLRUCache(cap)`. -/
def newLRUCache (cap : Int) : LRUCache := ⟨cap, fun _ => none, [], []⟩

namespace LRUCache

/-- `Get`: a hit moves its element to the front. -/
def get (c : LRUCache) (key : String) : Option StatementDescription × LRUCache :=
  match c.m key with
  | some sd => (some sd, { c with l := sd :: c.l.erase sd })
  | none => (none, c)

/-- `invalidateOldest`: the back of the list joins the invalidated descriptions. On an empty list
`Back` is nil, and reading its value panics. -/
def invalidateOldest (c : LRUCache) : GoM LRUCache :=
  match c.l.getLast? with
  | some sd =>
    .ok { c with invalidStmts := c.invalidStmts ++ [sd], m := Function.update c.m sd.SQL none,
                 l := c.l.dropLast }
  | none => .error (.panic "runtime error: invalid memory address or nil pointer dereference")

/-- The last two lines of `Put`: the description goes to the front, and its SQL maps to it. -/
def pushFront (c : LRUCache) (sd : StatementDescription) : LRUCache :=
  { c with l := sd :: c.l, m := Function.update c.m sd.SQL (some sd) }

/-- `Put`. -/
def put (c : LRUCache) (sd : StatementDescription) : GoM LRUCache :=
  if sd.SQL = "" then .error (.panic "cannot store statement description with empty SQL")
  else if (c.m sd.SQL).isSome then .ok c
  -- the statement may have been invalidated but not handled yet: it is not added again
  else if c.invalidStmts.any (fun x => x.SQL == sd.SQL) then .ok c
  else (if (c.l.length : Int) = c.cap then c.invalidateOldest else .ok c).map (·.pushFront sd)

/-- `Invalidate(sql)`. -/
def invalidate (c : LRUCache) (sql : String) : LRUCache :=
  match c.m sql with
  | some sd =>
    { c with m := Function.update c.m sql none, invalidStmts := c.invalidStmts ++ [sd],
             l := c.l.erase sd }
  | none => c

/-- `InvalidateAll`: its loop appends the list's descriptions front to back. -/
def invalidateAll (c : LRUCache) : LRUCache :=
  { c with invalidStmts := c.invalidStmts ++ c.l, m := fun _ => none, l := [] }

/-- `GetInvalidated`. -/
def getInvalidated (c : LRUCache) : List StatementDescription := c.invalidStmts

/-- `RemoveInvalidated`. -/
def removeInvalidated (c : LRUCache) : LRUCache := { c with invalidStmts := [] }

/-- `Len`. -/
def len (c : LRUCache) : Nat := c.l.length

end LRUCache

/-- The calls a connection makes on its statement cache. -/
inductive Op
  | get (key : String)
  | put (sd : StatementDescription)
  | invalidate (sql : String)
  | invalidateAll
  | getInvalidated
  | removeInvalidated
  deriving DecidableEq, Repr

namespace LRUCache

/-- One call; what `Get` and `GetInvalidated` return goes to the caller. -/
def step (c : LRUCache) : Op → GoM LRUCache
  | .get key => .ok (c.get key).2
  | .put sd => c.put sd
  | .invalidate sql => .ok (c.invalidate sql)
  | .invalidateAll => .ok c.invalidateAll
  | .getInvalidated => .ok c
  | .removeInvalidated => .ok c.removeInvalidated

/-- A sequence of calls; a panic ends it. -/
def run (c : LRUCache) : List Op → GoM LRUCache
  | [] => .ok c
  | op :: ops => c.step op >>= fun c' => c'.run ops

/-- A well-formed cache: its capacity is at least one and the list fits in it, and the map and
the list hold the same keys, each once, with `m[k]` the description in the list whose SQL
is `k`. -/
structure Wf (c : LRUCache) : Prop where
  cap_pos : 1 ≤ c.cap
  len_le : (c.len : Int) ≤ c.cap
  keys_nodup : (c.l.map (·.SQL)).Nodup
  m_iff : ∀ k sd, c.m k = some sd ↔ sd ∈ c.l ∧ sd.SQL = k

section Wf

variable {c : LRUCache} {sd x : StatementDescription}

theorem Wf.nodup (hw : c.Wf) : c.l.Nodup := hw.keys_nodup.of_map _

theorem Wf.eq_of_SQL (hw : c.Wf) {y : StatementDescription} (hx : x ∈ c.l) (hy : y ∈ c.l)
    (h : x.SQL = y.SQL) : x = y :=
  List.inj_on_of_nodup_map hw.keys_nodup hx hy h

theorem Wf.m_eq_none (hw : c.Wf) {k : String} : c.m k = none ↔ ∀ x ∈ c.l, x.SQL ≠ k := by
  constructor
  · intro h x hx hk
    rw [(hw.m_iff k x).2 ⟨hx, hk⟩] at h
    cases h
  · intro h
    cases hm : c.m k with
    | none => rfl
    | some sd => exact absurd ((hw.m_iff k sd).1 hm).2 (h sd ((hw.m_iff k sd).1 hm).1)

/-- Only the element of `sd`'s key has that key, so erasing `sd` leaves no element of it. -/
theorem Wf.SQL_ne_of_mem_erase (hw : c.Wf) (hsd : sd ∈ c.l) {y : StatementDescription}
    (hy : y ∈ c.l.erase sd) : y.SQL ≠ sd.SQL := fun hk =>
  hw.nodup.not_mem_erase (hw.eq_of_SQL (List.mem_of_mem_erase hy) hsd hk ▸ hy)

/-- A call that only reorders the list keeps the cache well formed. -/
theorem Wf.of_perm (hw : c.Wf) {l : List StatementDescription} (hp : l.Perm c.l) :
    ({ c with l := l } : LRUCache).Wf where
  cap_pos := hw.cap_pos
  len_le := by simp only [len, hp.length_eq]; exact hw.len_le
  keys_nodup := (hp.map _).nodup_iff.2 hw.keys_nodup
  m_iff k sd := by rw [hp.mem_iff]; exact hw.m_iff k sd

theorem invalidate_of_some {sql : String} (h : c.m sql = some sd) :
    c.invalidate sql =
      { c with m := Function.update c.m sql none, invalidStmts := c.invalidStmts ++ [sd],
               l := c.l.erase sd } := by
  simp only [invalidate, h]

theorem invalidate_of_none {sql : String} (h : c.m sql = none) : c.invalidate sql = c := by
  simp only [invalidate, h]

theorem Wf.invalidate (hw : c.Wf) (sql : String) : (c.invalidate sql).Wf := by
  cases hm : c.m sql with
  | none => rw [invalidate_of_none hm]; exact hw
  | some sd =>
    rw [invalidate_of_some hm]
    obtain ⟨hsd, rfl⟩ := (hw.m_iff _ sd).1 hm
    refine ⟨hw.cap_pos, ?_, hw.keys_nodup.sublist (List.erase_sublist.map _), fun k x => ?_⟩
    · have hle : (c.l.erase sd).length ≤ c.l.length := List.erase_sublist.length_le
      have := hw.len_le
      simp only [len] at this ⊢
      omega
    · simp only [Function.update_apply]
      split_ifs with hk
      · -- the key is gone with its one description
        subst hk
        simp only [false_iff, not_and]
        exact fun hx hxk => hw.SQL_ne_of_mem_erase hsd hx hxk
      · rw [hw.m_iff k x]
        constructor
        · rintro ⟨hx, rfl⟩
          exact ⟨(List.mem_erase_of_ne fun h => hk (by rw [h])).2 hx, rfl⟩
        · rintro ⟨hx, rfl⟩
          exact ⟨List.mem_of_mem_erase hx, rfl⟩

theorem Wf.pushFront (hw : c.Wf) (hlt : (c.len : Int) < c.cap) (hm : c.m sd.SQL = none) :
    (c.pushFront sd).Wf := by
  have hfresh := hw.m_eq_none.1 hm
  refine ⟨hw.cap_pos, ?_, ?_, fun k x => ?_⟩
  · simp only [LRUCache.pushFront, len, List.length_cons] at hlt ⊢
    omega
  · simp only [LRUCache.pushFront, List.map_cons, List.nodup_cons, List.mem_map, not_exists,
      not_and]
    exact ⟨fun x hx hk => hfresh x hx hk, hw.keys_nodup⟩
  · simp only [LRUCache.pushFront, Function.update_apply, List.mem_cons]
    split_ifs with hk
    · subst hk
      constructor
      · rintro ⟨⟩
        exact ⟨.inl rfl, rfl⟩
      · rintro ⟨rfl | hx, hxk⟩
        · rfl
        · exact absurd hxk (hfresh x hx)
    · rw [hw.m_iff k x]
      constructor
      · rintro ⟨hx, hxk⟩
        exact ⟨.inr hx, hxk⟩
      · rintro ⟨rfl | hx, hxk⟩
        · exact absurd hxk.symm hk
        · exact ⟨hx, hxk⟩

/-- Evicting the oldest description is invalidating its SQL. -/
theorem Wf.invalidateOldest_eq (hw : c.Wf) (h : c.l ≠ []) :
    c.invalidateOldest = .ok (c.invalidate (c.l.getLast h).SQL) := by
  have hg := (hw.m_iff _ (c.l.getLast h)).2 ⟨List.getLast_mem h, rfl⟩
  simp only [invalidateOldest, List.getLast?_eq_some_getLast h, invalidate_of_some hg,
    erase_getLast_of_nodup hw.nodup h]

/-- `Put` on a well-formed cache: it does nothing, or it pushes a description of a new key to the
front, after invalidating the oldest one when the list is full. -/
theorem Wf.put_eq (hw : c.Wf) (hsd : sd.SQL ≠ "") :
    c.put sd = .ok c ∨
      (c.m sd.SQL = none ∧ (c.len : Int) < c.cap ∧ c.put sd = .ok (c.pushFront sd)) ∨
      (c.m sd.SQL = none ∧ ∃ h : c.l ≠ [],
        c.put sd = .ok ((c.invalidate (c.l.getLast h).SQL).pushFront sd)) := by
  unfold put
  rw [if_neg hsd]
  by_cases hm : (c.m sd.SQL).isSome
  · exact .inl (if_pos hm)
  rw [if_neg hm]
  by_cases hi : c.invalidStmts.any (fun x => x.SQL == sd.SQL)
  · exact .inl (if_pos hi)
  rw [if_neg hi]
  have hnone : c.m sd.SQL = none := by simpa using hm
  by_cases hfull : (c.l.length : Int) = c.cap
  · have hne : c.l ≠ [] := by
      rintro h
      have := hw.cap_pos
      rw [h, List.length_nil] at hfull
      omega
    refine .inr (.inr ⟨hnone, hne, ?_⟩)
    rw [if_pos hfull, hw.invalidateOldest_eq hne]
    rfl
  · refine .inr (.inl ⟨hnone, lt_of_le_of_ne hw.len_le hfull, ?_⟩)
    rw [if_neg hfull]
    rfl

/-- A `Put` of an SQL invalidated and not yet removed leaves the cache as it is. -/
theorem put_of_invalidated (hsd : sd.SQL ≠ "")
    (hi : (c.getInvalidated.any fun x => x.SQL == sd.SQL) = true) : c.put sd = .ok c := by
  unfold put
  rw [if_neg hsd]
  split_ifs <;> first | rfl | simp_all [getInvalidated]

/-- The only description a `Put` removes from the list is its back. -/
theorem Wf.put_removes {c' : LRUCache} (hw : c.Wf) (h : c.put sd = .ok c') (hx : x ∈ c.l)
    (hx' : x ∉ c'.l) : ∃ hne : c.l ≠ [], x = c.l.getLast hne := by
  have hsd : sd.SQL ≠ "" := by
    intro he
    simp [put, he] at h
  rcases hw.put_eq hsd with h1 | ⟨-, -, h1⟩ | ⟨-, hne, h1⟩ <;> rw [h1] at h <;> cases h
  · exact absurd hx hx'
  · exact absurd (List.mem_cons_of_mem _ hx) hx'
  · refine ⟨hne, by_contra fun hne' => hx' ?_⟩
    have hg := (hw.m_iff _ (c.l.getLast hne)).2 ⟨List.getLast_mem hne, rfl⟩
    rw [invalidate_of_some hg]
    exact List.mem_cons_of_mem _ ((List.mem_erase_of_ne hne').2 hx)

end Wf

end LRUCache

/-! ### The specification's view: recency and the log of what left -/

/-- What a call keeps of the list: a sublist, with, for a call that uses a key, that key's
description in front of it. -/
inductive Keeps (l : List StatementDescription) :
    List StatementDescription → Option String → Prop
  | sub {l' : List StatementDescription} : l'.Sublist l → Keeps l l' none
  | front {x : StatementDescription} {t : List StatementDescription} :
      t.Sublist l → (∀ y ∈ t, y.SQL ≠ x.SQL) → Keeps l (x :: t) (some x.SQL)

/-- What a call that took the cache `c` to `c'` can do: `c'` is well formed; the list keeps a
sublist, with the used key's description in front; and what left the list is appended to the
invalidated descriptions in the list's order, unless the call empties them. -/
structure Effect (c c' : LRUCache) (used : Option String) (clears : Bool) : Prop where
  wf : c'.Wf
  keeps : Keeps c.l c'.l used
  invalid : c'.invalidStmts = if clears then [] else c.invalidStmts ++ c.l.filter (· ∉ c'.l)

/-- The key a call uses: a `Get` that finds its key, and a `Put` that adds its description. -/
def Op.uses (c c' : LRUCache) : Op → Option String
  | .get key => if (c.get key).1.isSome then some key else none
  | .put sd => if sd ∉ c.l ∧ sd ∈ c'.l then some sd.SQL else none
  | _ => none

/-- The call that empties the invalidated descriptions. -/
def Op.clears : Op → Bool
  | .removeInvalidated => true
  | _ => false

namespace LRUCache

section Effect

variable {c : LRUCache} {sd : StatementDescription}

theorem Wf.same_effect (hw : c.Wf) : Effect c c none false :=
  ⟨hw, .sub (List.Sublist.refl _), by rw [filter_not_mem_of_subset fun _ h => h]; simp⟩

theorem Wf.get_effect (hw : c.Wf) (key : String) :
    Effect c (c.get key).2 (Op.uses c (c.get key).2 (.get key)) false := by
  cases hm : c.m key with
  | none =>
    have hg : c.get key = (none, c) := by simp only [get, hm]
    simp only [hg, Op.uses, Option.isSome_none, Bool.false_eq_true, if_false]
    exact hw.same_effect
  | some sd =>
    obtain ⟨hsd, rfl⟩ := (hw.m_iff _ sd).1 hm
    have hg : c.get sd.SQL = (some sd, { c with l := sd :: c.l.erase sd }) := by
      simp only [get, hm]
    have hp : (sd :: c.l.erase sd).Perm c.l := (List.perm_cons_erase hsd).symm
    simp only [hg, Op.uses, Option.isSome_some, if_true]
    refine ⟨hw.of_perm hp, .front List.erase_sublist fun y hy => hw.SQL_ne_of_mem_erase hsd hy,
      ?_⟩
    -- a hit reorders the list, so nothing leaves it
    show c.invalidStmts = c.invalidStmts ++ c.l.filter (· ∉ sd :: c.l.erase sd)
    rw [filter_not_mem_of_subset fun x hx => hp.mem_iff.2 hx, List.append_nil]

theorem uses_put_pushFront {c1 : LRUCache} (hnot : sd ∉ c.l) :
    Op.uses c (c1.pushFront sd) (.put sd) = some sd.SQL := by
  simp [Op.uses, LRUCache.pushFront, hnot]

theorem Wf.put_effect (hw : c.Wf) (hsd : sd.SQL ≠ "") :
    ∃ c', c.put sd = .ok c' ∧ Effect c c' (Op.uses c c' (.put sd)) false := by
  rcases hw.put_eq hsd with h | ⟨hm, hlt, h⟩ | ⟨hm, hne, h⟩
  · refine ⟨c, h, ?_⟩
    simp only [Op.uses, not_and_self, if_false]
    exact hw.same_effect
  · -- a new key, with room for it
    have hfresh := hw.m_eq_none.1 hm
    have hnot : sd ∉ c.l := fun h => hfresh sd h rfl
    refine ⟨_, h, ?_⟩
    rw [uses_put_pushFront hnot]
    refine ⟨hw.pushFront hlt hm, .front (List.Sublist.refl _) hfresh, ?_⟩
    show c.invalidStmts = c.invalidStmts ++ c.l.filter (· ∉ sd :: c.l)
    rw [filter_not_mem_of_subset fun x hx => List.mem_cons_of_mem _ hx, List.append_nil]
  · -- a new key in a full cache: the back is invalidated first
    have hfresh := hw.m_eq_none.1 hm
    have hnot : sd ∉ c.l := fun h => hfresh sd h rfl
    set g := c.l.getLast hne
    have hgl : g ∈ c.l := List.getLast_mem hne
    have hg := (hw.m_iff _ g).2 ⟨hgl, rfl⟩
    have hw1 := hw.invalidate g.SQL
    rw [invalidate_of_some hg] at hw1 h
    refine ⟨_, h, ?_⟩
    rw [uses_put_pushFront hnot]
    refine ⟨hw1.pushFront ?_ ?_, .front List.erase_sublist
      fun y hy => hfresh y (List.mem_of_mem_erase hy), ?_⟩
    · have hle : ((c.l.erase g).length : Int) = c.l.length - 1 := by
        rw [List.length_erase_of_mem hgl]
        have := List.length_pos_of_mem hgl
        omega
      have := hw.len_le
      simp only [len] at this
      show ((c.l.erase g).length : Int) < c.cap
      omega
    · show Function.update c.m g.SQL none sd.SQL = none
      rw [Function.update_apply, if_neg fun hk => hfresh g hgl hk.symm]
      exact hm
    · show c.invalidStmts ++ [g] = c.invalidStmts ++ c.l.filter (· ∉ sd :: c.l.erase g)
      rw [filter_not_mem_of_erase hw.nodup hgl
        (fun x hx hxg => List.mem_cons_of_mem _ ((List.mem_erase_of_ne hxg).2 hx))]
      intro hg'
      rcases List.mem_cons.1 hg' with hgs | hge
      · exact hnot (hgs ▸ hgl)
      · exact hw.nodup.not_mem_erase hge

theorem Wf.invalidate_effect (hw : c.Wf) (sql : String) :
    Effect c (c.invalidate sql) none false := by
  cases hm : c.m sql with
  | none => rw [invalidate_of_none hm]; exact hw.same_effect
  | some sd =>
    have hsd := ((hw.m_iff _ sd).1 hm).1
    have hw1 := hw.invalidate sql
    rw [invalidate_of_some hm] at hw1 ⊢
    refine ⟨hw1, .sub List.erase_sublist, ?_⟩
    show c.invalidStmts ++ [sd] = c.invalidStmts ++ c.l.filter (· ∉ c.l.erase sd)
    rw [filter_not_mem_of_erase hw.nodup hsd (fun x hx hxs => (List.mem_erase_of_ne hxs).2 hx)
      hw.nodup.not_mem_erase]

theorem Wf.invalidateAll_effect (hw : c.Wf) : Effect c c.invalidateAll none false := by
  refine ⟨⟨hw.cap_pos, ?_, List.nodup_nil, fun k sd => by simp [invalidateAll]⟩,
    .sub (List.nil_sublist _), ?_⟩
  · have := hw.cap_pos
    simp only [invalidateAll, len, List.length_nil]
    omega
  · show c.invalidStmts ++ c.l = c.invalidStmts ++ c.l.filter (· ∉ [])
    simp

theorem Wf.removeInvalidated_effect (hw : c.Wf) :
    Effect c c.removeInvalidated none true :=
  ⟨⟨hw.cap_pos, hw.len_le, hw.keys_nodup, hw.m_iff⟩, .sub (List.Sublist.refl _), rfl⟩

/-- Every call the connection makes, with a non-empty SQL for `Put`, returns and has an
`Effect`. -/
theorem Wf.step_effect {op : Op} (hw : c.Wf) (hop : ∀ sd, op = .put sd → sd.SQL ≠ "") :
    ∃ c', c.step op = .ok c' ∧ Effect c c' (op.uses c c') op.clears := by
  cases op with
  | get key => exact ⟨_, rfl, hw.get_effect key⟩
  | put sd => exact hw.put_effect (hop sd rfl)
  | invalidate sql => exact ⟨_, rfl, hw.invalidate_effect sql⟩
  | invalidateAll => exact ⟨_, rfl, hw.invalidateAll_effect⟩
  | getInvalidated => exact ⟨_, rfl, hw.same_effect⟩
  | removeInvalidated => exact ⟨_, rfl, hw.removeInvalidated_effect⟩

end Effect

end LRUCache

/-- The cache with what its specification speaks of: the time of each key's last use, the time
of the next call, and the descriptions that left the list since the last `RemoveInvalidated`,
in the order they left. -/
structure Tracked where
  cache : LRUCache
  stamp : String → Nat
  clock : Nat
  left : List StatementDescription

/-- A new cache, before any call. -/
def newTracked (cap : Int) : Tracked := ⟨newLRUCache cap, fun _ => 0, 0, []⟩

/-- The stamps after a call at time `clock` that used `used`. -/
def touch (stamp : String → Nat) (clock : Nat) : Option String → String → Nat
  | some k => Function.update stamp k clock
  | none => stamp

section Recency

variable {stamp : String → Nat} {clock : Nat}

/-- The recency order after a call: the used key, stamped now, goes in front of a sublist whose
stamps are older. -/
theorem Keeps.recency {l l' : List StatementDescription} {used : Option String}
    (hr : l.Pairwise fun a b => stamp b.SQL < stamp a.SQL) (hlt : ∀ x ∈ l, stamp x.SQL < clock)
    (hk : Keeps l l' used) :
    (l'.Pairwise fun a b => touch stamp clock used b.SQL < touch stamp clock used a.SQL) ∧
      ∀ x ∈ l', touch stamp clock used x.SQL < clock + 1 := by
  cases hk with
  | sub hsub =>
    exact ⟨hr.sublist hsub, fun x hx => Nat.lt_succ_of_lt (hlt x (hsub.subset hx))⟩
  | front hsub hne =>
    rename_i x t
    -- off the used key the stamps are the old ones
    have hold : ∀ y ∈ t, touch stamp clock (some x.SQL) y.SQL = stamp y.SQL :=
      fun y hy => Function.update_of_ne (hne y hy) _ _
    have hx : touch stamp clock (some x.SQL) x.SQL = clock := Function.update_self _ _ _
    refine ⟨List.pairwise_cons.2 ⟨fun y hy => ?_, (hr.sublist hsub).imp_of_mem
      fun ha hb h => ?_⟩, fun y hy => ?_⟩
    · rw [hold y hy, hx]
      exact hlt y (hsub.subset hy)
    · rw [hold _ ha, hold _ hb]
      exact h
    · rcases List.mem_cons.1 hy with rfl | hy
      · rw [hx]
        omega
      · rw [hold y hy]
        exact Nat.lt_succ_of_lt (hlt y (hsub.subset hy))

end Recency

namespace Tracked

/-- The specification's side of a call that took the cache to `c'`: the key it used is stamped
with the call's time, and what left the list is logged. -/
def next (s : Tracked) (c' : LRUCache) (used : Option String) (clears : Bool) : Tracked where
  cache := c'
  stamp := touch s.stamp s.clock used
  clock := s.clock + 1
  left := if clears then [] else s.left ++ s.cache.l.filter (· ∉ c'.l)

/-- One call, with the specification's side. -/
def step (s : Tracked) (op : Op) : GoM Tracked :=
  (s.cache.step op).map fun c' => s.next c' (op.uses s.cache c') op.clears

/-- A sequence of calls, with the specification's side. -/
def run (s : Tracked) : List Op → GoM Tracked
  | [] => .ok s
  | op :: ops => s.step op >>= fun s' => s'.run ops

/-- The specification's side does not change what the calls do to the cache. -/
theorem run_cache (s : Tracked) (ops : List Op) :
    (s.run ops).map Tracked.cache = s.cache.run ops := by
  induction ops generalizing s with
  | nil => rfl
  | cons op ops ih =>
    simp only [Tracked.run, LRUCache.run, Tracked.step]
    cases s.cache.step op with
    | error e => rfl
    | ok c' => exact ih _

/-- The invariant of the cache: it is well formed; the list is in the order of last use, the
most recent first; every stamp is of a past call; and `GetInvalidated` returns exactly what left
the list since the last `RemoveInvalidated`. -/
structure Inv (s : Tracked) : Prop where
  wf : s.cache.Wf
  recency : s.cache.l.Pairwise fun a b => s.stamp b.SQL < s.stamp a.SQL
  stamp_lt : ∀ x ∈ s.cache.l, s.stamp x.SQL < s.clock
  left_eq : s.cache.getInvalidated = s.left

theorem newTracked_inv {cap : Int} (h : 1 ≤ cap) : (newTracked cap).Inv where
  wf := ⟨h, by simp [newTracked, newLRUCache, LRUCache.len]; omega, List.nodup_nil,
    fun k sd => by simp [newTracked, newLRUCache]⟩
  recency := List.Pairwise.nil
  stamp_lt := fun x hx => by simp [newTracked, newLRUCache] at hx
  left_eq := rfl

section Step

variable {s : Tracked}

theorem Inv.next {c' : LRUCache} {used : Option String} {clears : Bool} (hs : s.Inv)
    (he : Effect s.cache c' used clears) : (s.next c' used clears).Inv := by
  obtain ⟨hr, hlt⟩ := he.keeps.recency hs.recency hs.stamp_lt
  refine ⟨he.wf, hr, hlt, ?_⟩
  show c'.invalidStmts = if clears then [] else s.left ++ s.cache.l.filter (· ∉ c'.l)
  rw [he.invalid, ← hs.left_eq]
  rfl

/-- **Step.** Every call keeps the invariant. -/
theorem Inv.step {op : Op} (hs : s.Inv) (hop : ∀ sd, op = .put sd → sd.SQL ≠ "") :
    ∃ s', s.step op = .ok s' ∧ s'.Inv := by
  obtain ⟨c', hc, he⟩ := hs.wf.step_effect hop
  exact ⟨_, by rw [Tracked.step, hc]; rfl, hs.next he⟩

/-- **Run.** Every sequence of calls, with a non-empty SQL for every `Put`, returns and keeps the
invariant. -/
theorem Inv.run {ops : List Op} (hs : s.Inv) (hops : ∀ sd, Op.put sd ∈ ops → sd.SQL ≠ "") :
    ∃ s', s.run ops = .ok s' ∧ s'.Inv := by
  induction ops generalizing s with
  | nil => exact ⟨s, rfl, hs⟩
  | cons op ops ih =>
    obtain ⟨s1, h1, hs1⟩ := hs.step fun sd h => hops sd (h ▸ List.mem_cons_self)
    obtain ⟨s2, h2, hs2⟩ := ih hs1 fun sd h => hops sd (List.mem_cons_of_mem _ h)
    exact ⟨s2, by rw [Tracked.run, h1]; exact h2, hs2⟩

/-- **Eviction.** What a `Put` removes from the list was used least recently. -/
theorem Inv.put_evicts_least {sd x : StatementDescription} {c' : LRUCache} (hs : s.Inv)
    (h : s.cache.put sd = .ok c') (hx : x ∈ s.cache.l) (hx' : x ∉ c'.l) :
    ∀ y ∈ s.cache.l, s.stamp x.SQL ≤ s.stamp y.SQL := by
  obtain ⟨hne, rfl⟩ := hs.wf.put_removes h hx hx'
  exact getLast_le_of_pairwise (f := fun sd => s.stamp sd.SQL) hs.recency hne

end Step

end Tracked

/-- The cache of a connection, over every sequence of calls with a non-empty SQL for every
`Put`: no call panics and the code's run is the tracked one; the invariant holds (the list fits
the capacity, the map and the list hold the same keys once each, the list is in the order of
last use, and `GetInvalidated` returns what left the list since the last `RemoveInvalidated`);
and a further `Put` removes only a least recently used description, and leaves the cache as it
is for an SQL that `GetInvalidated` returns. -/
theorem lruCache_recency (cap : Int) (hcap : 1 ≤ cap) (ops : List Op)
    (hops : ∀ sd, Op.put sd ∈ ops → sd.SQL ≠ "") :
    ∃ s, (newTracked cap).run ops = .ok s ∧ (newLRUCache cap).run ops = .ok s.cache ∧ s.Inv ∧
      ∀ sd : StatementDescription, sd.SQL ≠ "" → ∃ c', s.cache.put sd = .ok c' ∧
        (∀ x ∈ s.cache.l, x ∉ c'.l → ∀ y ∈ s.cache.l, s.stamp x.SQL ≤ s.stamp y.SQL) ∧
        ((s.cache.getInvalidated.any fun x => x.SQL == sd.SQL) = true → c' = s.cache) := by
  obtain ⟨s, hrun, hs⟩ := (Tracked.newTracked_inv hcap).run hops
  have hcache := Tracked.run_cache (newTracked cap) ops
  rw [hrun] at hcache
  refine ⟨s, hrun, hcache.symm, hs, fun sd hsd => ?_⟩
  obtain ⟨c', hc', -⟩ := hs.wf.put_effect hsd
  refine ⟨c', hc', fun x hx hx' => hs.put_evicts_least hc' hx hx', fun hi => ?_⟩
  rw [LRUCache.put_of_invalidated hsd hi] at hc'
  exact (Except.ok.inj hc').symm

/-- The calls of `recentRun` with room for two: `Put(a)`, `Put(b)`, `Get(a)`, then `Put(c)`, which
evicts `b`, the least recently used, and `Invalidate(c)`. -/
def recentRun : List Op :=
  [.put ⟨"stmt_a", "select 1"⟩, .put ⟨"stmt_b", "select 2"⟩, .get "select 1", .put ⟨"stmt_c", "select 3"⟩,
    .invalidate "select 3"]

theorem lruCache_recency_getEvict :
    (∃ c, (newLRUCache 2).run recentRun = .ok c ∧
      c.getInvalidated = [⟨"stmt_b", "select 2"⟩, ⟨"stmt_c", "select 3"⟩] ∧ c.l = [⟨"stmt_a", "select 1"⟩]) ∧
    ∃ s, (newTracked 2).run recentRun = .ok s ∧
      (newLRUCache 2).run recentRun = .ok s.cache ∧ s.Inv ∧
      ∀ sd : StatementDescription, sd.SQL ≠ "" → ∃ c', s.cache.put sd = .ok c' ∧
        (∀ x ∈ s.cache.l, x ∉ c'.l → ∀ y ∈ s.cache.l, s.stamp x.SQL ≤ s.stamp y.SQL) ∧
        ((s.cache.getInvalidated.any fun x => x.SQL == sd.SQL) = true → c' = s.cache) :=
  ⟨⟨_, rfl, by decide, by decide⟩,
    lruCache_recency 2 (by norm_num) recentRun fun sd h => by
      simp only [recentRun, List.mem_cons, Op.put.injEq, reduceCtorEq, List.mem_nil_iff, or_false,
        false_or] at h
      rcases h with rfl | rfl | rfl <;> decide⟩

/-- A `Put` of a cached SQL does not make it recent: with room for two, after `Put(a)`, `Put(b)`
and `Put(a)`, a `Put(c)` evicts `a`, put after `b`, and keeps `b`. -/
theorem lruCache_rePut_evicted :
    ∃ c, (newLRUCache 2).run [.put ⟨"stmt_a", "select 1"⟩, .put ⟨"stmt_b", "select 2"⟩,
      .put ⟨"stmt_a", "select 1"⟩, .put ⟨"stmt_c", "select 3"⟩] = .ok c ∧
      c.getInvalidated = [⟨"stmt_a", "select 1"⟩] ∧
      c.l = [⟨"stmt_c", "select 3"⟩, ⟨"stmt_b", "select 2"⟩] :=
  ⟨_, rfl, by decide, by decide⟩

end Pgx.StmtCache
