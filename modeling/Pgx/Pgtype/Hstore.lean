import Pgx.Pgtype.EncodePlan

/-!
# `pgtype.Hstore`: its encode plans and its binary scan plan

An `Hstore` is a Go `map[string]*string`. The plans walk it with `range`, so what they write
depends on the order in which the loop visits the keys: here an `Hstore` is the list of its pairs
in that order, each key once, and every statement holds for every order.

* `encodePlanHstoreCodecText`: the pairs `"key"=>"value"` separated by `, `, with `\` and `"`
  escaped in keys and values, and `NULL` for a nil value. It appends for every map but the empty
  one, for which it returns a new empty slice instead of `buf`
  (`encodePlanHstoreCodecText_empty`);
* `encodePlanHstoreCodecBinary`: the number of pairs, then each key and value after its `int32`
  length, `-1` for nil; it always appends;
* `scanPlanBinaryHstoreToHstoreScanner` reads the binary format back. The lengths pass through
  `int32`, so the round trip holds when keys and values are shorter than `2^31` bytes
  (`scanBinary_encodeBinary`), and a value of `2^31` bytes comes back nil
  (`scanBinary_longValue`).

A map that a scan builds is a function from keys to what a lookup finds (`HstoreMap`).
-/

namespace Pgx.Pgtype

open Go Pgx.Proto

/-- An `Hstore` as its `range` loop visits it: its pairs, each key once, each with a value or
nil. -/
structure Hstore where
  pairs : List (List UInt8 × Option (List UInt8))
  nodup : (pairs.map Prod.fst).Nodup

/-- A map from keys to values or nil, as a lookup `v, ok := m[k]` reads it. -/
abbrev HstoreMap := List UInt8 → Option (Option (List UInt8))

namespace Hstore

/-- `Hstore{}`. -/
def empty : Hstore := ⟨[], List.nodup_nil⟩

/-- A map of one pair. -/
def single (k : List UInt8) (v : Option (List UInt8)) : Hstore := ⟨[(k, v)], List.nodup_singleton k⟩

/-- What a lookup in `h` finds. -/
def lookup (h : Hstore) : HstoreMap := fun k => (h.pairs.find? (·.1 = k)).map (·.2)

end Hstore

/-- `m[key] = value`. -/
def HstoreMap.set (m : HstoreMap) (kv : List UInt8 × Option (List UInt8)) : HstoreMap :=
  Function.update m kv.1 (some kv.2)

/-- Setting the pairs of a map, each key once, one after the other: each key finds its own value,
and any other key what it found before. -/
theorem foldl_set {ps : List (List UInt8 × Option (List UInt8))} (hnd : (ps.map Prod.fst).Nodup)
    (m : HstoreMap) (k : List UInt8) :
    ps.foldl HstoreMap.set m k = ((ps.find? (·.1 = k)).map (·.2)).elim (m k) some := by
  induction ps generalizing m with
  | nil => rfl
  | cons kv ps ih =>
    rw [List.map_cons, List.nodup_cons] at hnd
    rw [List.foldl_cons, ih hnd.2, List.find?_cons]
    by_cases hk : kv.1 = k
    · -- the key of the head is no key of the tail, so the tail leaves its value
      subst hk
      have hnone : ps.find? (·.1 = kv.1) = none :=
        List.find?_eq_none.2 fun x hx hxk => hnd.1 (List.mem_map.2 ⟨x, hx, of_decide_eq_true hxk⟩)
      simp [hnone, HstoreMap.set]
    · simp [hk, HstoreMap.set, Function.update_of_ne (Ne.symm hk)]

theorem Hstore.foldl_set_empty (h : Hstore) : h.pairs.foldl HstoreMap.set (fun _ => none) = h.lookup := by
  funext k
  rw [foldl_set h.nodup]
  simp only [Hstore.lookup]
  cases Option.map (·.2) (h.pairs.find? (·.1 = k)) <;> rfl

/-! ### The text plan -/

/-- The bytes `"` and `\`. -/
def quoteByte : UInt8 := '"'.toUInt8

def backslashByte : UInt8 := '\\'.toUInt8

/-- `quoteArrayReplacer.Replace`: `\` becomes `\\` and `"` becomes `\"`. -/
def quoteArrayReplace (s : List UInt8) : List UInt8 :=
  s.flatMap fun b => if b = backslashByte ∨ b = quoteByte then [backslashByte, b] else [b]

@[simp]
theorem quoteArrayReplace_cons (x : UInt8) (s : List UInt8) :
    quoteArrayReplace (x :: s) =
      (if x = backslashByte ∨ x = quoteByte then [backslashByte, x] else [x]) ++ quoteArrayReplace s :=
  List.flatMap_cons

/-- One pass of the text plan's loop, on the buffer and the flag `firstPair`. -/
def encodeTextPair (st : List UInt8 × Bool) (kv : List UInt8 × Option (List UInt8)) :
    List UInt8 × Bool :=
  let buf := if st.2 then st.1 else st.1 ++ [','.toUInt8, ' '.toUInt8]
  let buf := buf ++ [quoteByte] ++ quoteArrayReplace kv.1 ++ [quoteByte] ++
    ['='.toUInt8, '>'.toUInt8]
  match kv.2 with
  | none => (buf ++ ['N'.toUInt8, 'U'.toUInt8, 'L'.toUInt8, 'L'.toUInt8], false)
  | some v => (buf ++ [quoteByte] ++ quoteArrayReplace v ++ [quoteByte], false)

/-- `encodePlanHstoreCodecText.Encode` of the value `h`. -/
def encodePlanHstoreCodecText (h : Option Hstore) : EncodePlan := fun buf =>
  match h with
  -- a nil map has length zero, and is nil
  | none => .ok none
  | some h =>
    -- an empty map is told from nil by a new empty slice, which drops `buf`
    if h.pairs.length = 0 then .ok (some [])
    else .ok (some (h.pairs.foldl encodeTextPair (buf, true)).1)

theorem encodeTextPair_eq (buf : List UInt8) (first : Bool) (kv : List UInt8 × Option (List UInt8)) :
    encodeTextPair (buf, first) kv = (buf ++ (encodeTextPair ([], first) kv).1, false) := by
  rcases kv with ⟨k, _ | v⟩ <;> cases first <;> simp [encodeTextPair]

/-- The text plan's loop appends to its buffer. -/
theorem foldl_encodeTextPair (ps : List (List UInt8 × Option (List UInt8))) (buf : List UInt8)
    (first : Bool) :
    (ps.foldl encodeTextPair (buf, first)).1 = buf ++ (ps.foldl encodeTextPair ([], first)).1 := by
  induction ps generalizing buf first with
  | nil => simp
  | cons kv ps ih =>
    rw [List.foldl_cons, List.foldl_cons, encodeTextPair_eq buf, encodeTextPair_eq [], ih,
      ih (_ ++ _), List.nil_append, List.append_assoc]

/-- The text plan appends for every map with a pair. -/
theorem encodePlanHstoreCodecText_appends {h : Hstore} (hne : h.pairs ≠ []) :
    Appends (encodePlanHstoreCodecText (some h)) := by
  intro buf
  have h0 : h.pairs.length ≠ 0 := fun h0 => hne (List.eq_nil_of_length_eq_zero h0)
  simp only [encodePlanHstoreCodecText, if_neg h0, Except.map, Option.map_some]
  rw [foldl_encodeTextPair]

/-- The text plan does not append for an empty map: whatever the buffer holds, it returns an
empty slice; and `Build` in the exec mode panics on an empty hstore after any hstore argument of
one pair, when it slices that empty slice at the length of the first argument. -/
theorem encodePlanHstoreCodecText_empty (eqb : ExtendedQueryBuilder) (b : UInt8)
    (t k : List UInt8) (v : Option (List UInt8)) :
    encodePlanHstoreCodecText (some .empty) (b :: t) = .ok (some []) ∧
      eqb.buildExec [encodePlanHstoreCodecText (some (.single k v)),
        encodePlanHstoreCodecText (some .empty)] = .error (.panic "slice bounds out of range") := by
  refine ⟨rfl, ?_⟩
  -- the first argument appends a nonempty encoding, which begins with a quote
  obtain ⟨e, he⟩ : ∃ e, (encodeTextPair ([], true) (k, v)).1 = quoteByte :: e := by
    rcases v with _ | v <;> exact ⟨_, rfl⟩
  have h1 : encodePlanHstoreCodecText (some (.single k v)) [] = .ok (some (quoteByte :: e)) := by
    simp [encodePlanHstoreCodecText, Hstore.single, he]
  have hfrom : sliceFrom ([] : List UInt8) ((quoteByte :: e).length : Nat) =
      .error (.panic "slice bounds out of range") := by
    simp [sliceFrom]
  simp only [ExtendedQueryBuilder.buildExec, List.foldlM_cons, ExtendedQueryBuilder.appendParam,
    ExtendedQueryBuilder.encodeExtendedParamValue, ExtendedQueryBuilder.reset, h1, bind,
    Except.bind, pure, Except.pure, List.length_nil, Nat.cast_zero, sliceFrom_zero,
    List.nil_append]
  simp only [encodePlanHstoreCodecText, Hstore.empty, List.length_nil, if_true, hfrom]

/-! ### The binary plan and the binary scan -/

/-- One pass of the binary plan's loop. -/
def encodeBinaryPair (buf : List UInt8) (kv : List UInt8 × Option (List UInt8)) : List UInt8 :=
  let buf := appendInt32 buf kv.1.length ++ kv.1
  match kv.2 with
  | none => appendInt32 buf (-1)
  | some v => appendInt32 buf v.length ++ v

/-- `encodePlanHstoreCodecBinary.Encode` of the value `h`. -/
def encodePlanHstoreCodecBinary (h : Option Hstore) : EncodePlan := fun buf =>
  match h with
  | none => .ok none
  | some h => .ok (some (h.pairs.foldl encodeBinaryPair (appendInt32 buf h.pairs.length)))

/-- The bytes of one pair. -/
def pairBytes (kv : List UInt8 × Option (List UInt8)) : List UInt8 := encodeBinaryPair [] kv

theorem encodeBinaryPair_eq (buf : List UInt8) (kv : List UInt8 × Option (List UInt8)) :
    encodeBinaryPair buf kv = buf ++ pairBytes kv := by
  rcases kv with ⟨k, _ | v⟩ <;> simp [pairBytes, encodeBinaryPair, appendInt32]

theorem foldl_encodeBinaryPair (ps : List (List UInt8 × Option (List UInt8))) (buf : List UInt8) :
    ps.foldl encodeBinaryPair buf = buf ++ ps.flatMap pairBytes := by
  induction ps generalizing buf with
  | nil => simp
  | cons kv ps ih => rw [List.foldl_cons, ih, encodeBinaryPair_eq, List.flatMap_cons,
      List.append_assoc]

/-- The binary plan appends, for every map. -/
theorem encodePlanHstoreCodecBinary_appends (h : Option Hstore) :
    Appends (encodePlanHstoreCodecBinary h) := by
  intro buf
  rcases h with _ | h
  · rfl
  · simp only [encodePlanHstoreCodecBinary, foldl_encodeBinaryPair, appendInt32, Except.map,
      Option.map_some, List.nil_append, List.append_assoc]

/-- `hstore incomplete %v`. -/
def hstoreIncomplete : Fault := .error "hstore incomplete"

/-- The loop of the binary scan over `n` pairs from `rp`: lengths through `int32`, `-1` and every
other negative value length for nil. -/
def scanBinaryPairs (src : List UInt8) : Nat → Nat → HstoreMap → GoM HstoreMap
  | 0, _, hstore => .ok hstore
  | n + 1, rp, hstore => do
    if (← lenFrom src rp) < 4 then .error hstoreIncomplete
    else do
      let keyLen := toInt32 (← uint32At src rp)
      let rp := rp + 4
      if ((← lenFrom src rp) : Int) < keyLen then .error hstoreIncomplete
      else do
        let key ← slice src rp (rp + keyLen)
        let rp := (rp + keyLen).toNat
        if (← lenFrom src rp) < 4 then .error hstoreIncomplete
        else do
          let valueLen := toInt32 (← uint32At src rp)
          let rp := rp + 4
          if 0 ≤ valueLen then do
            let value ← slice src rp (rp + valueLen)
            scanBinaryPairs src n (rp + valueLen).toNat (hstore.set (key, some value))
          else scanBinaryPairs src n rp (hstore.set (key, none))

/-- `scanPlanBinaryHstoreToHstoreScanner.Scan`: a nil source is a nil map. -/
def scanPlanBinaryHstoreToHstoreScanner (src : Option (List UInt8)) : GoM (Option HstoreMap) :=
  match src with
  | none => .ok none
  | some src => do
    if (← lenFrom src 0) < 4 then .error hstoreIncomplete
    else do
      let pairCount := toInt32 (← uint32At src 0)
      -- `make(Hstore, pairCount)` panics on a negative size
      if pairCount < 0 then .error (.panic "makemap: size out of range")
      else some <$> scanBinaryPairs src pairCount.toNat 4 (fun _ => none)

/-- A pair whose key and value are short enough for their lengths to pass through `int32`. -/
def Fits32 (kv : List UInt8 × Option (List UInt8)) : Prop :=
  kv.1.length < 2 ^ 31 ∧ ∀ v, kv.2 = some v → v.length < 2 ^ 31

/-- **One pass** of the scan's loop, after a key whose length fits: a length whose `int32` is
negative is nil, any other is the length of the value that follows. -/
theorem scanBinaryPairs_succ {src k r : List UInt8} {rp n : Nat} {x : UInt32} (m : HstoreMap)
    (hd : src.drop rp = putUint32 (ofInt32 k.length) ++ (k ++ (putUint32 x ++ r)))
    (hk : k.length < 2 ^ 31) :
    scanBinaryPairs src (n + 1) rp m =
      if 0 ≤ toInt32 x then
        slice src (rp + k.length + 8 : Nat) ((rp + k.length + 8 : Nat) + toInt32 x) >>= fun value =>
          scanBinaryPairs src n ((rp + k.length + 8 : Nat) + toInt32 x).toNat (m.set (k, some value))
      else scanBinaryPairs src n (rp + k.length + 8) (m.set (k, none)) := by
  have hw : ∀ n : UInt32, (putUint32 n).length = 4 := fun _ => rfl
  have hlen : src.length = rp + 4 + k.length + 4 + r.length := by
    have := congrArg List.length hd
    simp only [List.length_drop, List.length_append, hw] at this
    omega
  have hd1 : src.drop (rp + 4) = k ++ (putUint32 x ++ r) := by
    rw [← List.drop_drop, hd, ← hw (ofInt32 k.length), List.drop_left]
  have hd2 : src.drop (rp + 4 + k.length) = putUint32 x ++ r := by
    rw [← List.drop_drop, hd1, List.drop_left]
  have hkl : toInt32 (ofInt32 k.length) = k.length :=
    toInt32_ofInt32 (by omega) (by exact_mod_cast hk)
  have hrp : ((rp + 4 : Nat) + (k.length : Int)).toNat = rp + 4 + k.length := by omega
  rw [scanBinaryPairs]
  simp only [bind, Except.bind, lenFrom_of_drop (by omega) hd, uint32At_of_drop hd, hkl,
    lenFrom_of_drop (by omega) hd1, slice_of_drop (by omega) hd1, hrp,
    lenFrom_of_drop (by omega) hd2, uint32At_of_drop hd2, List.length_append, hw]
  -- the three length checks pass
  rw [if_neg (by omega), if_neg (by omega), if_neg (by omega)]
  have h8 : rp + 4 + k.length + 4 = rp + k.length + 8 := by omega
  rw [h8]

/-- **Step.** The scan reads one pair of the binary format back. -/
theorem scanBinaryPairs_cons {kv : List UInt8 × Option (List UInt8)} (hf : Fits32 kv)
    (pre t : List UInt8) (n : Nat) (m : HstoreMap) :
    scanBinaryPairs (pre ++ pairBytes kv ++ t) (n + 1) pre.length m =
      scanBinaryPairs (pre ++ pairBytes kv ++ t) n (pre ++ pairBytes kv).length (m.set kv) := by
  obtain ⟨k, v⟩ := kv
  obtain ⟨hk, hv⟩ := hf
  have hw : ∀ n : UInt32, (putUint32 n).length = 4 := fun _ => rfl
  rcases v with _ | w
  · have hd : (pre ++ pairBytes (k, none) ++ t).drop pre.length =
        putUint32 (ofInt32 k.length) ++ (k ++ (putUint32 (ofInt32 (-1)) ++ t)) := by
      simp [pairBytes, encodeBinaryPair, appendInt32]
    have hm1 : toInt32 (ofInt32 (-1)) = -1 := by decide
    rw [scanBinaryPairs_succ m hd hk, hm1, if_neg (by omega)]
    congr 1
    simp [pairBytes, encodeBinaryPair, appendInt32, hw]
    omega
  · have hd : (pre ++ pairBytes (k, some w) ++ t).drop pre.length =
        putUint32 (ofInt32 k.length) ++ (k ++ (putUint32 (ofInt32 w.length) ++ (w ++ t))) := by
      simp [pairBytes, encodeBinaryPair, appendInt32]
    have hd' : (pre ++ pairBytes (k, some w) ++ t).drop (pre.length + k.length + 8) = w ++ t := by
      have hsplit : pre ++ pairBytes (k, some w) ++ t = (pre ++ putUint32 (ofInt32 k.length) ++ k ++
          putUint32 (ofInt32 w.length)) ++ (w ++ t) := by
        simp [pairBytes, encodeBinaryPair, appendInt32]
      rw [hsplit, List.drop_left' (by simp only [List.length_append, hw]; omega)]
    have hwl : toInt32 (ofInt32 w.length) = w.length :=
      toInt32_ofInt32 (by omega) (by exact_mod_cast hv w rfl)
    rw [scanBinaryPairs_succ m hd hk, hwl, if_pos (Int.natCast_nonneg _),
      slice_of_drop (by simp [pairBytes, encodeBinaryPair, appendInt32, hw]; omega) hd']
    simp only [bind, Except.bind]
    congr 1
    simp [pairBytes, encodeBinaryPair, appendInt32, hw]
    omega

/-- **Run.** The scan reads every pair back, in order. -/
theorem scanBinaryPairs_flatMap {ps : List (List UInt8 × Option (List UInt8))}
    (hf : ∀ kv ∈ ps, Fits32 kv) (pre t : List UInt8) (m : HstoreMap) :
    scanBinaryPairs (pre ++ ps.flatMap pairBytes ++ t) ps.length pre.length m =
      .ok (ps.foldl HstoreMap.set m) := by
  induction ps generalizing pre m with
  | nil => rfl
  | cons kv ps ih =>
    have hsplit : pre ++ (kv :: ps).flatMap pairBytes ++ t =
        pre ++ pairBytes kv ++ (ps.flatMap pairBytes ++ t) := by simp
    have hsplit' : pre ++ pairBytes kv ++ (ps.flatMap pairBytes ++ t) =
        (pre ++ pairBytes kv) ++ ps.flatMap pairBytes ++ t := by simp
    rw [hsplit, List.length_cons, scanBinaryPairs_cons (hf kv (by simp)), hsplit',
      ih (fun x hx => hf x (by simp [hx])), List.foldl_cons]

/-- **Binary round trip.** For fewer than `2^31` pairs with keys and values shorter than `2^31`
bytes, the scan reads back the map the binary plan encoded. -/
theorem scanBinary_encodeBinary (h : Hstore) (hf : ∀ kv ∈ h.pairs, Fits32 kv)
    (hn : h.pairs.length < 2 ^ 31) :
    (encodePlanHstoreCodecBinary (some h) [] >>= scanPlanBinaryHstoreToHstoreScanner) =
      .ok (some h.lookup) := by
  have hw : ∀ n : UInt32, (putUint32 n).length = 4 := fun _ => rfl
  have he : encodePlanHstoreCodecBinary (some h) [] =
      .ok (some (putUint32 (ofInt32 h.pairs.length) ++ h.pairs.flatMap pairBytes ++ [])) := by
    simp [encodePlanHstoreCodecBinary, foldl_encodeBinaryPair, appendInt32]
  have hd : (putUint32 (ofInt32 h.pairs.length) ++ h.pairs.flatMap pairBytes ++ []).drop 0 =
      putUint32 (ofInt32 h.pairs.length) ++ (h.pairs.flatMap pairBytes ++ []) := by simp
  have hnl : toInt32 (ofInt32 h.pairs.length) = h.pairs.length :=
    toInt32_ofInt32 (by omega) (by exact_mod_cast hn)
  rw [he, ok_bind]
  unfold scanPlanBinaryHstoreToHstoreScanner
  dsimp only
  rw [lenFrom_of_drop (Nat.zero_le _) hd, ok_bind, if_neg (by simp only [List.length_append, hw]; omega),
    uint32At_of_drop hd, ok_bind]
  rw [hnl, if_neg (by omega), Int.toNat_natCast]
  have hrun := scanBinaryPairs_flatMap hf (putUint32 (ofInt32 h.pairs.length)) [] (fun _ => none)
  rw [hw] at hrun
  rw [hrun, Hstore.foldl_set_empty]
  rfl

/-- A value whose length reads through `int32` as a negative number is scanned as nil. -/
theorem scanBinary_negLength (k v : List UInt8) (hk : k.length < 2 ^ 31)
    (hneg : toInt32 (ofInt32 v.length) < 0) :
    (encodePlanHstoreCodecBinary (some (.single k (some v))) [] >>=
      scanPlanBinaryHstoreToHstoreScanner) =
        .ok (some (HstoreMap.set (fun _ => none) (k, none))) := by
  have hw : ∀ n : UInt32, (putUint32 n).length = 4 := fun _ => rfl
  set src := putUint32 (ofInt32 1) ++ (putUint32 (ofInt32 k.length) ++
    (k ++ (putUint32 (ofInt32 v.length) ++ v))) with hsrc
  have he : encodePlanHstoreCodecBinary (some (.single k (some v))) [] = .ok (some src) := by
    simp [encodePlanHstoreCodecBinary, Hstore.single, encodeBinaryPair, appendInt32, src]
  have hd0 : src.drop 0 = putUint32 (ofInt32 1) ++ (putUint32 (ofInt32 k.length) ++
    (k ++ (putUint32 (ofInt32 v.length) ++ v))) := rfl
  have hd4 : src.drop 4 = putUint32 (ofInt32 k.length) ++ (k ++ (putUint32 (ofInt32 v.length) ++ v)) := by
    rw [hsrc, ← hw (ofInt32 1), List.drop_left]
  have h1 : toInt32 (ofInt32 1) = 1 := by decide
  rw [he, ok_bind]
  unfold scanPlanBinaryHstoreToHstoreScanner
  dsimp only
  rw [lenFrom_of_drop (Nat.zero_le _) hd0, ok_bind, if_neg (by simp only [List.length_append, hw]; omega),
    uint32At_of_drop hd0, ok_bind, h1, if_neg (by omega)]
  rw [show ((1 : Int)).toNat = 0 + 1 from rfl, scanBinaryPairs_succ _ hd4 hk, if_neg (by omega)]
  rfl

/-- A value of `2^31` bytes: its length is written as the `int32` `-2^31`, and the scan reads the
pair back with a nil value. -/
theorem scanBinary_longValue :
    (encodePlanHstoreCodecBinary (some (.single [] (some (List.replicate (2 ^ 31) 0)))) [] >>=
      scanPlanBinaryHstoreToHstoreScanner) = .ok (some (HstoreMap.set (fun _ => none) ([], none))) :=
  scanBinary_negLength [] _ (by decide) (by rw [List.length_replicate]; decide)

end Pgx.Pgtype
