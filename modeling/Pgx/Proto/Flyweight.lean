import Pgx.Proto.Messages

/-!
# `pgproto3`: decoding into a message that was decoded before

`Frontend.Receive` keeps one value of each message type and decodes every message of that type
into it, so `Decode` starts from what the last message of the type left there, not from the zero
value. Each decoder is therefore modelled with the value it decodes into, and returns the value it
leaves together with the error it returns:

* `AuthenticationSASL.Decode` appends the mechanisms it reads to `AuthMechanisms` and never clears
  it, so a second message of the type is read as the mechanisms of both;
* `DataRow.Decode` reuses the backing array of `Values` when its capacity fits, and writes every
  field it reads, so a decode that succeeds shows the same values as one into the zero value and
  every decode returns the same error (`dataRow_decode_reused`).
-/

namespace Pgx.Proto

open Go

/-- `invalidMessageFormatErr{messageType: t, details: d}`, by the text of its `Error()`. -/
def invalidMessageFormatErr (messageType details : String) : Fault :=
  .error (messageType ++ " body is invalid " ++ details)

/-! ### `AuthenticationSASL` -/

/-- `AuthTypeSASL`. -/
def authTypeSASL : UInt32 := 10

/-- `AuthenticationSASL`: the names of the mechanisms, as bytes. -/
structure AuthenticationSASL where
  authMechanisms : List (List UInt8)
  deriving DecidableEq, Repr

/-- The loop of `AuthenticationSASL.Decode` over `src[4:]`: while more than one byte is left, the
bytes up to the next NUL are appended to the mechanisms so far. -/
def AuthenticationSASL.decodeMechanisms (mechs : List (List UInt8)) (authMechanisms : List UInt8) :
    List (List UInt8) × Option Fault :=
  if _h : authMechanisms.length > 1 then
    -- `bytes.IndexByte` returns `-1` where `idxOf` returns the length
    let idx := authMechanisms.idxOf 0
    if idx = authMechanisms.length then
      (mechs, some (invalidMessageFormatErr "AuthenticationSASL" "unterminated string"))
    else decodeMechanisms (mechs ++ [authMechanisms.take idx]) (authMechanisms.drop (idx + 1))
  else (mechs, none)
termination_by authMechanisms.length
decreasing_by simp only [List.length_drop]; omega

/-- `dst.Decode(src)` for an `AuthenticationSASL`: the message it leaves in `dst`, and its error. -/
def AuthenticationSASL.decode (dst : AuthenticationSASL) (src : List UInt8) :
    AuthenticationSASL × Option Fault :=
  if src.length < 4 then (dst, some (.error "authentication message too short"))
  else
    match uint32 src with
    | .error e => (dst, some e)
    | .ok authType =>
      if authType ≠ authTypeSASL then (dst, some (.error "bad auth type"))
      else
        let (mechs, err) := decodeMechanisms dst.authMechanisms (src.drop 4)
        (⟨mechs⟩, err)

/-- `AuthenticationSASL.Encode`: each name followed by a NUL, and a NUL after the last. -/
def AuthenticationSASL.encode (src : AuthenticationSASL) (dst : List UInt8) : GoM (List UInt8) :=
  let (dst, sp) := beginMessage dst 'R'.toUInt8
  let dst := dst ++ putUint32 authTypeSASL
  let dst := src.authMechanisms.foldl (fun dst s => dst ++ s ++ [0]) dst
  finishMessage (dst ++ [0]) sp

/-- The body `Encode` writes: what `Receive` passes to `Decode`. -/
def AuthenticationSASL.body (src : AuthenticationSASL) : List UInt8 :=
  putUint32 authTypeSASL ++ src.authMechanisms.flatMap (· ++ [0]) ++ [0]

theorem foldl_append_nul (names : List (List UInt8)) :
    ∀ dst : List UInt8, names.foldl (fun dst s => dst ++ s ++ [0]) dst = dst ++ names.flatMap (· ++ [0]) := by
  induction names with
  | nil => simp
  | cons n names ih =>
    intro dst
    rw [List.foldl_cons, ih, List.flatMap_cons]
    simp only [List.append_assoc]

theorem AuthenticationSASL.encode_eq (src : AuthenticationSASL) (dst : List UInt8)
    (h : src.body.length + 4 ≤ maxMessageBodyLen) :
    src.encode dst = .ok (dst ++ ['R'.toUInt8] ++ putUint32 (ofInt32 (src.body.length + 4)) ++ src.body) := by
  rw [← finishMessage_beginMessage dst src.body _ h, encode]
  dsimp only
  rw [foldl_append_nul]
  simp only [body, List.append_assoc]

/-- Reading the names `Encode` wrote, after the mechanisms `mechs` already there. -/
theorem AuthenticationSASL.decodeMechanisms_names :
    ∀ {names : List (List UInt8)} (mechs : List (List UInt8)), (∀ n ∈ names, (0 : UInt8) ∉ n) →
      decodeMechanisms mechs (names.flatMap (· ++ [0]) ++ [0]) = (mechs ++ names, none)
  | [], mechs, _ => by
    rw [decodeMechanisms]
    simp
  | n :: names, mechs, h => by
    have hn : (0 : UInt8) ∉ n := h n List.mem_cons_self
    have hidx : (n ++ 0 :: (names.flatMap (· ++ [0]) ++ [0])).idxOf 0 = n.length := by
      rw [List.idxOf_append_of_notMem hn, List.idxOf_cons_self, Nat.add_zero]
    have hrest : n ++ [0] ++ (names.flatMap (· ++ [0]) ++ [0]) =
        n ++ 0 :: (names.flatMap (· ++ [0]) ++ [0]) := by simp
    rw [decodeMechanisms, List.flatMap_cons, List.append_assoc, hrest, dif_pos (by simp; omega),
      hidx, if_neg (by simp), List.take_left, List.drop_append, List.drop_eq_nil_of_le (by omega),
      List.nil_append, Nat.add_sub_cancel_left, List.drop_one, List.tail_cons,
      decodeMechanisms_names (mechs ++ [n]) fun m hm => h m (List.mem_cons_of_mem _ hm),
      List.append_assoc, List.singleton_append]

/-- Decoding the body of an `AuthenticationSASL` into `dst`: the names are added to those of
`dst`. -/
theorem AuthenticationSASL.decode_body (dst src : AuthenticationSASL)
    (h : ∀ n ∈ src.authMechanisms, (0 : UInt8) ∉ n) :
    dst.decode src.body = (⟨dst.authMechanisms ++ src.authMechanisms⟩, none) := by
  have hlen : ¬src.body.length < 4 := by simp [body, putUint32]
  have hdrop : src.body.drop 4 = src.authMechanisms.flatMap (· ++ [0]) ++ [0] := by
    rw [body, List.append_assoc]
    exact List.drop_left' rfl
  unfold decode
  rw [if_neg hlen, body, List.append_assoc, uint32_putUint32]
  simp only [ne_eq, not_true_eq_false, if_false]
  rw [← List.append_assoc, ← body, hdrop, decodeMechanisms_names _ h]

/-- Decoding an `AuthenticationSASL` into the value that the one before was decoded into gives
the mechanisms of both messages, where decoding into the zero value gives those of the second. -/
theorem authenticationSASL_decode_reused (a b : AuthenticationSASL)
    (ha : ∀ n ∈ a.authMechanisms, (0 : UInt8) ∉ n) (hb : ∀ n ∈ b.authMechanisms, (0 : UInt8) ∉ n) :
    (AuthenticationSASL.decode ⟨[]⟩ a.body).1.decode b.body =
        (⟨a.authMechanisms ++ b.authMechanisms⟩, none) ∧
      AuthenticationSASL.decode ⟨[]⟩ b.body = (b, none) := by
  rw [AuthenticationSASL.decode_body _ _ ha, List.nil_append, AuthenticationSASL.decode_body _ _ hb,
    AuthenticationSASL.decode_body _ _ hb, List.nil_append]
  exact ⟨rfl, rfl⟩

/-- The mechanism `SCRAM-SHA-256`, received twice on one connection. -/
theorem authenticationSASL_decode_reused_scram :
    (∀ n ∈ [("SCRAM-SHA-256".toList.map Char.toUInt8)], (0 : UInt8) ∉ n) ∧
      (AuthenticationSASL.decode ⟨[]⟩ (AuthenticationSASL.body ⟨["SCRAM-SHA-256".toList.map Char.toUInt8]⟩)).1.decode
          (AuthenticationSASL.body ⟨["SCRAM-SHA-256".toList.map Char.toUInt8]⟩) =
        (⟨["SCRAM-SHA-256".toList.map Char.toUInt8, "SCRAM-SHA-256".toList.map Char.toUInt8]⟩, none) ∧
      AuthenticationSASL.decode ⟨[]⟩ (AuthenticationSASL.body ⟨["SCRAM-SHA-256".toList.map Char.toUInt8]⟩) =
        (⟨["SCRAM-SHA-256".toList.map Char.toUInt8]⟩, none) :=
  have h : ∀ n ∈ [("SCRAM-SHA-256".toList.map Char.toUInt8)], (0 : UInt8) ∉ n := by decide
  ⟨h, authenticationSASL_decode_reused ⟨_⟩ ⟨_⟩ h h⟩

/-! ### `DataRow` -/

/-- `DataRow`: the values of the fields, `none` for NULL, in a slice whose backing array `Decode`
may reuse. -/
structure DataRow where
  values : Slice (Option (List UInt8))
  deriving DecidableEq, Repr

/-- The slice `DataRow.Decode` fills: `Values` resliced to the field count, or a new one when its
capacity is too small or more than 32 too large. -/
def DataRow.valuesFor (values : Slice (Option (List UInt8))) (fieldCount : Nat) :
    Slice (Option (List UInt8)) :=
  if h : values.cap < fieldCount ∨ values.cap - fieldCount > 32 then
    Slice.make none fieldCount (if 32 < fieldCount then fieldCount else 32) (by split <;> omega)
  else values.take fieldCount (by omega)

/-- The loop of `DataRow.Decode` from field `i` at read position `rp`, with `n` fields left: each
value read is written to `Values[i]`. -/
def DataRow.decodeValues (src : List UInt8) :
    Slice (Option (List UInt8)) → (i rp n : Nat) → Slice (Option (List UInt8)) × Option Fault
  | values, _, _, 0 => (values, none)
  | values, i, rp, n + 1 =>
    if (src.drop rp).length < 4 then (values, some (invalidMessageFormat "DataRow"))
    else
      match uint32 (src.drop rp) with
      | .error e => (values, some e)
      | .ok x =>
        let valueLen := toInt32 x
        let rp := rp + 4
        if valueLen = -1 then decodeValues src (values.set i none) (i + 1) rp n
        else if ((src.drop rp).length : Int) < valueLen ∨ valueLen < 0 then
          (values, some (invalidMessageFormat "DataRow"))
        else
          decodeValues src (values.set i (some ((src.drop rp).take valueLen.toNat))) (i + 1)
            (rp + valueLen.toNat) n

/-- `dst.Decode(src)` for a `DataRow`: the row it leaves in `dst`, and its error. -/
def DataRow.decode (dst : DataRow) (src : List UInt8) : DataRow × Option Fault :=
  if src.length < 2 then (dst, some (invalidMessageFormat "DataRow"))
  else
    match uint16 src with
    | .error e => (dst, some e)
    | .ok c =>
      let (values, err) := decodeValues src (valuesFor dst.values c.toNat) 0 2 c.toNat
      (⟨values⟩, err)

theorem DataRow.valuesFor_len (values : Slice (Option (List UInt8))) (fieldCount : Nat) :
    (valuesFor values fieldCount).len = fieldCount := by
  unfold valuesFor
  split <;> rfl

/-- The loop writes every field from `i` on, so two slices of the same length that agree before `i`
end the same: the same error, and on success the same values. -/
theorem DataRow.decodeValues_agree (src : List UInt8) :
    ∀ (n i rp : Nat) (v w : Slice (Option (List UInt8))), v.len = i + n → w.len = i + n →
      v.toList.take i = w.toList.take i →
      (decodeValues src v i rp n).2 = (decodeValues src w i rp n).2 ∧
        ((decodeValues src v i rp n).2 = none →
          (decodeValues src v i rp n).1.toList = (decodeValues src w i rp n).1.toList)
  | 0, i, rp, v, w, hv, hw, hvw => by
    refine ⟨rfl, fun _ => ?_⟩
    have hv' : v.toList.take i = v.toList := List.take_of_length_le (by simp [hv])
    have hw' : w.toList.take i = w.toList := List.take_of_length_le (by simp [hw])
    simpa [decodeValues, hv', hw'] using hvw
  | n + 1, i, rp, v, w, hv, hw, hvw => by
    -- writing one more field keeps the two slices in step
    have ih : ∀ x rp', (decodeValues src (v.set i x) (i + 1) rp' n).2 =
          (decodeValues src (w.set i x) (i + 1) rp' n).2 ∧
        ((decodeValues src (v.set i x) (i + 1) rp' n).2 = none →
          (decodeValues src (v.set i x) (i + 1) rp' n).1.toList =
            (decodeValues src (w.set i x) (i + 1) rp' n).1.toList) := by
      intro x rp'
      refine decodeValues_agree src n (i + 1) rp' _ _ (by simp; omega) (by simp; omega) ?_
      rw [Slice.toList_set_take x (by omega), Slice.toList_set_take x (by omega), hvw]
    simp only [decodeValues]
    split_ifs
    · exact ⟨rfl, by simp⟩
    · cases uint32 (src.drop rp) with
      | error e => exact ⟨rfl, by simp⟩
      | ok x =>
        dsimp only
        split_ifs
        · exact ih none _
        · exact ⟨rfl, by simp⟩
        · exact ih _ _

/-- Decoding a `DataRow` into a row decoded before returns the same error as decoding it into the
zero value, and, where that decode succeeds, the same values. -/
theorem dataRow_decode_reused (dst : DataRow) (src : List UInt8) :
    (dst.decode src).2 = (DataRow.decode ⟨Slice.nil⟩ src).2 ∧
      ((DataRow.decode ⟨Slice.nil⟩ src).2 = none →
        (dst.decode src).1.values.toList = (DataRow.decode ⟨Slice.nil⟩ src).1.values.toList) := by
  unfold DataRow.decode
  split_ifs
  · exact ⟨rfl, by simp⟩
  · cases uint16 src with
    | error e => exact ⟨rfl, by simp⟩
    | ok c =>
      have h := DataRow.decodeValues_agree src c.toNat 0 2 (DataRow.valuesFor dst.values c.toNat)
        (DataRow.valuesFor Slice.nil c.toNat) (by simp [DataRow.valuesFor_len])
        (by simp [DataRow.valuesFor_len]) (by simp)
      exact ⟨h.1, fun hn => h.2 (h.1.trans hn)⟩

end Pgx.Proto
