import Pgx.Go.Binary

/-!
# `pgproto3`: the framing and three message codecs

A message is its type byte, a big-endian `int32` length that counts itself, then the body
(`beginMessage`, `finishMessage`). `Decode` is given the body and trusts the counts and lengths it
reads there:

* `FunctionCallResponse` and `FunctionCall` read the length of a value through `uint32` into a Go
  `int`, where the NULL marker `-1` (bytes `FF FF FF FF`) reads as `4294967295`; so a NULL result
  does not survive a round trip (`functionCallResponse_null`), while every other result does
  (`functionCallResponse_roundTrip`);
* `FunctionCall.Decode` reads its first four bytes without checking that there are four
  (`functionCall_decode_short`);
* `Bind` reads lengths through `int32`, but slices `src[rp:rp+n]` for any negative `n` other than
  `-1` (`bind_decode_negative`).
-/

namespace Pgx.Proto

open Go

/-- `maxMessageBodyLen`. -/
def maxMessageBodyLen : Nat := 0x3fffffff - 1

/-- `invalidMessageFormatErr{messageType: t}`, by the text of its `Error()`. -/
def invalidMessageFormat (messageType : String) : Fault := .error (messageType ++ " body is invalid ")

/-- `pgio.AppendInt32`. -/
def appendInt32 (buf : List UInt8) (n : Int) : List UInt8 := buf ++ putUint32 (ofInt32 n)

/-- `beginMessage`: the type byte and a placeholder for the length, and where the placeholder is. -/
def beginMessage (dst : List UInt8) (t : UInt8) : List UInt8 × Nat :=
  (appendInt32 (dst ++ [t]) (-1), dst.length + 1)

/-- `finishMessage`: the length of all that follows the type byte, written over the placeholder. -/
def finishMessage (dst : List UInt8) (sp : Nat) : GoM (List UInt8) :=
  let messageBodyLen := (dst.drop sp).length
  if messageBodyLen > maxMessageBodyLen then .error (.error "message body too large")
  else .ok (dst.take sp ++ putUint32 (ofInt32 messageBodyLen) ++ dst.drop (sp + 4))

/-- `binary.BigEndian.Uint16(src[rp:])`. -/
def uint16At (src : List UInt8) (rp : Nat) : GoM UInt16 := do uint16 (← sliceFrom src rp)

/-- `binary.BigEndian.Uint32(src[rp:])`. -/
def uint32At (src : List UInt8) (rp : Nat) : GoM UInt32 := do uint32 (← sliceFrom src rp)

/-- `len(src[rp:])`. -/
def lenFrom (src : List UInt8) (rp : Nat) : GoM Nat := do return (← sliceFrom src rp).length

section Reads

variable {src : List UInt8} {rp : Nat}

theorem uint16At_of_le (h : rp ≤ src.length) : uint16At src rp = uint16 (src.drop rp) := by
  simp only [uint16At, sliceFrom_of_le h]
  rfl

theorem uint32At_of_le (h : rp ≤ src.length) : uint32At src rp = uint32 (src.drop rp) := by
  simp only [uint32At, sliceFrom_of_le h]
  rfl

theorem lenFrom_of_le (h : rp ≤ src.length) : lenFrom src rp = .ok (src.length - rp) := by
  simp [lenFrom, sliceFrom_of_le h, bind, Except.bind, pure, Except.pure]

theorem uint32At_of_drop {n : UInt32} {t : List UInt8} (h : src.drop rp = putUint32 n ++ t) :
    uint32At src rp = .ok n := by
  have hle : rp ≤ src.length := by
    have := congrArg List.length h
    simp only [List.length_drop, List.length_append, putUint32, List.length_cons,
      List.length_nil] at this
    omega
  rw [uint32At_of_le hle, h, uint32_putUint32]

theorem lenFrom_of_drop {r : List UInt8} (hle : rp ≤ src.length) (h : src.drop rp = r) :
    lenFrom src rp = .ok r.length := by
  rw [lenFrom_of_le hle, ← h, List.length_drop]

end Reads

/-- A whole message as `finishMessage` leaves it, for a body that is not too long. -/
theorem finishMessage_beginMessage (dst body : List UInt8) (t : UInt8)
    (h : body.length + 4 ≤ maxMessageBodyLen) :
    finishMessage ((beginMessage dst t).1 ++ body) (beginMessage dst t).2 =
      .ok (dst ++ [t] ++ putUint32 (ofInt32 (body.length + 4)) ++ body) := by
  set pre := dst ++ [t] with hpre
  have hw : (putUint32 (ofInt32 (-1))).length = 4 := rfl
  have hmsg : (beginMessage dst t).1 ++ body = pre ++ (putUint32 (ofInt32 (-1)) ++ body) := by
    simp [beginMessage, appendInt32, pre]
  have hsp : (beginMessage dst t).2 = pre.length := by simp [beginMessage, pre]
  -- the placeholder is replaced, and what precedes and follows it is kept
  have htake : (pre ++ (putUint32 (ofInt32 (-1)) ++ body)).take pre.length = pre := List.take_left
  have hrest : (pre ++ (putUint32 (ofInt32 (-1)) ++ body)).drop (pre.length + 4) = body := by
    rw [← List.drop_drop, List.drop_left, ← hw, List.drop_left]
  have hlen : ((pre ++ (putUint32 (ofInt32 (-1)) ++ body)).drop pre.length).length =
      body.length + 4 := by
    rw [List.drop_left, List.length_append, hw, Nat.add_comm]
  unfold finishMessage
  rw [hmsg, hsp]
  dsimp only
  rw [hlen, if_neg (by omega), htake, hrest]
  push_cast
  rfl

/-! ### `FunctionCallResponse` -/

/-- `FunctionCallResponse`: the result, `none` for NULL. -/
structure FunctionCallResponse where
  result : Option (List UInt8)
  deriving DecidableEq, Repr

/-- `FunctionCallResponse.Decode`. -/
def FunctionCallResponse.decode (src : List UInt8) : GoM FunctionCallResponse :=
  if src.length < 4 then .error (invalidMessageFormat "FunctionCallResponse")
  else do
    -- `int(binary.BigEndian.Uint32(src[0:]))`: a Go `int` is 64 bits wide, so this is never `-1`
    let resultSize : Int := (← uint32At src 0).toNat
    if resultSize = -1 then return ⟨none⟩
    else if ((src.drop 4).length : Int) ≠ resultSize then
      .error (invalidMessageFormat "FunctionCallResponse")
    else return ⟨some (src.drop 4)⟩

/-- `FunctionCallResponse.Encode`. -/
def FunctionCallResponse.encode (src : FunctionCallResponse) (dst : List UInt8) : GoM (List UInt8) :=
  let (dst, sp) := beginMessage dst 'V'.toUInt8
  let dst := match src.result with
    | none => appendInt32 dst (-1)
    | some r => appendInt32 dst r.length ++ r
  finishMessage dst sp

/-- The body `Encode` writes for a response. -/
def FunctionCallResponse.body (src : FunctionCallResponse) : List UInt8 :=
  match src.result with
  | none => putUint32 (ofInt32 (-1))
  | some r => putUint32 (ofInt32 r.length) ++ r

theorem FunctionCallResponse.encode_eq (src : FunctionCallResponse) (dst : List UInt8)
    (h : src.body.length + 4 ≤ maxMessageBodyLen) :
    src.encode dst = .ok (dst ++ ['V'.toUInt8] ++ putUint32 (ofInt32 (src.body.length + 4)) ++
      src.body) := by
  rw [← finishMessage_beginMessage dst src.body _ h, encode]
  rcases src with ⟨_ | r⟩ <;> simp [body, appendInt32]

/-- The body of a message: what follows the type byte and the length. -/
theorem drop_header (dst : List UInt8) (t : UInt8) (x : UInt32) (body : List UInt8) :
    (dst ++ [t] ++ putUint32 x ++ body).drop (dst.length + 5) = body := by
  have hlen : (dst ++ [t] ++ putUint32 x).length = dst.length + 5 := by
    simp [putUint32]
  rw [← hlen, List.drop_left]

/-- **A NULL result does not round-trip**: `Decode` rejects the body `Encode` writes for it. -/
theorem functionCallResponse_null (dst : List UInt8) :
    ∃ msg, FunctionCallResponse.encode ⟨none⟩ dst = .ok msg ∧
      FunctionCallResponse.decode (msg.drop (dst.length + 5)) =
        .error (invalidMessageFormat "FunctionCallResponse") := by
  refine ⟨_, FunctionCallResponse.encode_eq ⟨none⟩ dst (by decide), ?_⟩
  rw [drop_header]
  decide

/-- A result that is not NULL round-trips. -/
theorem functionCallResponse_roundTrip (r : List UInt8) (dst : List UInt8)
    (h : r.length + 8 ≤ maxMessageBodyLen) :
    ∃ msg, FunctionCallResponse.encode ⟨some r⟩ dst = .ok msg ∧
      FunctionCallResponse.decode (msg.drop (dst.length + 5)) = .ok ⟨some r⟩ := by
  have hb : (FunctionCallResponse.body ⟨some r⟩).length + 4 ≤ maxMessageBodyLen := by
    simp only [FunctionCallResponse.body, List.length_append]
    have : (putUint32 (ofInt32 r.length)).length = 4 := rfl
    omega
  refine ⟨_, FunctionCallResponse.encode_eq ⟨some r⟩ dst hb, ?_⟩
  rw [drop_header]
  -- the length reads back as itself: it is below `2 ^ 31`
  have hr : r.length < 2 ^ 31 := by unfold maxMessageBodyLen at h; omega
  have hsize : (ofInt32 r.length).toNat = r.length := by
    unfold ofInt32
    rw [UInt32.toNat_ofNat']
    omega
  have hread : uint32At (putUint32 (ofInt32 r.length) ++ r) 0 = .ok (ofInt32 r.length) := by
    rw [uint32At_of_le (Nat.zero_le _), List.drop_zero]
    exact uint32_putUint32 (ofInt32 r.length) r
  unfold FunctionCallResponse.decode
  simp only [FunctionCallResponse.body, List.length_append]
  rw [if_neg (by simp [putUint32]), hread]
  simp [hsize, putUint32, bind, Except.bind, pure, Except.pure]

/-! ### `FunctionCall` -/

/-- `FunctionCall`: arguments are `none` for NULL. -/
structure FunctionCall where
  function : UInt32
  argFormatCodes : List UInt16
  arguments : List (Option (List UInt8))
  resultFormatCode : UInt16
  deriving DecidableEq, Repr

/-- The loop over the `n` argument format codes, from `rp`; each must be `0` or `1`. -/
def FunctionCall.decodeCodes (src : List UInt8) : Nat → Nat → GoM (List UInt16 × Nat)
  | 0, rp => .ok ([], rp)
  | n + 1, rp => do
    let ac ← uint16At src rp
    if ac ≠ 0 ∧ ac ≠ 1 then .error (invalidMessageFormat "FunctionCall")
    else
      let (acs, rp) ← FunctionCall.decodeCodes src n (rp + 2)
      return (ac :: acs, rp)

/-- The loop over the `n` arguments, from `rp`: a length through `uint32` into an `int`, then the
value. -/
def FunctionCall.decodeArguments (src : List UInt8) :
    Nat → Nat → GoM (List (Option (List UInt8)) × Nat)
  | 0, rp => .ok ([], rp)
  | n + 1, rp => do
    let argumentLength : Int := (← uint32At src rp).toNat
    let rp := rp + 4
    if argumentLength = -1 then
      let (args, rp) ← FunctionCall.decodeArguments src n rp
      return (none :: args, rp)
    else
      let argumentValue ← slice src rp (rp + argumentLength)
      let (args, rp) ← FunctionCall.decodeArguments src n (rp + argumentLength.toNat)
      return (some argumentValue :: args, rp)

/-- `FunctionCall.Decode`. -/
def FunctionCall.decode (src : List UInt8) : GoM FunctionCall := do
  let function ← uint32At src 0
  let nArgumentCodes := (← uint16At src 4).toNat
  let (argFormatCodes, rp) ← FunctionCall.decodeCodes src nArgumentCodes 6
  let nArguments := (← uint16At src rp).toNat
  let (arguments, rp) ← FunctionCall.decodeArguments src nArguments (rp + 2)
  let resultFormatCode ← uint16At src rp
  if resultFormatCode ≠ 0 ∧ resultFormatCode ≠ 1 then .error (invalidMessageFormat "FunctionCall")
  else return ⟨function, argFormatCodes, arguments, resultFormatCode⟩

/-- **`FunctionCall.Decode` panics on a short body**: it reads the function's object ID before
looking at the length. -/
theorem functionCall_decode_short {src : List UInt8} (h : src.length < 4) :
    FunctionCall.decode src = .error (.panic "index out of range") := by
  have hread : uint32At src 0 = .error (.panic "index out of range") := by
    rw [uint32At_of_le (Nat.zero_le _), List.drop_zero]
    match src, h with
    | [], _ => rfl
    | [_], _ => rfl
    | [_, _], _ => rfl
    | [_, _, _], _ => rfl
  simp only [FunctionCall.decode, hread]
  rfl

theorem functionCall_decode_empty : FunctionCall.decode [] = .error (.panic "index out of range") :=
  functionCall_decode_short (by decide)

/-! ### `Bind` -/

/-- `Bind`: format codes are `int16`; parameters are `none` for NULL. -/
structure Bind where
  destinationPortal : List UInt8
  preparedStatement : List UInt8
  parameterFormatCodes : List Int
  parameters : List (Option (List UInt8))
  resultFormatCodes : List Int
  deriving DecidableEq, Repr

/-- The loop over `n` format codes from `rp`, after the length check. -/
def Bind.decodeFormatCodes (src : List UInt8) : Nat → Nat → GoM (List Int × Nat)
  | 0, rp => .ok ([], rp)
  | n + 1, rp => do
    let fc ← uint16At src rp
    let (fcs, rp) ← Bind.decodeFormatCodes src n (rp + 2)
    return (toInt16 fc :: fcs, rp)

/-- The loop over `n` parameters from `rp`: a length through `int32`, `-1` for NULL, then the
value. -/
def Bind.decodeParameters (src : List UInt8) : Nat → Nat → GoM (List (Option (List UInt8)) × Nat)
  | 0, rp => .ok ([], rp)
  | n + 1, rp => do
    if (← lenFrom src rp) < 4 then .error (invalidMessageFormat "Bind")
    else do
      let msgSize := toInt32 (← uint32At src rp)
      let rp := rp + 4
      if msgSize = -1 then
        let (ps, rp) ← Bind.decodeParameters src n rp
        return (none :: ps, rp)
      else if ((← lenFrom src rp) : Int) < msgSize then .error (invalidMessageFormat "Bind")
      else do
        let p ← slice src rp (rp + msgSize)
        let (ps, rp) ← Bind.decodeParameters src n (rp + msgSize).toNat
        return (some p :: ps, rp)

/-- `Bind.Decode`. -/
def Bind.decode (src : List UInt8) : GoM Bind := do
  match src.idxOf? 0 with
  | none => .error (invalidMessageFormat "Bind")
  | some idx =>
    let destinationPortal := src.take idx
    let rp := idx + 1
    match (← sliceFrom src rp).idxOf? 0 with
    | none => .error (invalidMessageFormat "Bind")
    | some idx =>
      let preparedStatement ← slice src rp (rp + idx)
      let rp := rp + idx + 1
      if (← lenFrom src rp) < 2 then .error (invalidMessageFormat "Bind") else do
      let parameterFormatCodeCount := (← uint16At src rp).toNat
      let rp := rp + 2
      let (parameterFormatCodes, rp) ← if parameterFormatCodeCount > 0 then do
          if (← lenFrom src rp) < parameterFormatCodeCount * 2 then
            .error (invalidMessageFormat "Bind")
          else Bind.decodeFormatCodes src parameterFormatCodeCount rp
        else pure ([], rp)
      if (← lenFrom src rp) < 2 then .error (invalidMessageFormat "Bind") else do
      let parameterCount := (← uint16At src rp).toNat
      let rp := rp + 2
      let (parameters, rp) ← if parameterCount > 0 then Bind.decodeParameters src parameterCount rp
        else pure ([], rp)
      if (← lenFrom src rp) < 2 then .error (invalidMessageFormat "Bind") else do
      let resultFormatCodeCount := (← uint16At src rp).toNat
      let rp := rp + 2
      if (← lenFrom src rp) < resultFormatCodeCount * 2 then .error (invalidMessageFormat "Bind")
      else do
        let (resultFormatCodes, _) ← Bind.decodeFormatCodes src resultFormatCodeCount rp
        return ⟨destinationPortal, preparedStatement, parameterFormatCodes, parameters,
          resultFormatCodes⟩

example : Bind.decode [0, 0, 0, 0, 0, 1, 0xFF, 0xFF, 0xFF, 0xFF, 0, 0] = .ok ⟨[], [], [], [none], []⟩ := by
  decide

/-- A parameter length below `-1` passes the check against what is left, and `Decode` slices
`src[rp:rp+msgSize]` with its upper bound below the lower one. -/
theorem Bind.decodeParameters_negative {src t : List UInt8} {rp : Nat} {n : Int}
    (hsrc : src.drop rp = putUint32 (ofInt32 n) ++ t) (h1 : -2 ^ 31 ≤ n) (h2 : n < -1) (k : Nat) :
    Bind.decodeParameters src (k + 1) rp = .error (.panic "slice bounds out of range") := by
  have hlen : rp + 4 ≤ src.length := by
    have := congrArg List.length hsrc
    simp [putUint32] at this
    omega
  have hread : uint32At src rp = .ok (ofInt32 n) := by
    rw [uint32At_of_le (by omega), hsrc, uint32_putUint32]
  have hsize : toInt32 (ofInt32 n) = n := toInt32_ofInt32 h1 (by omega)
  have hslice : slice src ((rp + 4 : Nat) : Int) ((rp + 4 : Nat) + n) =
      .error (.panic "slice bounds out of range") := by
    unfold slice
    rw [if_neg (by omega)]
  simp only [Bind.decodeParameters, lenFrom_of_le (show rp ≤ src.length by omega), hread,
    lenFrom_of_le hlen, bind, Except.bind, pure, Except.pure]
  rw [hsize, if_neg (by omega), if_neg (by omega), if_neg (by omega), hslice]

/-- **`Bind.Decode` panics on a negative parameter length other than `-1`**, here after an empty
portal and statement name, no format codes and one parameter. -/
theorem bind_decode_negative {n : Int} (h1 : -2 ^ 31 ≤ n) (h2 : n < -1) (t : List UInt8) :
    Bind.decode ([0, 0, 0, 0, 0, 1] ++ putUint32 (ofInt32 n) ++ t) =
      .error (.panic "slice bounds out of range") := by
  set src := [0, 0, 0, 0, 0, 1] ++ putUint32 (ofInt32 n) ++ t
  have hlen : src.length = 10 + t.length := by simp [src, putUint32]; omega
  have hportal : src.idxOf? 0 = some 0 := by simp [src, List.idxOf?_cons]
  have hstmt : (src.drop 1).idxOf? 0 = some 0 := by simp [src, List.idxOf?_cons]
  have hcodes : uint16At src 2 = .ok 0 := by rw [uint16At_of_le (by omega)]; rfl
  have hcount : uint16At src 4 = .ok 1 := by rw [uint16At_of_le (by omega)]; rfl
  have hparams : Bind.decodeParameters src 1 6 = .error (.panic "slice bounds out of range") :=
    Bind.decodeParameters_negative (show src.drop 6 = putUint32 (ofInt32 n) ++ t by simp [src]) h1 h2 0
  have hfrom : sliceFrom src 1 = .ok (src.drop 1) := @sliceFrom_of_le _ src 1 (by omega)
  have hname : slice src 1 1 = .ok [] := by
    unfold slice
    rw [if_pos (by omega)]
    rfl
  simp only [Bind.decode, hportal, Nat.zero_add, Nat.add_zero, Nat.reduceAdd, Nat.cast_one,
    Int.natCast_zero, Int.add_zero, hfrom, hstmt, hname, bind, Except.bind, pure, Except.pure,
    lenFrom_of_le (show 2 ≤ src.length by omega), lenFrom_of_le (show 4 ≤ src.length by omega),
    hcodes, hcount, show ¬ src.length - 2 < 2 by omega, show ¬ src.length - 4 < 2 by omega,
    UInt16.toNat_zero, UInt16.toNat_one, gt_iff_lt, Nat.lt_irrefl, Nat.one_pos, if_false, if_true, hparams]

example : Bind.decode [0, 0, 0, 0, 0, 1, 0xFF, 0xFF, 0xFF, 0xFB] = .error (.panic "slice bounds out of range") := by
  decide

end Pgx.Proto
