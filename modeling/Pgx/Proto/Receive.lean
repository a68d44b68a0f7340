import Pgx.Go.Binary
import Pgx.Proto.ChunkReader

/-!
# `Frontend.Receive` and `Backend.Receive`

A call of `Receive` reads a message from the chunk reader and hands its type and body to
`Decode`. It keeps three fields across calls: `partialMsg`, set once the five header bytes have
been read, `msgType` and `bodyLen`. A call that finds `partialMsg` set skips the header: so a call
that fails after reading the header leaves the next one to read the body.

The two sides differ in one place. `Frontend.Receive` reads the body and clears `partialMsg`
before it looks at the message type; `Backend.Receive` rejects an unknown type before reading the
body, with `partialMsg` still set, so the next call rejects the same type again without reading
anything.

* `Frame`, `frameBytes`: a stream of well-formed messages;
* `Receiver.Inv`: the receiver sits between two frames of the stream, or after the header of the
  first one;
* `Step`: what one call does on such a stream; `Frontend.receive_step`, `Backend.receive_step`;
* `receiveN_frames`: over any number of calls, the frames read are the stream's, in order, and
  all of them are read once there have been as many calls as frames and scheduled read errors;
* `backend_receive_stuck`: after an unknown type, the backend returns the same error forever.
-/

namespace Pgx.Proto

open Go Go.Io

/-- `translateEOFtoErrUnexpectedEOF`. -/
def translateEOFtoErrUnexpectedEOF : Error → Error
  | .eof => .unexpectedEOF
  | e => e

/-- The errors of `Receive`. -/
inductive ReceiveError
  /-- The reader's error, from `Next`. -/
  | io (e : Error)
  /-- `ExceededMaxBodyLenErr`. -/
  | exceededMaxBodyLen (maxExpectedBodyLen actualBodyLen : Int)
  /-- An error made by `fmt.Errorf` or `errors.New`, by its text. -/
  | msg (text : String)
  /-- A run-time panic. -/
  | panic (text : String)
  deriving DecidableEq, Repr

/-- What a call of `Receive` did: hand a message type and body to `Decode`, or fail before. -/
inductive Received
  | decode (msgType : UInt8) (body : List UInt8)
  | error (e : ReceiveError)
  deriving DecidableEq, Repr

/-- A call that failed on a read. -/
def Received.isReadError : Received → Bool
  | .error (.io _) => true
  | _ => false

/-- The fields `Receive` keeps across calls, the same in `Frontend` and `Backend`. -/
structure Receiver where
  cr : ChunkReader
  partialMsg : Bool
  msgType : UInt8
  bodyLen : Nat
  maxBodyLen : Int

/-- `NewFrontend`. -/
def newFrontend (r : Reader) : Receiver := ⟨newChunkReader r 0, false, 0, 0, 0⟩

/-- `NewBackend`. -/
def newBackend (r : Reader) : Receiver := ⟨newChunkReader r 0, false, 0, 0, 0⟩

/-- `fmt.Errorf("unknown message type: %c", msgType)`. -/
def unknownMessageType (msgType : UInt8) : ReceiveError :=
  .msg ("unknown message type: " ++ String.singleton (Char.ofUInt8 msgType))

/-- What `Receive` does with the header bytes it read: remember the type, check the length and
remember the body length. -/
def Receiver.acceptHeader (s : Receiver) : List UInt8 → Option ReceiveError × Receiver
  -- `header[0]` and `binary.BigEndian.Uint32(header[1:])` on fewer than five bytes
  | [] => (some (.panic "index out of range"), s)
  | msgType :: lenBytes =>
    let s := { s with msgType }
    match uint32 lenBytes with
    | .error _ => (some (.panic "index out of range"), s)
    | .ok len =>
      let msgLength := len.toNat
      if msgLength < 4 then (some (.msg ("invalid message length: " ++ toString msgLength)), s)
      else
        let s := { s with bodyLen := msgLength - 4 }
        if 0 < s.maxBodyLen ∧ s.maxBodyLen < s.bodyLen then
          (some (.exceededMaxBodyLen s.maxBodyLen s.bodyLen), s)
        else (none, { s with partialMsg := true })

/-- The header half of `Receive`, the same on both sides: unless a message is partly read, read
its five header bytes. -/
def Receiver.receiveHeader (s : Receiver) : Option ReceiveError × Receiver :=
  if s.partialMsg then (none, s)
  else
    match s.cr.next 5 with
    | (.error e, cr) => (some (.io (translateEOFtoErrUnexpectedEOF e)), { s with cr })
    | (.ok header, cr) => { s with cr }.acceptHeader header

/-! ### The two sides -/

/-- The message types the switch of `Frontend.Receive` hands to `Decode` directly. -/
def Frontend.msgTypes : List UInt8 :=
  ['1', '2', '3', 'A', 'c', 'C', 'd', 'D', 'E', 'G', 'H', 'I', 'K', 'n', 'N', 's', 'S', 't', 'T',
    'V', 'W', 'Z'].map Char.toUInt8

/-- `findAuthenticationMessageType`: the authentication type at the start of an `R` body, or why
no message is decoded for it (`Uint32` fails exactly on the bodies shorter than four bytes). -/
def findAuthenticationMessageType (src : List UInt8) : Except String UInt32 :=
  match uint32 src with
  | .error _ => .error "authentication message too short"
  | .ok authType =>
    if authType ∈ [0, 3, 5, 7, 8, 10, 11, 12] then .ok authType
    else if authType = 6 then .error "AuthTypeSCMCreds is unimplemented"
    else if authType = 9 then .error "AuthTypeSSPI is unimplemented"
    else .error ("unknown authentication type: " ++ toString authType)

/-- The switch of `Frontend.Receive`, on a message whose body has been read. -/
def Frontend.dispatch (msgType : UInt8) (msgBody : List UInt8) : Received :=
  if msgType = 'R'.toUInt8 then
    match findAuthenticationMessageType msgBody with
    | .error e => .error (.msg e)
    | .ok _ => .decode msgType msgBody
  else if msgType ∈ Frontend.msgTypes then .decode msgType msgBody
  else .error (unknownMessageType msgType)

/-- The body half of `Frontend.Receive`: the body is read, and `partialMsg` cleared, before the
type is looked at. -/
def Frontend.receiveBody (f : Receiver) : Received × Receiver :=
  match f.cr.next f.bodyLen with
  | (.error e, cr) => (.error (.io (translateEOFtoErrUnexpectedEOF e)), { f with cr })
  | (.ok msgBody, cr) => (Frontend.dispatch f.msgType msgBody, { f with cr, partialMsg := false })

/-- `Frontend.Receive`. -/
def Frontend.receive (f : Receiver) : Received × Receiver :=
  match f.receiveHeader with
  | (some e, f) => (.error e, f)
  | (none, f) => Frontend.receiveBody f

/-- The message types of the switch of `Backend.Receive`. -/
def Backend.msgTypes : List UInt8 :=
  ['B', 'C', 'D', 'E', 'F', 'f', 'd', 'c', 'H', 'P', 'p', 'Q', 'S', 'X'].map Char.toUInt8

/-- The body half of `Backend.Receive`, for a known type. -/
def Backend.receiveBody (b : Receiver) : Received × Receiver :=
  match b.cr.next b.bodyLen with
  | (.error e, cr) => (.error (.io (translateEOFtoErrUnexpectedEOF e)), { b with cr })
  | (.ok msgBody, cr) => (.decode b.msgType msgBody, { b with cr, partialMsg := false })

/-- `Backend.Receive`: an unknown type is rejected before the body is read, with `partialMsg`
still set. -/
def Backend.receive (b : Receiver) : Received × Receiver :=
  match b.receiveHeader with
  | (some e, b) => (.error e, b)
  | (none, b) =>
    if b.msgType ∈ Backend.msgTypes then Backend.receiveBody b
    else (.error (unknownMessageType b.msgType), b)

/-- `k` calls of `receive`: what each did, and the state after them. -/
def receiveN (receive : Receiver → Received × Receiver) : Nat → Receiver → List Received × Receiver
  | 0, s => ([], s)
  | k + 1, s =>
    ((receive s).1 :: (receiveN receive k (receive s).2).1, (receiveN receive k (receive s).2).2)

theorem receiveN_succ (receive : Receiver → Received × Receiver) (k : Nat) (s : Receiver) :
    receiveN receive (k + 1) s =
      ((receive s).1 :: (receiveN receive k (receive s).2).1, (receiveN receive k (receive s).2).2) :=
  rfl

/-! ### Streams of frames -/

/-- A message on the wire. -/
structure Frame where
  msgType : UInt8
  body : List UInt8
  deriving DecidableEq, Repr

/-- A frame's bytes: its type, the big-endian length that counts itself, its body. -/
def Frame.bytes (fr : Frame) : List UInt8 :=
  fr.msgType :: (putUint32 (UInt32.ofNat (fr.body.length + 4)) ++ fr.body)

/-- The bytes of a stream of frames. -/
def frameBytes (frames : List Frame) : List UInt8 := frames.flatMap Frame.bytes

/-- A frame `Receive` accepts: its length fits in a `uint32`, and its body within `maxBodyLen`
when that is set. -/
def Frame.Fits (maxBodyLen : Int) (fr : Frame) : Prop :=
  fr.body.length + 4 < 2 ^ 32 ∧ (0 < maxBodyLen → fr.body.length ≤ maxBodyLen)

/-- The receiver's place in a stream of frames: between two frames, or after the header of the
first one, with its type and body length remembered. -/
inductive Aligned (s : Receiver) : List Frame → Prop
  | between {frames : List Frame} (hp : s.partialMsg = false) (hr : s.cr.rest = frameBytes frames) :
      Aligned s frames
  | inside {fr : Frame} {rest : List Frame} (hp : s.partialMsg = true) (ht : s.msgType = fr.msgType)
      (hl : s.bodyLen = fr.body.length) (hr : s.cr.rest = fr.body ++ frameBytes rest) :
      Aligned s (fr :: rest)

/-- A receiver in its place in a stream of frames that it accepts. -/
structure Receiver.Inv (s : Receiver) (frames : List Frame) : Prop where
  wf : s.cr.Wf
  aligned : Aligned s frames
  fits : ∀ fr ∈ frames, fr.Fits s.maxBodyLen

/-- What one call of `Receive` with the switch `dispatch` does on a stream of frames: it fails on
a read and keeps its place, using up an entry of the schedule unless no frame is left; or it reads
the first frame whole and hands it to the switch. -/
inductive Step (dispatch : UInt8 → List UInt8 → Received) (s : Receiver) (frames : List Frame) :
    Received → Receiver → Prop
  | readError {e : Error} {s' : Receiver} (hinv : s'.Inv frames)
      (hsched : frames ≠ [] → s'.cr.r.sched.length < s.cr.r.sched.length)
      (hle : s'.cr.r.sched.length ≤ s.cr.r.sched.length) :
      Step dispatch s frames (.error (.io e)) s'
  | frame {fr : Frame} {rest : List Frame} {s' : Receiver} (hf : frames = fr :: rest)
      (hinv : s'.Inv rest) (hle : s'.cr.r.sched.length ≤ s.cr.r.sched.length) :
      Step dispatch s frames (dispatch fr.msgType fr.body) s'

/-! ### Reading a header and a body -/

section Frames

variable {s : Receiver} {frames : List Frame}

theorem frame_bytes_length (fr : Frame) : fr.bytes.length = 5 + fr.body.length := by
  simp only [Frame.bytes, List.length_cons, List.length_append, putUint32, List.length_nil]
  omega

theorem frameBytes_cons (fr : Frame) (rest : List Frame) :
    frameBytes (fr :: rest) =
      (fr.msgType :: putUint32 (UInt32.ofNat (fr.body.length + 4))) ++ (fr.body ++ frameBytes rest) := by
  simp [frameBytes, Frame.bytes]

theorem receiveHeader_of_partialMsg (hp : s.partialMsg = true) : s.receiveHeader = (none, s) := by
  simp [Receiver.receiveHeader, hp]

/-- The header of a frame the receiver accepts: its length reads back, and passes both checks. -/
theorem acceptHeader_frame {fr : Frame} (hfit : fr.Fits s.maxBodyLen) :
    s.acceptHeader (fr.msgType :: putUint32 (UInt32.ofNat (fr.body.length + 4))) =
      (none, { s with msgType := fr.msgType, bodyLen := fr.body.length, partialMsg := true }) := by
  obtain ⟨hlen, hmax⟩ := hfit
  have hread := uint32_putUint32 (UInt32.ofNat (fr.body.length + 4)) []
  rw [List.append_nil] at hread
  have hval : (UInt32.ofNat (fr.body.length + 4)).toNat = fr.body.length + 4 :=
    UInt32.toNat_ofNat_of_lt' hlen
  simp only [Receiver.acceptHeader, hread, hval]
  rw [if_neg (by omega), Nat.add_sub_cancel, if_neg (by omega)]

theorem Receiver.Inv.rest_of_between (hinv : s.Inv frames) (hp : s.partialMsg = false) :
    s.cr.rest = frameBytes frames := by
  cases hinv.aligned with
  | between _ hr => exact hr
  | inside hp' => simp [hp] at hp'

/-- A read of `n` bytes from a stream that has them fails only on an error of the schedule. -/
theorem sched_lt_of_error {cr cr' : ChunkReader} {n : Nat} {e : Error}
    {res : Except Error (List UInt8)} (ht : ChunkReader.Took cr n res cr') (he : res = .error e)
    (hn : n ≤ cr.rest.length) : cr'.r.sched.length < cr.r.sched.length :=
  (ht.error e he).2.resolve_right (by omega)

/-- **Reading the header between two frames**: a read error keeps the place, using up an entry of
the schedule unless no frame is left; otherwise the receiver is after the header of the first
frame. -/
theorem receiveHeader_between {o : Option ReceiveError} {s1 : Receiver} (hinv : s.Inv frames)
    (hp : s.partialMsg = false) (hh : s.receiveHeader = (o, s1)) :
    (∃ e, o = some (.io e) ∧ s1.Inv frames ∧
        (frames ≠ [] → s1.cr.r.sched.length < s.cr.r.sched.length) ∧
        s1.cr.r.sched.length ≤ s.cr.r.sched.length) ∨
      (o = none ∧ s1.Inv frames ∧ s1.partialMsg = true ∧
        s1.cr.r.sched.length ≤ s.cr.r.sched.length) := by
  have hr := hinv.rest_of_between hp
  have ht := ChunkReader.next_took (n := 5) hinv.wf
  unfold Receiver.receiveHeader at hh
  rw [if_neg (by simp [hp])] at hh
  rcases hn : s.cr.next 5 with ⟨_ | header, cr⟩
  all_goals rw [hn] at ht hh
  · -- the read failed: nothing of the stream is lost
    rename_i e
    cases hh
    refine .inl ⟨_, rfl, ⟨ht.wf, .between hp ((ht.error e rfl).1.trans hr), hinv.fits⟩,
      fun hne => sched_lt_of_error ht rfl ?_, ht.sched_le⟩
    obtain ⟨fr, rest, rfl⟩ := List.exists_cons_of_ne_nil hne
    rw [hr, frameBytes, List.flatMap_cons, List.length_append, frame_bytes_length]
    omega
  · obtain ⟨hlen, hsplit⟩ := ht.ok header rfl
    cases frames with
    | nil =>
      -- an empty stream has no five bytes
      rw [hr] at hsplit
      have := congrArg List.length hsplit
      simp [frameBytes] at this
      omega
    | cons fr rest =>
      -- the five bytes read are the first frame's header
      rw [hr, frameBytes_cons] at hsplit
      obtain ⟨hheader, hcr⟩ := List.append_inj hsplit.symm (by simp [hlen, putUint32])
      dsimp only at hh
      rw [hheader, acceptHeader_frame (s := { s with cr }) (hinv.fits fr List.mem_cons_self)] at hh
      cases hh
      exact .inr ⟨rfl, ⟨ht.wf, .inside rfl rfl rfl hcr, hinv.fits⟩, rfl, ht.sched_le⟩

theorem Receiver.Inv.inside_fields {fr : Frame} {rest : List Frame} (hinv : s.Inv (fr :: rest))
    (hp : s.partialMsg = true) :
    s.msgType = fr.msgType ∧ s.bodyLen = fr.body.length ∧ s.cr.rest = fr.body ++ frameBytes rest := by
  cases hinv.aligned with
  | between hp' => simp [hp] at hp'
  | inside _ ht hl hr => exact ⟨ht, hl, hr⟩

theorem Receiver.Inv.ne_nil (hinv : s.Inv frames) (hp : s.partialMsg = true) : frames ≠ [] := by
  cases hinv.aligned with
  | between hp' => simp [hp] at hp'
  | inside => exact List.cons_ne_nil _ _

/-- **Reading the body after the header**: a read error keeps the place and uses up an entry of
the schedule; otherwise the body read is the frame's, and the receiver is between frames. -/
theorem readBody_inside {fr : Frame} {rest : List Frame} {res : Except Error (List UInt8)}
    {cr : ChunkReader} (hinv : s.Inv (fr :: rest)) (hp : s.partialMsg = true)
    (hn : s.cr.next s.bodyLen = (res, cr)) :
    (∃ e, res = .error e ∧ ({ s with cr } : Receiver).Inv (fr :: rest) ∧
        cr.r.sched.length < s.cr.r.sched.length) ∨
      (res = .ok fr.body ∧ ({ s with cr, partialMsg := false } : Receiver).Inv rest ∧
        cr.r.sched.length ≤ s.cr.r.sched.length) := by
  obtain ⟨ht, hl, hr⟩ := hinv.inside_fields hp
  have htook := ChunkReader.next_took (n := s.bodyLen) hinv.wf
  rw [hn] at htook
  have hfits : ∀ f ∈ rest, f.Fits s.maxBodyLen := fun f hf => hinv.fits f (List.mem_cons_of_mem _ hf)
  rcases res with e | body
  · -- the read failed: the receiver stays after the header
    refine .inl ⟨e, rfl, ⟨htook.wf, .inside hp ht hl ((htook.error e rfl).1.trans hr), hinv.fits⟩,
      sched_lt_of_error htook rfl (by rw [hr, List.length_append]; omega)⟩
  · -- the bytes read are the body, and the stream goes on with the next frame
    obtain ⟨hlen, hsplit⟩ := htook.ok body rfl
    rw [hr] at hsplit
    obtain ⟨hb, hcr⟩ := List.append_inj hsplit.symm (by rw [hlen, hl])
    exact .inr ⟨by rw [hb], ⟨htook.wf, .between rfl hcr, hfits⟩, htook.sched_le⟩

end Frames

/-! ### One call of `Receive` -/

section Steps

variable {dispatch : UInt8 → List UInt8 → Received} {s s1 s' : Receiver} {frames : List Frame}
  {x : Received}

/-- A step from `s1` is one from any `s` whose schedule is no shorter. -/
theorem Step.of_le (hle : s1.cr.r.sched.length ≤ s.cr.r.sched.length) :
    Step dispatch s1 frames x s' → Step dispatch s frames x s'
  | .readError hinv hsched hle' => .readError hinv (fun hne => Nat.lt_of_lt_of_le (hsched hne) hle)
      (Nat.le_trans hle' hle)
  | .frame hf hinv hle' => .frame hf hinv (Nat.le_trans hle' hle)

/-- The body half of a call, from after the header: a read error, or the whole frame handed to
`dispatch`. -/
theorem step_of_readBody {body : Received × Receiver} (hinv : s.Inv frames)
    (hp : s.partialMsg = true)
    (hbody : ∀ res cr, s.cr.next s.bodyLen = (res, cr) → body =
      match res with
      | .error e => (.error (.io (translateEOFtoErrUnexpectedEOF e)), { s with cr })
      | .ok msgBody => (dispatch s.msgType msgBody, { s with cr, partialMsg := false })) :
    Step dispatch s frames body.1 body.2 := by
  obtain ⟨fr, rest, rfl⟩ := List.exists_cons_of_ne_nil (hinv.ne_nil hp)
  have ht := (hinv.inside_fields hp).1
  rcases hn : s.cr.next s.bodyLen with ⟨res, cr⟩
  rw [hbody res cr hn]
  rcases readBody_inside hinv hp hn with ⟨e, rfl, hinv', hlt⟩ | ⟨rfl, hinv', hle⟩
  · exact .readError hinv' (fun _ => hlt) (Nat.le_of_lt hlt)
  · have h : Step dispatch s (fr :: rest) (dispatch fr.msgType fr.body) _ := .frame rfl hinv' hle
    rw [← ht] at h
    exact h

/-- A whole call: the shared header half, then a body half that steps from after the header. -/
theorem step_of_receiveHeader {recv body : Receiver → Received × Receiver}
    (hrecv : ∀ s, recv s = match s.receiveHeader with
      | (some e, s1) => (.error e, s1)
      | (none, s1) => body s1)
    (hbody : ∀ s1, s1.Inv frames → s1.partialMsg = true →
      Step dispatch s1 frames (body s1).1 (body s1).2)
    (hinv : s.Inv frames) : Step dispatch s frames (recv s).1 (recv s).2 := by
  rw [hrecv]
  cases hp : s.partialMsg with
  | false =>
    rcases hh : s.receiveHeader with ⟨o, s1⟩
    rcases receiveHeader_between hinv hp hh with ⟨e, rfl, hinv1, hlt, hle⟩ | ⟨rfl, hinv1, hp1, hle⟩
    · exact .readError hinv1 hlt hle
    · exact (hbody s1 hinv1 hp1).of_le hle
  | true =>
    rw [receiveHeader_of_partialMsg hp]
    exact hbody s hinv hp

/-- **`Frontend.Receive` on a stream of frames**: each call fails on a read and keeps its place,
or reads the next frame whole, whatever its type. -/
theorem Frontend.receive_step (hinv : s.Inv frames) :
    Step Frontend.dispatch s frames (Frontend.receive s).1 (Frontend.receive s).2 :=
  step_of_receiveHeader (fun _ => rfl)
    (fun _ hinv1 hp1 => step_of_readBody hinv1 hp1 (fun res cr hn => by rw [Frontend.receiveBody, hn]; cases res <;> rfl))
    hinv

/-- **`Backend.Receive` on a stream of frames of known types.** -/
theorem Backend.receive_step (hinv : s.Inv frames)
    (hknown : ∀ fr ∈ frames, fr.msgType ∈ Backend.msgTypes) :
    Step .decode s frames (Backend.receive s).1 (Backend.receive s).2 := by
  refine step_of_receiveHeader (fun _ => rfl) (fun s1 hinv1 hp1 => ?_) hinv
  obtain ⟨fr, rest, rfl⟩ := List.exists_cons_of_ne_nil (hinv1.ne_nil hp1)
  have ht : s1.msgType ∈ Backend.msgTypes := by
    rw [(hinv1.inside_fields hp1).1]
    exact hknown fr List.mem_cons_self
  simp only [if_pos ht]
  exact step_of_readBody hinv1 hp1 (fun res cr hn => by rw [Backend.receiveBody, hn]; cases res <;> rfl)

end Steps

/-! ### Runs -/

/-- **A run over a stream of frames.** After any number of calls, the calls that did not fail on
a read handed the first frames of the stream to the switch, in order, and the receiver is in its
place before the other frames; once there have been as many calls as frames and entries of the
schedule, every frame has been read. The induction is on the number of calls, with the step lemma
for each. -/
theorem receiveN_frames {dispatch : UInt8 → List UInt8 → Received}
    {recv : Receiver → Received × Receiver} {all : List Frame}
    (hd : ∀ t b, (dispatch t b).isReadError = false)
    (hstep : ∀ s fs, fs <:+ all → s.Inv fs → Step dispatch s fs (recv s).1 (recv s).2)
    (k : Nat) (s : Receiver) (frames : List Frame) (hsuf : frames <:+ all) (hinv : s.Inv frames) :
    ∃ done rest, frames = done ++ rest ∧ (receiveN recv k s).2.Inv rest ∧
      (receiveN recv k s).1.filter (fun x => !x.isReadError) =
        done.map (fun fr => dispatch fr.msgType fr.body) ∧
      (frames.length + s.cr.r.sched.length ≤ k → rest = []) := by
  induction k generalizing s frames with
  | zero =>
    refine ⟨[], frames, rfl, hinv, rfl, fun hk => List.eq_nil_of_length_eq_zero (by omega)⟩
  | succ k ih =>
    have h := hstep s frames hsuf hinv
    rcases hr : recv s with ⟨x, s'⟩
    rw [hr] at h
    dsimp only at h
    rw [receiveN_succ, hr]
    cases h with
    | readError hinv' hsched hle =>
      -- a read error hands nothing to the switch, and costs an entry of the schedule
      obtain ⟨done, rest, h1, h2, h3, h4⟩ := ih s' frames hsuf hinv'
      refine ⟨done, rest, h1, h2, by simpa [Received.isReadError] using h3, fun hk => ?_⟩
      by_cases hne : frames = []
      · simp [hne] at h1
        exact h1.2
      · exact h4 (by have := hsched hne; omega)
    | frame hf hinv' hle =>
      -- the first frame is read whole: the rest of the run is over the other frames
      rename_i fr rest0
      subst hf
      obtain ⟨done, rest, h1, h2, h3, h4⟩ :=
        ih s' rest0 (List.IsSuffix.trans (List.suffix_cons fr rest0) hsuf) hinv'
      refine ⟨fr :: done, rest, by rw [h1, List.cons_append], h2, ?_, fun hk => h4 ?_⟩
      · simp [hd, h3]
      · simp only [List.length_cons] at hk
        omega

theorem newReceiver_inv {frames : List Frame} {sched : List (Nat × Option Error)}
    (hfit : ∀ fr ∈ frames, fr.body.length + 4 < 2 ^ 32) :
    (⟨newChunkReader ⟨frameBytes frames, sched⟩ 0, false, 0, 0, 0⟩ : Receiver).Inv frames :=
  ⟨newChunkReader_wf _ _, .between rfl (newChunkReader_rest _ _),
    fun fr hfr => ⟨hfit fr hfr, fun h => absurd h (lt_irrefl 0)⟩⟩

theorem Frontend.dispatch_isReadError (t : UInt8) (b : List UInt8) :
    (Frontend.dispatch t b).isReadError = false := by
  unfold Frontend.dispatch
  split_ifs
  · split <;> rfl
  · rfl
  · rfl

/-- **`Frontend.Receive` reads every stream of frames in order, however the stream arrives**:
split into any chunks and interrupted by any read errors, the calls that do not fail on a read
hand the frames to the switch one after the other, none lost, repeated or misaligned, also after a
call that failed on an unknown type or on a Decode error; and all of them once there have been as
many calls as frames and scheduled reads. -/
theorem frontend_receive_frames (frames : List Frame) (sched : List (Nat × Option Error))
    (hfit : ∀ fr ∈ frames, fr.body.length + 4 < 2 ^ 32) (k : Nat) :
    ∃ done rest, frames = done ++ rest ∧
      (receiveN Frontend.receive k (newFrontend ⟨frameBytes frames, sched⟩)).1.filter
          (fun x => !x.isReadError) = done.map (fun fr => Frontend.dispatch fr.msgType fr.body) ∧
      (frames.length + sched.length ≤ k → rest = []) := by
  obtain ⟨done, rest, h1, -, h3, h4⟩ :=
    receiveN_frames Frontend.dispatch_isReadError
      (fun _ _ _ hinv => Frontend.receive_step hinv) k _ frames List.suffix_rfl (newReceiver_inv hfit)
  exact ⟨done, rest, h1, h3, h4⟩

/-- `Backend.Receive` reads every stream of frames of known types in order, however it arrives. -/
theorem backend_receive_frames (frames : List Frame) (sched : List (Nat × Option Error))
    (hfit : ∀ fr ∈ frames, fr.body.length + 4 < 2 ^ 32)
    (hknown : ∀ fr ∈ frames, fr.msgType ∈ Backend.msgTypes) (k : Nat) :
    ∃ done rest, frames = done ++ rest ∧
      (receiveN Backend.receive k (newBackend ⟨frameBytes frames, sched⟩)).1.filter
          (fun x => !x.isReadError) = done.map (fun fr => .decode fr.msgType fr.body) ∧
      (frames.length + sched.length ≤ k → rest = []) := by
  obtain ⟨done, rest, h1, -, h3, h4⟩ :=
    receiveN_frames (fun _ _ => rfl)
      (fun _ _ hsuf hinv => Backend.receive_step hinv (fun fr hfr => hknown fr (hsuf.subset hfr)))
      k _ frames List.suffix_rfl (newReceiver_inv hfit)
  exact ⟨done, rest, h1, h3, h4⟩

/-! ### The backend after an unknown type -/

section Backend

variable {s : Receiver} {fr : Frame} {rest : List Frame}

/-- After an unknown type, `Backend.Receive` returns the same error and changes nothing. -/
theorem Backend.receive_stuck (hp : s.partialMsg = true) (ht : s.msgType ∉ Backend.msgTypes) :
    Backend.receive s = (.error (unknownMessageType s.msgType), s) := by
  simp [Backend.receive, receiveHeader_of_partialMsg hp, ht]

theorem Backend.receiveN_stuck (hp : s.partialMsg = true) (ht : s.msgType ∉ Backend.msgTypes)
    (k : Nat) :
    receiveN Backend.receive k s = (List.replicate k (.error (unknownMessageType s.msgType)), s) := by
  induction k with
  | zero => rfl
  | succ k ih => rw [receiveN_succ, Backend.receive_stuck hp ht, ih, List.replicate_succ]

/-- On a stream whose first frame has an unknown type, a call of `Backend.Receive` fails on a read
and keeps its place, or rejects the type and leaves `partialMsg` set. -/
theorem Backend.receive_unknown (hinv : s.Inv (fr :: rest)) (ht : fr.msgType ∉ Backend.msgTypes) :
    ((Backend.receive s).1.isReadError ∧ (Backend.receive s).2.Inv (fr :: rest)) ∨
      ((Backend.receive s).1 = .error (unknownMessageType fr.msgType) ∧
        (Backend.receive s).2.partialMsg = true ∧ (Backend.receive s).2.msgType = fr.msgType) := by
  cases hp : s.partialMsg with
  | false =>
    rcases hh : s.receiveHeader with ⟨o, s1⟩
    rcases receiveHeader_between hinv hp hh with ⟨e, rfl, hinv1, -, -⟩ | ⟨rfl, hinv1, hp1, -⟩
    · simp only [Backend.receive, hh]
      exact .inl ⟨rfl, hinv1⟩
    · -- the header is read, and the type rejected before the body
      have ht1 := (hinv1.inside_fields hp1).1
      unfold Backend.receive
      rw [hh]
      dsimp only
      rw [if_neg (ht1 ▸ ht)]
      exact .inr ⟨by rw [ht1], hp1, ht1⟩
  | true =>
    have ht1 := (hinv.inside_fields hp).1
    rw [Backend.receive_stuck hp (ht1 ▸ ht)]
    exact .inr ⟨by rw [ht1], hp, ht1⟩

/-- Every call of `Backend.Receive` on a stream whose first frame has an unknown type fails: on a
read, or on that type. -/
theorem Backend.receiveN_unknown (ht : fr.msgType ∉ Backend.msgTypes) (k : Nat) (s : Receiver)
    (h : s.Inv (fr :: rest) ∨ (s.partialMsg = true ∧ s.msgType = fr.msgType)) :
    ∀ x ∈ (receiveN Backend.receive k s).1,
      x.isReadError ∨ x = .error (unknownMessageType fr.msgType) := by
  induction k generalizing s with
  | zero => simp [receiveN]
  | succ k ih =>
    -- the invariant: in place before the frame, or stuck on its type
    have hnext : ((Backend.receive s).1.isReadError ∨
        (Backend.receive s).1 = .error (unknownMessageType fr.msgType)) ∧
        ((Backend.receive s).2.Inv (fr :: rest) ∨
          ((Backend.receive s).2.partialMsg = true ∧ (Backend.receive s).2.msgType = fr.msgType)) := by
      rcases h with hinv | ⟨hp, hm⟩
      · rcases Backend.receive_unknown hinv ht with ⟨h1, h2⟩ | ⟨h1, h2, h3⟩
        · exact ⟨.inl h1, .inl h2⟩
        · exact ⟨.inr h1, .inr ⟨h2, h3⟩⟩
      · rw [Backend.receive_stuck hp (hm ▸ ht)]
        exact ⟨.inr (by rw [hm]), .inr ⟨hp, hm⟩⟩
    intro x hx
    rw [receiveN_succ, List.mem_cons] at hx
    rcases hx with rfl | hx
    · exact hnext.1
    · exact ih _ hnext.2 x hx

end Backend

/-- **`Backend.Receive` never reads past a frame of unknown type**: on the stream of a frame of
type `z` with no body followed by a `Q` frame, however the stream arrives, every call fails, on a
read or with "unknown message type: z"; the `Q` frame is never handed to `Decode`. -/
theorem backend_receive_unknownType (sched : List (Nat × Option Error)) (k : Nat) :
    List.Forall (fun x => x.isReadError ∨ x = .error (unknownMessageType 'z'.toUInt8))
      (receiveN Backend.receive k
        (newBackend ⟨frameBytes [⟨'z'.toUInt8, []⟩, ⟨'Q'.toUInt8, [0]⟩], sched⟩)).1 := by
  have hinv : (newBackend ⟨frameBytes [⟨'z'.toUInt8, []⟩, ⟨'Q'.toUInt8, [0]⟩], sched⟩).Inv
      [⟨'z'.toUInt8, []⟩, ⟨'Q'.toUInt8, [0]⟩] := by
    refine newReceiver_inv (fun fr hfr => ?_)
    simp only [List.mem_cons, List.not_mem_nil, or_false] at hfr
    rcases hfr with rfl | rfl <;> simp
  have ht : 'z'.toUInt8 ∉ Backend.msgTypes := by decide
  exact List.forall_iff_forall_mem.2
    (@Backend.receiveN_unknown ⟨'z'.toUInt8, []⟩ [⟨'Q'.toUInt8, [0]⟩] ht k _ (.inl hinv))

end Pgx.Proto
