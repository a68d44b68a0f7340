import Pgx.Go.Strconv
import Pgx.Pgtype.HstoreText

/-!
# SCRAM-SHA-256 authentication

`scramAuth` sends the client-first-message `n,,n=,r=<client nonce>`, parses the server-first-
message `r=<nonce>,s=<salt>,i=<iterations>`, sends the client-final-message
`c=biws,r=<nonce>,p=<proof>` and checks the server's signature in the server-final-message
`v=<signature>`.

HMAC-SHA-256, SHA-256, PBKDF2, base64 and SASLprep are the fields of `Crypto`, functions of which
nothing is assumed but that an HMAC has 32 bytes. The server's two messages are inputs: whatever
they are, `scramAuth_rfc5802` proves that the client answers exactly the server-first-messages
whose nonce extends its own and whose iteration count is positive (`ServerFirst`,
`recvServerFirstMessage_of_serverFirst`), with the proof of RFC 5802 over the
AuthMessage built from the messages on the wire, that a server holding the StoredKey accepts, and
that it succeeds only on the signature RFC 5802 gives.

Network errors, messages of an unexpected type and the server's `ErrorResponse` are left out: the
server's messages are the data of an `AuthenticationSASLContinue` and an
`AuthenticationSASLFinal`.
-/

namespace Pgx.Pgconn

open Go Go.Utf8 Go.Strconv Pgx.Pgtype

/-- The primitives of SCRAM-SHA-256: `computeHMAC(key, msg)`, `sha256.Sum256`, `pbkdf2.Key` with
SHA-256, `base64.StdEncoding` one way and the other (with the text of its error), the client
nonce's `base64.RawStdEncoding`, and `precis.OpaqueString.Bytes` (SASLprep), which may fail. An
HMAC-SHA-256 has 32 bytes. -/
structure Crypto where
  hmac : List UInt8 → List UInt8 → List UInt8
  sha256 : List UInt8 → List UInt8
  pbkdf2 : List UInt8 → List UInt8 → Nat → Nat → List UInt8
  stdEncode : List UInt8 → List UInt8
  stdDecode : List UInt8 → Except String (List UInt8)
  rawStdEncode : List UInt8 → List UInt8
  opaqueString : List UInt8 → Option (List UInt8)
  hmac_length : ∀ key msg, (hmac key msg).length = 32

/-- `[]byte(s)`. -/
def toBytes (s : String) : List UInt8 := encode s.toList

/-- `strconv.Atoi(s)`: `ParseInt(s, 10, 0)` on a 64-bit platform, its error named `Atoi`. -/
def atoi (s : List Char) : Int × Option NumError :=
  ((parseInt s 10 64).1, (parseInt s 10 64).2.map fun e => { e with func := "Atoi" })

/-- The state of `scramClient`. -/
structure ScramClient where
  serverAuthMechanisms : List (List Char)
  password : List UInt8
  clientNonce : List UInt8
  clientFirstMessageBare : List UInt8
  serverFirstMessage : List UInt8
  clientAndServerNonce : List UInt8
  salt : List UInt8
  iterations : Int
  saltedPassword : List UInt8
  authMessage : List UInt8

variable (C : Crypto)

/-- `newScramClient(serverAuthMechanisms, password)`, with `rnd` the bytes `rand.Read` gives. The
password is SASLprep'd, or kept as it is when that fails. -/
def newScramClient (serverAuthMechanisms : List (List Char)) (password rnd : List UInt8) :
    Except String ScramClient :=
  if "SCRAM-SHA-256".toList ∈ serverAuthMechanisms then
    .ok { serverAuthMechanisms, password := (C.opaqueString password).getD password,
          clientNonce := C.rawStdEncode rnd, clientFirstMessageBare := [], serverFirstMessage := [],
          clientAndServerNonce := [], salt := [], iterations := 0, saltedPassword := [],
          authMessage := [] }
  else .error "server does not support SCRAM-SHA-256"

/-- `clientFirstMessage`: `n,,` and the bare message `n=,r=<client nonce>`, which it keeps. -/
def ScramClient.clientFirstMessage (sc : ScramClient) : List UInt8 × ScramClient :=
  let clientFirstMessageBare := toBytes "n=,r=" ++ sc.clientNonce
  (toBytes "n,," ++ clientFirstMessageBare, { sc with clientFirstMessageBare })

/-- The text of `fmt.Errorf("...: %w", err)` for the error of `Atoi`, which may be nil. -/
def wrapNumError (msg : String) : Option NumError → String
  | some e => msg ++ ": " ++ e.error
  | none => msg ++ ": %!w(<nil>)"

/-- `recvServerFirstMessage`: `r=`, the nonce up to a comma, `s=`, the salt up to a comma, `i=`,
and the iteration count; the salt is base64, the count positive, and the nonce the client's
followed by more. -/
def recvServerFirstMessage (sc : ScramClient) (serverFirstMessage : List UInt8) :
    Except String ScramClient :=
  let sc := { sc with serverFirstMessage }
  let buf := serverFirstMessage
  if !(toBytes "r=").isPrefixOf buf then
    .error "invalid SCRAM server-first-message received from server: did not include r="
  else
    let buf := buf.drop 2
    let idx := indexByte buf 0x2c
    if idx = -1 then .error "invalid SCRAM server-first-message received from server: did not include s="
    else
      let clientAndServerNonce := buf.take idx.toNat
      let buf := buf.drop (idx.toNat + 1)
      if !(toBytes "s=").isPrefixOf buf then
        .error "invalid SCRAM server-first-message received from server: did not include s="
      else
        let buf := buf.drop 2
        let idx := indexByte buf 0x2c
        if idx = -1 then
          .error "invalid SCRAM server-first-message received from server: did not include i="
        else
          let saltStr := buf.take idx.toNat
          let buf := buf.drop (idx.toNat + 1)
          if !(toBytes "i=").isPrefixOf buf then
            .error "invalid SCRAM server-first-message received from server: did not include i="
          else
            let iterationsStr := buf.drop 2
            match C.stdDecode saltStr with
            | .error e => .error ("invalid SCRAM salt received from server: " ++ e)
            | .ok salt =>
              let (iterations, err) := atoi (iterationsStr.map fun b => Char.ofNat b.toNat)
              if err.isSome || iterations ≤ 0 then
                .error (wrapNumError "invalid SCRAM iteration count received from server" err)
              else if !sc.clientNonce.isPrefixOf clientAndServerNonce then
                .error "invalid SCRAM nonce: did not start with client nonce"
              else if clientAndServerNonce.length ≤ sc.clientNonce.length then
                .error "invalid SCRAM nonce: did not include server nonce"
              else .ok { sc with clientAndServerNonce, salt, iterations }

/-- `computeClientProof`: the base64 of `ClientKey XOR HMAC(H(ClientKey), AuthMessage)`, the XOR
byte by byte over the 32 bytes of the signature. -/
def computeClientProof (saltedPassword authMessage : List UInt8) : List UInt8 :=
  let clientKey := C.hmac saltedPassword (toBytes "Client Key")
  let storedKey := C.sha256 clientKey
  let clientSignature := C.hmac storedKey authMessage
  let clientProof := List.zipWith (· ^^^ ·) clientKey clientSignature
  C.stdEncode clientProof

/-- `computeServerSignature`: the base64 of `HMAC(HMAC(SaltedPassword, "Server Key"),
AuthMessage)`. -/
def computeServerSignature (saltedPassword authMessage : List UInt8) : List UInt8 :=
  let serverKey := C.hmac saltedPassword (toBytes "Server Key")
  C.stdEncode (C.hmac serverKey authMessage)

/-- `clientFinalMessage`: `c=biws,r=<nonce>,p=<proof>`, keeping the salted password and the
AuthMessage, `bytes.Join` of the bare client-first-message, the server-first-message and the
message without its proof. -/
def clientFinalMessage (sc : ScramClient) : List UInt8 × ScramClient :=
  let clientFinalMessageWithoutProof := toBytes "c=biws,r=" ++ sc.clientAndServerNonce
  let saltedPassword := C.pbkdf2 sc.password sc.salt sc.iterations.toNat 32
  let authMessage := sc.clientFirstMessageBare ++ toBytes "," ++ sc.serverFirstMessage ++
    toBytes "," ++ clientFinalMessageWithoutProof
  let clientProof := computeClientProof C saltedPassword authMessage
  (clientFinalMessageWithoutProof ++ toBytes ",p=" ++ clientProof,
    { sc with saltedPassword, authMessage })

/-- `recvServerFinalMessage`: `v=` and the server signature. -/
def recvServerFinalMessage (sc : ScramClient) (serverFinalMessage : List UInt8) : Except String Unit :=
  if !(toBytes "v=").isPrefixOf serverFinalMessage then
    .error "invalid SCRAM server-final-message received from server"
  else if serverFinalMessage.drop 2 ≠ computeServerSignature C sc.saltedPassword sc.authMessage then
    .error "invalid SCRAM ServerSignature received from server"
  else .ok ()

/-- The messages of the SASL exchange the client sends. -/
inductive SASLMessage
  | initialResponse (authMechanism : List Char) (data : List UInt8)
  | response (data : List UInt8)
  deriving DecidableEq

/-- `scramAuth`: the messages sent, and the result, for the server-first-message `sfm` and the
server-final-message `sf`. -/
def scramAuth (serverAuthMechanisms : List (List Char)) (password rnd sfm sf : List UInt8) :
    List SASLMessage × Except String Unit :=
  match newScramClient C serverAuthMechanisms password rnd with
  | .error e => ([], .error e)
  | .ok sc =>
    let first := sc.clientFirstMessage
    let sent := [.initialResponse "SCRAM-SHA-256".toList first.1]
    match recvServerFirstMessage C first.2 sfm with
    | .error e => (sent, .error e)
    | .ok sc =>
      let final := clientFinalMessage C sc
      (sent ++ [.response final.1], recvServerFinalMessage C final.2 sf)

/-! ### Reading the server-first-message -/

/-- `bytes.HasPrefix`: the prefix, then the rest. -/
theorem eq_append_of_isPrefixOf {p s : List UInt8} (h : ¬(!p.isPrefixOf s) = true) :
    s = p ++ s.drop p.length := by
  have hp : p <+: s := List.isPrefixOf_iff_prefix.1 (by simpa using h)
  obtain ⟨t, rfl⟩ := hp
  simp

/-- `bytes.IndexByte` found the byte: what the code takes before it is the part before its first
occurrence, and what it drops through it leaves the part after. -/
theorem indexByte_split {s : List UInt8} {c : UInt8} (h : ¬indexByte s c = -1) :
    ∃ u t, s = u ++ c :: t ∧ c ∉ u ∧ s.take (indexByte s c).toNat = u ∧
      s.drop ((indexByte s c).toNat + 1) = t := by
  have hc : c ∈ s := by
    by_contra hn
    exact h (by simp [indexByte, hn])
  obtain ⟨u, t, rfl, hu⟩ := exists_first_split hc
  refine ⟨u, t, rfl, hu, ?_, ?_⟩ <;> simp [indexByte_of_first hu]

/-- **What an accepted server-first-message is**: `r=`, a nonce without a comma that extends the
client's, `,s=`, a salt without a comma that decodes, `,i=`, and a positive count; the client
keeps the message, the nonce, the salt and the count. -/
theorem recvServerFirstMessage_ok {sc sc' : ScramClient} {sfm : List UInt8}
    (h : recvServerFirstMessage C sc sfm = .ok sc') :
    ∃ nonce saltStr itStr salt iterations,
      sfm = toBytes "r=" ++ nonce ++ toBytes ",s=" ++ saltStr ++ toBytes ",i=" ++ itStr ∧
      0x2c ∉ nonce ∧ 0x2c ∉ saltStr ∧ C.stdDecode saltStr = .ok salt ∧
      atoi (itStr.map fun b => Char.ofNat b.toNat) = (iterations, none) ∧ 0 < iterations ∧
      sc.clientNonce <+: nonce ∧ sc.clientNonce.length < nonce.length ∧
      sc' = { sc with serverFirstMessage := sfm, clientAndServerNonce := nonce, salt, iterations } := by
  unfold recvServerFirstMessage at h
  dsimp only at h
  -- each check of the code either fails, which is an error, or names the part it cut off
  split at h
  · cases h
  rename_i hr
  split at h
  · cases h
  rename_i hidx1
  obtain ⟨nonce, t1, hb1, hn, htake1, hdrop1⟩ := indexByte_split hidx1
  rw [htake1, hdrop1] at h
  split at h
  · cases h
  rename_i hs
  split at h
  · cases h
  rename_i hidx2
  obtain ⟨saltStr, t2, hb2, hsalt, htake2, hdrop2⟩ := indexByte_split hidx2
  rw [htake2, hdrop2] at h
  split at h
  · cases h
  rename_i hi
  split at h
  · cases h
  rename_i salt hdec
  split at h
  · cases h
  rename_i hit
  split at h
  · cases h
  rename_i hpre
  split at h
  · cases h
  rename_i hlen
  cases h
  -- put the message back together from the parts the checks cut off
  have h1 := eq_append_of_isPrefixOf hr
  have h2 := eq_append_of_isPrefixOf hs
  have h3 := eq_append_of_isPrefixOf hi
  rw [show (toBytes "r=").length = 2 from rfl, hb1] at h1
  rw [show (toBytes "s=").length = 2 from rfl, hb2] at h2
  rw [show (toBytes "i=").length = 2 from rfl] at h3
  generalize hA : atoi ((t2.drop 2).map fun b => Char.ofNat b.toNat) = A at hit ⊢
  obtain ⟨iterations, err⟩ := A
  obtain ⟨rfl, hpos⟩ : err = none ∧ 0 < iterations := by simpa using hit
  generalize t2.drop 2 = itStr at h3 hA
  refine ⟨nonce, saltStr, itStr, salt, iterations, ?_, hn, hsalt, hdec, hA, hpos,
    List.isPrefixOf_iff_prefix.1 (by simpa using hpre), by omega, rfl⟩
  rw [h1, h2, h3, show toBytes ",s=" = 0x2c :: toBytes "s=" from rfl,
    show toBytes ",i=" = 0x2c :: toBytes "i=" from rfl]
  simp

/-- A server-first-message as RFC 5802 has it for the client nonce `cn`: `r=` and `cn` followed by
a server nonce that is not empty, `,s=` and a salt that decodes, `,i=` and a positive count, with
no comma in the nonce or the salt. -/
def ServerFirst (cn sfm : List UInt8) : Prop :=
  ∃ serverNonce saltStr itStr salt iterations,
    serverNonce ≠ [] ∧ 0 < iterations ∧ 0x2c ∉ cn ++ serverNonce ∧ 0x2c ∉ saltStr ∧
    sfm = toBytes "r=" ++ (cn ++ serverNonce) ++ toBytes ",s=" ++ saltStr ++ toBytes ",i=" ++ itStr ∧
    C.stdDecode saltStr = .ok salt ∧ atoi (itStr.map fun b => Char.ofNat b.toNat) = (iterations, none)

/-- `bytes.HasPrefix` of a prefix and what follows it. -/
theorem isPrefixOf_append_self (p t : List UInt8) : (!p.isPrefixOf (p ++ t)) = false := by
  simp [List.isPrefixOf_iff_prefix]

/-- What the code drops through the first comma it found. -/
theorem drop_length_succ (u t : List UInt8) (c : UInt8) : (u ++ c :: t).drop (u.length + 1) = t := by
  induction u with
  | nil => rfl
  | cons x u ih => simp [ih]

/-- **The client accepts every server-first-message RFC 5802 allows.** -/
theorem recvServerFirstMessage_of_serverFirst {sc : ScramClient} {sfm : List UInt8}
    (h : ServerFirst C sc.clientNonce sfm) : ∃ sc', recvServerFirstMessage C sc sfm = .ok sc' := by
  obtain ⟨serverNonce, saltStr, itStr, salt, iterations, hsn, hpos, hn, hs, rfl, hdec, hit⟩ := h
  -- the message cut where the code cuts it: after `r=`, at the two commas, after `s=` and `i=`
  have hsfm : toBytes "r=" ++ (sc.clientNonce ++ serverNonce) ++ toBytes ",s=" ++ saltStr ++ toBytes ",i=" ++
      itStr = toBytes "r=" ++ ((sc.clientNonce ++ serverNonce) ++ 0x2c :: (toBytes "s=" ++
        (saltStr ++ 0x2c :: (toBytes "i=" ++ itStr)))) := by
    simp only [List.append_assoc, show toBytes ",s=" = 0x2c :: toBytes "s=" from rfl,
      show toBytes ",i=" = 0x2c :: toBytes "i=" from rfl, List.cons_append]
  have hdrop : ∀ p t : List UInt8, p.length = 2 → (p ++ t).drop 2 = t := fun p t hp => by
    rw [← hp, List.drop_left]
  unfold recvServerFirstMessage
  dsimp only
  rw [hsfm, isPrefixOf_append_self, if_neg Bool.false_ne_true, hdrop _ _ rfl, indexByte_of_first hn,
    if_neg (by omega), Int.toNat_natCast, drop_length_succ, List.take_left, isPrefixOf_append_self,
    if_neg Bool.false_ne_true, hdrop _ _ rfl, indexByte_of_first hs, if_neg (by omega), Int.toNat_natCast,
    drop_length_succ, List.take_left, isPrefixOf_append_self, if_neg Bool.false_ne_true, hdrop _ _ rfl, hdec]
  dsimp only
  rw [hit]
  have hlen : ¬(sc.clientNonce ++ serverNonce).length ≤ sc.clientNonce.length := by
    simpa using hsn
  rw [if_neg (by simpa using hpos), isPrefixOf_append_self, if_neg Bool.false_ne_true, if_neg hlen]
  exact ⟨_, rfl⟩

/-! ### The proof and the signature -/

/-- XOR with the same bytes twice gives the bytes back: the server's recomputation of the
ClientKey from the proof. -/
theorem zipWith_xor_xor_cancel {a b : List UInt8} (h : a.length = b.length) :
    List.zipWith (· ^^^ ·) (List.zipWith (· ^^^ ·) a b) b = a := by
  induction a generalizing b with
  | nil => rfl
  | cons x a ih =>
    obtain ⟨y, b, rfl⟩ : ∃ y b', b = y :: b' := List.exists_cons_of_length_eq_add_one h.symm
    simp only [List.zipWith_cons_cons, UInt8.xor_assoc, UInt8.xor_self, UInt8.xor_zero]
    rw [ih (by simpa using h)]

/-- An accepted server-final-message is `v=` and the ServerSignature over the AuthMessage the
client kept. -/
theorem recvServerFinalMessage_ok {sc : ScramClient} {sf : List UInt8}
    (h : recvServerFinalMessage C sc sf = .ok ()) :
    sf = toBytes "v=" ++ computeServerSignature C sc.saltedPassword sc.authMessage := by
  unfold recvServerFinalMessage at h
  split at h
  · cases h
  rename_i hv
  split at h
  · cases h
  rename_i hsig
  have hsf := eq_append_of_isPrefixOf hv
  rw [show (toBytes "v=").length = 2 from rfl] at hsf
  rwa [not_not.1 hsig] at hsf

/-! ### What RFC 5802 asks of the client -/

/-- The client's side of RFC 5802 over the primitives of `C`, for the password, the random
bytes of the client nonce and the server's two messages: what a run that sent `msgs` and
ended with `res` has done. It sends `n,,` and the bare message `n=,r=<cn>`; it stops there with
an error only for a server-first-message that is not `ServerFirst`, and otherwise goes on for a
server-first-message `r=<nonce>,s=<salt>,i=<count>` whose nonce is `cn` followed by a server
nonce that is not empty and whose count is positive, and then sends the client-final-message
with the proof over the AuthMessage of the messages on the wire, which a server holding StoredKey
accepts; and it succeeds only on the ServerSignature. -/
def ClientRun (password rnd sfm sf : List UInt8) (msgs : List SASLMessage)
    (res : Except String Unit) : Prop :=
  let cn := C.rawStdEncode rnd
  let bare := toBytes "n=,r=" ++ cn
  ∃ rest, msgs = .initialResponse "SCRAM-SHA-256".toList (toBytes "n,," ++ bare) :: rest ∧
    ((rest = [] ∧ (∃ e, res = .error e) ∧ ¬ServerFirst C cn sfm) ∨
      ∃ serverNonce saltStr itStr salt iterations,
        serverNonce ≠ [] ∧ 0 < iterations ∧ 0x2c ∉ cn ++ serverNonce ∧ 0x2c ∉ saltStr ∧
        sfm = toBytes "r=" ++ (cn ++ serverNonce) ++ toBytes ",s=" ++ saltStr ++ toBytes ",i=" ++
          itStr ∧
        C.stdDecode saltStr = .ok salt ∧
        atoi (itStr.map fun b => Char.ofNat b.toNat) = (iterations, none) ∧
        let saltedPassword :=
          C.pbkdf2 ((C.opaqueString password).getD password) salt iterations.toNat 32
        let clientKey := C.hmac saltedPassword (toBytes "Client Key")
        let storedKey := C.sha256 clientKey
        let withoutProof := toBytes "c=biws,r=" ++ (cn ++ serverNonce)
        let authMessage := bare ++ toBytes "," ++ sfm ++ toBytes "," ++ withoutProof
        let proof := List.zipWith (· ^^^ ·) clientKey (C.hmac storedKey authMessage)
        rest = [.response (withoutProof ++ toBytes ",p=" ++ C.stdEncode proof)] ∧
        C.sha256 (List.zipWith (· ^^^ ·) proof (C.hmac storedKey authMessage)) = storedKey ∧
        (res = .ok () →
          sf = toBytes "v=" ++
            C.stdEncode (C.hmac (C.hmac saltedPassword (toBytes "Server Key")) authMessage)))

theorem scramAuth_rfc5802 {mechs : List (List Char)} (hm : "SCRAM-SHA-256".toList ∈ mechs)
    (password rnd sfm sf : List UInt8) :
    ClientRun C password rnd sfm sf (scramAuth C mechs password rnd sfm sf).1
      (scramAuth C mechs password rnd sfm sf).2 := by
  unfold scramAuth
  rw [newScramClient, if_pos hm]
  dsimp only
  split
  · -- the server-first-message is refused: only the client-first-message was sent, and the
    -- message was not one RFC 5802 allows
    rename_i e hr
    refine ⟨[], rfl, .inl ⟨rfl, ⟨_, rfl⟩, fun hsf => ?_⟩⟩
    have hacc : ∀ sc : ScramClient, sc.clientNonce = C.rawStdEncode rnd →
        recvServerFirstMessage C sc sfm ≠ .error e := by
      intro sc hcn hbad
      obtain ⟨sc', hok⟩ := recvServerFirstMessage_of_serverFirst C (hcn ▸ hsf)
      rw [hok] at hbad
      cases hbad
    exact hacc _ rfl hr
  rename_i sc hr
  obtain ⟨nonce, saltStr, itStr, salt, iterations, hsfm, hn, hs, hdec, hit, hpos,
    ⟨serverNonce, rfl⟩, hlen, rfl⟩ := recvServerFirstMessage_ok C hr
  refine ⟨_, rfl, .inr ⟨serverNonce, saltStr, itStr, salt, iterations, ?_, hpos, hn, hs, hsfm,
    hdec, hit, rfl, ?_, recvServerFinalMessage_ok C⟩⟩
  · rintro rfl
    simp at hlen
  · -- the server XORs the proof with the same signature and hashes the ClientKey it gets back
    rw [zipWith_xor_xor_cancel (by simp [C.hmac_length])]

/-- Primitives that are constants: an HMAC of 32 zero bytes, and the identity elsewhere. -/
def zeroCrypto : Crypto where
  hmac _ _ := List.replicate 32 0
  sha256 b := b
  pbkdf2 _ _ _ n := List.replicate n 0
  stdEncode b := b
  stdDecode b := .ok b
  rawStdEncode b := b
  opaqueString b := some b
  hmac_length _ _ := List.length_replicate

/-- The client nonce `abc`, the server-first-message `r=abcxyz,s=,i=4096` and a
server-final-message with the signature: the client sends its proof and accepts. -/
theorem scramAuth_rfc5802_zeroCrypto :
    "SCRAM-SHA-256".toList ∈ ["SCRAM-SHA-256".toList] ∧
      (scramAuth zeroCrypto ["SCRAM-SHA-256".toList] [] (toBytes "abc") (toBytes "r=abcxyz,s=,i=4096")
        (toBytes "v=" ++ List.replicate 32 0)).2 = .ok () ∧
      ClientRun zeroCrypto [] (toBytes "abc") (toBytes "r=abcxyz,s=,i=4096") (toBytes "v=" ++ List.replicate 32 0)
        (scramAuth zeroCrypto ["SCRAM-SHA-256".toList] [] (toBytes "abc") (toBytes "r=abcxyz,s=,i=4096")
          (toBytes "v=" ++ List.replicate 32 0)).1
        (scramAuth zeroCrypto ["SCRAM-SHA-256".toList] [] (toBytes "abc") (toBytes "r=abcxyz,s=,i=4096")
          (toBytes "v=" ++ List.replicate 32 0)).2 :=
  ⟨List.mem_singleton_self _, by decide,
    scramAuth_rfc5802 zeroCrypto (List.mem_singleton_self _) [] (toBytes "abc") (toBytes "r=abcxyz,s=,i=4096")
      (toBytes "v=" ++ List.replicate 32 0)⟩

end Pgx.Pgconn
