import Pgx.Pgtype.Composite
import Pgx.Go.Strconv

/-!
# Arrays: the dimensions, the binary format and the text format

`ArrayCodec` writes an array as its dimensions and its elements in row-major order, each element
in the element type's own format, and reads it back through an `ArraySetter`.

* The binary format is a header (the number of dimensions, a flag for NULL elements, the element
  OID, and the length and lower bound of each dimension), then each element after its `int32`
  length, `-1` for NULL (`ArrayHeader`, `encodePlanArrayCodecBinary`, `decodeBinary`).
* The text format is `{` and `}` around each sub-array, the elements separated by `,`, an element
  quoted when it must be and `NULL` for NULL, and before all of it `[lower:upper]` for each
  dimension and `=` when some lower bound is not 1 (`encodePlanArrayCodecText`).
  `parseUntypedTextArray` reads it rune by rune: the explicit dimensions, the opening braces of
  the first element, which give the number of dimensions, and then the elements, counting the
  length of each dimension in its first sub-array (`ArrayScan`).

The setter is the one that keeps what it is given: `decodeText` and `decodeBinary` return the
dimensions passed to `SetDimensions` and the source each element's scan plan is given. The element
plans of the encoders are given with the elements (`CompositeField`), and the plan cache by
reflected type, which gives every element of a type the same plan, is left out.
-/

namespace Pgx.Pgtype

open Go Go.Utf8 Go.Strconv Pgx.Proto

/-- `ArrayDimension`. -/
structure ArrayDimension where
  length : Int32
  lowerBound : Int32
  deriving DecidableEq, Repr

/-- `cardinality`: the product of the lengths in Go's `int`, and no element for no dimension. -/
def cardinality : List ArrayDimension → Int
  | [] => 0
  | d :: ds => ds.foldl (fun elementCount d => (elementCount * d.length.toInt).bmod (2 ^ 64)) d.length.toInt

/-- An `ArrayGetter`: its `Dimensions()`, `nil` for a NULL array, and its `Index(i)`, with the plan
the map chose for each element. -/
structure ArrayGetter where
  dimensions : Option (List ArrayDimension)
  index : Nat → CompositeField

/-! ## The binary format -/

/-- `arrayHeader`. -/
structure ArrayHeader where
  containsNull : Bool
  elementOID : UInt32
  dimensions : List ArrayDimension
  deriving DecidableEq, Repr

/-- One dimension of `arrayHeader.DecodeBinary`, the `i`-th, after the twelve bytes of the header. -/
def decodeDimension (src : List UInt8) (i : Nat) : GoM ArrayDimension := do
  let length ← uint32At src (12 + 8 * i)
  let lowerBound ← uint32At src (12 + 8 * i + 4)
  pure ⟨length.toInt32, lowerBound.toInt32⟩

/-- `arrayHeader.DecodeBinary`: the header, and the read position after it. -/
def ArrayHeader.decodeBinary (src : List UInt8) : GoM (ArrayHeader × Nat) := do
  if src.length < 12 then
    throw (.error ("array header too short: " ++ toString src.length))
  let numDims := (← uint32At src 0).toNat
  let containsNull := (← uint32At src 4) = 1
  let elementOID ← uint32At src 8
  if src.length < 12 + numDims * 8 then
    throw (.error ("array header too short for " ++ toString numDims ++ " dimensions: " ++
      toString src.length))
  let dimensions ← (List.range numDims).mapM (decodeDimension src)
  pure (⟨containsNull, elementOID, dimensions⟩, 12 + numDims * 8)

/-- `arrayHeader.EncodeBinary`. -/
def ArrayHeader.encodeBinary (src : ArrayHeader) (buf : List UInt8) : List UInt8 :=
  let buf := appendInt32 buf src.dimensions.length
  let buf := appendInt32 buf (if src.containsNull then 1 else 0)
  let buf := buf ++ putUint32 src.elementOID
  src.dimensions.foldl (fun buf d => appendInt32 (appendInt32 buf d.length.toInt) d.lowerBound.toInt) buf

/-- `pgio.SetInt32(buf[i:], n)`: the four bytes at `i` written over; it panics when fewer than
four follow. -/
def setInt32 (buf : List UInt8) (i : Nat) (n : Int) : GoM (List UInt8) :=
  if i + 4 ≤ buf.length then .ok (buf.take i ++ putUint32 (ofInt32 n) ++ buf.drop (i + 4))
  else .error (.panic "index out of range")

/-- `unable to encode %v`. -/
def unableToEncode (shown : String) : Fault := .error ("unable to encode " ++ shown)

/-- One element of `encodePlanArrayCodecBinary.Encode`: the placeholder `-1`, then the element,
which its plan appends to the whole buffer, and its length over the placeholder; a nil element
leaves the `-1` and sets the header's `ContainsNull`. -/
def encodeBinaryElement (containsNullIndex : Nat) (buf : List UInt8) (elem : CompositeField) :
    GoM (List UInt8) := do
  let sp := buf.length
  let buf := appendInt32 buf (-1)
  let elemBuf ← match elem with
    | .nil => pure none
    | .value shown none => throw (unableToEncode shown)
    | .value _ (some plan) => plan buf
  match elemBuf with
  | none => setInt32 buf containsNullIndex 1
  | some elemBuf => setInt32 elemBuf sp (elemBuf.length - sp - 4)

/-- `encodePlanArrayCodecBinary.Encode`: nil for a NULL array, else the header and the elements. -/
def encodePlanArrayCodecBinary (elementOID : UInt32) (array : ArrayGetter) : EncodePlan := fun buf =>
  match array.dimensions with
  | none => .ok none
  | some dimensions => do
    let containsNullIndex := buf.length + 4
    let buf := ArrayHeader.encodeBinary ⟨false, elementOID, dimensions⟩ buf
    let buf ← (List.range (cardinality dimensions).toNat).foldlM
      (fun buf i => encodeBinaryElement containsNullIndex buf (array.index i)) buf
    pure (some buf)

/-- One element of `ArrayCodec.decodeBinary` at `rp`: its length, and its bytes unless the length
is negative; a length or bytes past the end of `src` panic. -/
def decodeBinaryElement (src : List UInt8) (rp : Nat) : GoM (Option (List UInt8) × Nat) := do
  let elemLen := toInt32 (← uint32At src rp)
  let rp := rp + 4
  if 0 ≤ elemLen then
    let elemSrc ← slice src rp (rp + elemLen)
    pure (some elemSrc, rp + elemLen.toNat)
  else pure (none, rp)

/-- `ArrayCodec.decodeBinary` with a setter that keeps what it is given: the dimensions, and the
source of each element in order. -/
def decodeBinary (src : List UInt8) : GoM (List ArrayDimension × List (Option (List UInt8))) := do
  let (arrayHeader, rp) ← ArrayHeader.decodeBinary src
  let elementCount := cardinality arrayHeader.dimensions
  if elementCount = 0 then return (arrayHeader.dimensions, [])
  let (elems, _) ← (List.range elementCount.toNat).foldlM (fun (elems, rp) _ => do
      let (elemSrc, rp) ← decodeBinaryElement src rp
      pure (elems ++ [elemSrc], rp)) ([], rp)
  pure (arrayHeader.dimensions, elems)

/-! ## The text format: the parser -/

/-- The rune `{`. -/
def lbrace : Char := '\x7b'

/-- The rune `}`. -/
def rbrace : Char := '\x7d'

/-- `fmt.Errorf("invalid array: %w", err)`. -/
def invalidArray (err : String) : Fault := .error ("invalid array: " ++ err)

/-- `untypedTextArray`. -/
structure UntypedTextArray where
  elements : List (List UInt8)
  quoted : List Bool
  dimensions : List ArrayDimension
  deriving DecidableEq, Repr

namespace Buffer

/-- The rune just read, put back, leaves the buffer as it was before the read. -/
theorem readRune_unreadRune {b b1 : Buffer} {r : Char} (h : b.readRune = (some r, b1)) :
    b1.unreadRune = ⟨b.rest, []⟩ := by
  unfold readRune at h
  split at h
  · cases h
  · cases h
    simp [unreadRune, List.take_append_drop]

/-- `ReadRune` looks at the bytes not read yet only. -/
theorem readRune_mk_rest (b : Buffer) (x : List UInt8) : (⟨b.rest, x⟩ : Buffer).readRune = b.readRune := rfl

end Buffer

/-- `buf.ReadRune()` in `parseUntypedTextArray`, where `io.EOF` is `invalid array: EOF`. -/
def readArrayRune (b : Buffer) : GoM (Char × Buffer) :=
  match b.readRune with
  | (none, _) => .error (invalidArray "EOF")
  | (some r, b) => .ok (r, b)

/-- The loop of `arrayParseInteger`: digits and minus signs, up to the first other rune, which is
put back; `EOF` at the end of the input. -/
def arrayParseIntegerLoop (s : List Char) (b : Buffer) : GoM (List Char × Buffer) :=
  match _h : b.readRune with
  | (none, _) => .error (.error "EOF")
  | (some r, b1) =>
    if ('0' ≤ r ∧ r ≤ '9') ∨ r = '-' then arrayParseIntegerLoop (s ++ [r]) b1
    else .ok (s, b1.unreadRune)
termination_by b.rest.length
decreasing_by exact Buffer.readRune_rest_lt _h

/-- `arrayParseInteger`: `strconv.ParseInt` in 32 bits of what the loop read. -/
def arrayParseInteger (b : Buffer) : GoM (Int32 × Buffer) := do
  let (s, b) ← arrayParseIntegerLoop [] b
  match parseInt s 10 32 with
  | (_, some err) => .error (.error err.error)
  | (n, none) => pure (Int32.ofInt n, b)

/-- The loop of `arrayParseValue` on a value that is not quoted: runes up to `,` or `}`, which is
put back. -/
def arrayParseValueLoop (s : List UInt8) (b : Buffer) : GoM (List UInt8 × Buffer) :=
  match _h : b.readRune with
  | (none, _) => .error (.error "EOF")
  | (some r, b1) =>
    if r = ',' ∨ r = rbrace then .ok (s, b1.unreadRune)
    else arrayParseValueLoop (s ++ String.utf8EncodeChar r) b1
termination_by b.rest.length
decreasing_by exact Buffer.readRune_rest_lt _h

/-- `arrayParseQuotedValue`: runes up to the closing quote, a backslash taking the next rune as it
is; the rune after the closing quote is read and put back. -/
def arrayParseQuotedValue (s : List UInt8) (b : Buffer) : GoM (List UInt8 × Buffer) :=
  match _h : b.readRune with
  | (none, _) => .error (.error "EOF")
  | (some r, b1) =>
    if r = '\\' then
      match _h1 : b1.readRune with
      | (none, _) => .error (.error "EOF")
      | (some r, b2) => arrayParseQuotedValue (s ++ String.utf8EncodeChar r) b2
    else if r = '"' then
      match b1.readRune with
      | (none, _) => .error (.error "EOF")
      | (some _, b2) => .ok (s, b2.unreadRune)
    else arrayParseQuotedValue (s ++ String.utf8EncodeChar r) b1
termination_by b.rest.length
decreasing_by
  · have := Buffer.readRune_rest_lt _h
    have := Buffer.readRune_rest_lt _h1
    omega
  · exact Buffer.readRune_rest_lt _h

/-- `arrayParseValue`: the value, and whether it was quoted. -/
def arrayParseValue (b : Buffer) : GoM (List UInt8 × Bool × Buffer) :=
  match b.readRune with
  | (none, _) => .error (.error "EOF")
  | (some r, b1) =>
    if r = '"' then do
      let (s, b) ← arrayParseQuotedValue [] b1
      pure (s, true, b)
    else do
      let (s, b) ← arrayParseValueLoop [] b1.unreadRune
      pure (s, false, b)

section Progress

theorem arrayParseIntegerLoop_rest_le {s s' : List Char} {b b' : Buffer}
    (h : arrayParseIntegerLoop s b = .ok (s', b')) : b'.rest.length ≤ b.rest.length := by
  fun_induction arrayParseIntegerLoop s b with
  | case1 => cases h
  | case2 s b r b1 hr hd ih => exact Nat.le_trans (ih h) (Nat.le_of_lt (Buffer.readRune_rest_lt hr))
  | case3 s b r b1 hr hd =>
    cases h
    rw [Buffer.readRune_unreadRune hr]

theorem arrayParseInteger_rest_le {n : Int32} {b b' : Buffer} (h : arrayParseInteger b = .ok (n, b')) :
    b'.rest.length ≤ b.rest.length := by
  obtain ⟨⟨s, b1⟩, h1, h2⟩ := bind_eq_ok h
  have hle := arrayParseIntegerLoop_rest_le h1
  dsimp only at h2
  split at h2
  · cases h2
  · cases h2
    exact hle

theorem arrayParseValueLoop_rest_le {s s' : List UInt8} {b b' : Buffer}
    (h : arrayParseValueLoop s b = .ok (s', b')) : b'.rest.length ≤ b.rest.length := by
  fun_induction arrayParseValueLoop s b with
  | case1 => cases h
  | case2 s b r b1 hr hd =>
    cases h
    rw [Buffer.readRune_unreadRune hr]
  | case3 s b r b1 hr hd ih => exact Nat.le_trans (ih h) (Nat.le_of_lt (Buffer.readRune_rest_lt hr))

theorem arrayParseQuotedValue_rest_lt {s s' : List UInt8} {b b' : Buffer}
    (h : arrayParseQuotedValue s b = .ok (s', b')) : b'.rest.length < b.rest.length := by
  fun_induction arrayParseQuotedValue s b with
  | case1 => cases h
  | case2 => cases h
  | case3 s b b1 r b2 h2 h1 ih =>
    have := Buffer.readRune_rest_lt h1
    have := Buffer.readRune_rest_lt h2
    have := ih h
    omega
  | case4 => cases h
  | case5 s b b1 r b2 h2 h1 =>
    cases h
    rw [Buffer.readRune_unreadRune h2]
    show b1.rest.length < b.rest.length
    exact Buffer.readRune_rest_lt h1
  | case6 s b r b1 h1 _ _ ih => exact Nat.lt_trans (ih h) (Buffer.readRune_rest_lt h1)

/-- A value that starts with a rune other than `,` and `}` is at least that rune long. -/
theorem arrayParseValue_rest_lt {b b1 b' : Buffer} {r : Char} {v : List UInt8} {q : Bool}
    (hr : b.readRune = (some r, b1)) (hd : ¬(r = ',' ∨ r = rbrace))
    (h : arrayParseValue ⟨b.rest, []⟩ = .ok (v, q, b')) : b'.rest.length < b.rest.length := by
  rw [arrayParseValue, Buffer.readRune_mk_rest, hr] at h
  dsimp only at h
  split at h
  · obtain ⟨⟨s, b2⟩, h1, h2⟩ := bind_eq_ok h
    cases h2
    exact Nat.lt_trans (arrayParseQuotedValue_rest_lt h1) (Buffer.readRune_rest_lt hr)
  · obtain ⟨⟨s, b2⟩, h1, h2⟩ := bind_eq_ok h
    cases h2
    rw [Buffer.readRune_unreadRune hr, arrayParseValueLoop, Buffer.readRune_mk_rest] at h1
    split at h1
    · rename_i hr'
      rw [hr] at hr'
      cases hr'
    · rename_i r' b3 hr'
      rw [hr] at hr'
      simp only [Prod.mk.injEq, Option.some.injEq] at hr'
      obtain ⟨rfl, rfl⟩ := hr'
      rw [if_neg hd] at h1
      exact Nat.lt_of_le_of_lt (arrayParseValueLoop_rest_le h1) (Buffer.readRune_rest_lt hr)

end Progress

/-- One explicit dimension after its `[`: `lower:upper]`. -/
def dimensionBounds (b : Buffer) : GoM (ArrayDimension × Buffer) := do
  let (lower, b) ← (arrayParseInteger b).mapError (Fault.wrap "invalid array: ")
  let (r, b) ← readArrayRune b
  if r ≠ ':' then .error (.error ("invalid array, expected ':' got " ++ toString r.toNat)) else do
  let (upper, b) ← (arrayParseInteger b).mapError (Fault.wrap "invalid array: ")
  let (r, b) ← readArrayRune b
  if r ≠ ']' then .error (.error ("invalid array, expected ']' got " ++ toString r.toNat))
  else pure (⟨upper - lower + 1, lower⟩, b)

theorem readArrayRune_rest_lt {b b' : Buffer} {r : Char} (h : readArrayRune b = .ok (r, b')) :
    b'.rest.length < b.rest.length := by
  unfold readArrayRune at h
  split at h
  · cases h
  · rename_i r' b1 hr
    cases h
    exact Buffer.readRune_rest_lt hr

theorem mapError_eq_ok {ε ε' α : Type} {x : Except ε α} {f : ε → ε'} {a : α} (h : x.mapError f = .ok a) :
    x = .ok a := by
  cases x with
  | error e => cases h
  | ok a' => cases h; rfl

theorem dimensionBounds_rest_le {b b' : Buffer} {d : ArrayDimension} (h : dimensionBounds b = .ok (d, b')) :
    b'.rest.length ≤ b.rest.length := by
  obtain ⟨⟨lower, b1⟩, h1, h⟩ := bind_eq_ok h
  obtain ⟨⟨r1, b2⟩, h2, h⟩ := bind_eq_ok h
  dsimp only at h
  split at h
  · cases h
  obtain ⟨⟨upper, b3⟩, h3, h⟩ := bind_eq_ok h
  obtain ⟨⟨r2, b4⟩, h4, h⟩ := bind_eq_ok h
  dsimp only at h
  split at h
  · cases h
  cases h
  have e1 : b1.rest.length ≤ b.rest.length := arrayParseInteger_rest_le (mapError_eq_ok h1)
  have e2 : b2.rest.length < b1.rest.length := readArrayRune_rest_lt h2
  have e3 : b3.rest.length ≤ b2.rest.length := arrayParseInteger_rest_le (mapError_eq_ok h3)
  have e4 : b'.rest.length < b3.rest.length := readArrayRune_rest_lt h4
  omega

/-- The loop of `parseUntypedTextArray` over the explicit dimensions `[lower:upper]`, up to `=`. -/
def explicitDimensionsLoop (explicitDimensions : List ArrayDimension) (b : Buffer) :
    GoM (List ArrayDimension × Buffer) :=
  match _h : b.readRune with
  | (none, _) => .error (invalidArray "EOF")
  | (some r, b1) =>
    if r = '=' then .ok (explicitDimensions, b1)
    else if r ≠ '[' then .error (.error ("invalid array, expected '[' or '=' got " ++ toString r.toNat))
    else
      match _h2 : dimensionBounds b1 with
      | .error err => .error err
      | .ok (d, b2) => explicitDimensionsLoop (explicitDimensions ++ [d]) b2
termination_by b.rest.length
decreasing_by exact Nat.lt_of_le_of_lt (dimensionBounds_rest_le _h2) (Buffer.readRune_rest_lt _h)

/-- The loop of `parseUntypedTextArray` over the opening braces after the first: each one is a
dimension more, in which the one before has so far one sub-array. -/
def openBracesLoop (implicitDimensions : List ArrayDimension) (b : Buffer) :
    GoM (List ArrayDimension × Buffer) :=
  match _h : b.readRune with
  | (none, _) => .error (invalidArray "EOF")
  | (some r, b1) =>
    if r = lbrace then
      openBracesLoop (implicitDimensions.modify (implicitDimensions.length - 1) (fun d => { d with length := 1 }) ++
        [⟨0, 1⟩]) b1
    else .ok (implicitDimensions, b1.unreadRune)
termination_by b.rest.length
decreasing_by exact Buffer.readRune_rest_lt _h

/-- The state of the element loop of `parseUntypedTextArray`: the implicit dimensions counted so
far, the depth of the brace the loop is in (`currentDim`), the least depth it has come back to
(`counterDim`), and the elements read, with whether each was quoted. -/
structure ArrayScan where
  implicitDimensions : List ArrayDimension
  currentDim : Int
  counterDim : Int
  elements : List (List UInt8)
  quoted : List Bool

namespace ArrayScan

/-- `implicitDimensions[currentDim].Length++` when `currentDim == counterDim`: the length of a
dimension is counted in the first sub-array of the dimension before it only. -/
def count (st : ArrayScan) : List ArrayDimension :=
  if st.currentDim = st.counterDim then
    st.implicitDimensions.modify st.currentDim.toNat fun d => { d with length := d.length + 1 }
  else st.implicitDimensions

/-- The case `{` of the element loop: one level down, counted when it is a first sub-array. -/
def openBrace (st : ArrayScan) : ArrayScan :=
  { st with implicitDimensions := st.count, currentDim := st.currentDim + 1 }

/-- The case `}` of the element loop: one level up, and `counterDim` follows it down. -/
def closeBrace (st : ArrayScan) : ArrayScan :=
  let currentDim := st.currentDim - 1
  { st with currentDim, counterDim := if currentDim < st.counterDim then currentDim else st.counterDim }

/-- An element read by the element loop, counted when it is in a first sub-array. -/
def addElement (st : ArrayScan) (value : List UInt8) (quoted : Bool) : ArrayScan :=
  { st with implicitDimensions := st.count, elements := st.elements ++ [value], quoted := st.quoted ++ [quoted] }

/-- One pass of the element loop on the rune `r`, with `b` the buffer after it: `{` goes one level
down, `,` does nothing, `}` goes one level up, and any other rune is put back and starts an
element. -/
def step (st : ArrayScan) (r : Char) (b : Buffer) : GoM (ArrayScan × Buffer) :=
  if r = lbrace then .ok (st.openBrace, b)
  else if r = ',' then .ok (st, b)
  else if r = rbrace then .ok (st.closeBrace, b)
  else
    match arrayParseValue b.unreadRune with
    | .error err => .error (Fault.wrap "invalid array value: " err)
    | .ok (value, quoted, b) => .ok (st.addElement value quoted, b)

/-- One pass of the element loop: the next rune and what it does. -/
def next (st : ArrayScan) (b : Buffer) : GoM (ArrayScan × Buffer) :=
  match b.readRune with
  | (none, _) => .error (invalidArray "EOF")
  | (some r, b1) => st.step r b1

/-- Every pass reads at least one rune. -/
theorem next_rest_lt {st st' : ArrayScan} {b b' : Buffer} (h : st.next b = .ok (st', b')) :
    b'.rest.length < b.rest.length := by
  unfold next at h
  split at h
  · cases h
  · rename_i r b1 hr
    have hlt := Buffer.readRune_rest_lt hr
    unfold step at h
    split_ifs at h with h1 h2 h3
    · cases h; exact hlt
    · cases h; exact hlt
    · cases h; exact hlt
    · rw [Buffer.readRune_unreadRune hr] at h
      split at h
      · cases h
      · rename_i v q b2 hv
        cases h
        exact arrayParseValue_rest_lt hr (by rw [rbrace]; tauto) hv

end ArrayScan

/-- The element loop of `parseUntypedTextArray`, up to the `}` that closes the outermost brace. -/
def elementsLoop (st : ArrayScan) (b : Buffer) : GoM (ArrayScan × Buffer) :=
  match _h : st.next b with
  | .error err => .error err
  | .ok (st', b') => if st'.currentDim < 0 then .ok (st', b') else elementsLoop st' b'
termination_by b.rest.length
decreasing_by exact ArrayScan.next_rest_lt _h

/-- `parseUntypedTextArray`. -/
def parseUntypedTextArray (src : List UInt8) : GoM UntypedTextArray := do
  let b := skipWhitespace ⟨src, []⟩
  let (r, b) ← readArrayRune b
  let (explicitDimensions, r, b) ← if r = '[' then do
      let (explicitDimensions, b) ← explicitDimensionsLoop [] b.unreadRune
      let (r, b) ← readArrayRune b
      pure (explicitDimensions, r, b)
    else pure ([], r, b)
  if r ≠ lbrace then throw (.error ("invalid array, expected '\x7b' got " ++ toString r.toNat))
  let (implicitDimensions, b) ← openBracesLoop [⟨0, 1⟩] b
  let currentDim : Int := implicitDimensions.length - 1
  let (st, b) ← elementsLoop ⟨implicitDimensions, currentDim, currentDim, [], []⟩ b
  let b := skipWhitespace b
  if b.rest.length > 0 then
    throw (.error ("unexpected trailing data: " ++ String.ofList (runes b.rest)))
  pure ⟨st.elements, st.quoted,
    if st.elements = [] then [] else if explicitDimensions ≠ [] then explicitDimensions
    else st.implicitDimensions⟩

/-- The source `decodeText` gives an element's scan plan: `nil` for `NULL` unquoted. -/
def elementSource (s : List UInt8) (quoted : Bool) : Option (List UInt8) :=
  if s ≠ encode ['N', 'U', 'L', 'L'] ∨ quoted then some s else none

/-- `ArrayCodec.decodeText` with a setter that keeps what it is given: the dimensions, and the
source of each element in order. -/
def decodeText (src : List UInt8) : GoM (List ArrayDimension × List (Option (List UInt8))) := do
  let uta ← parseUntypedTextArray src
  pure (uta.dimensions, List.zipWith elementSource uta.elements uta.quoted)

/-! ## The text format: the encoder -/

/-- `encodeTextArrayDimensions`: nothing when every lower bound is 1, and otherwise
`[lower:upper]` for each dimension, then `=`. -/
def encodeTextArrayDimensions (buf : List UInt8) (dimensions : List ArrayDimension) : List UInt8 :=
  if dimensions.any (fun dim => dim.lowerBound ≠ 1) then
    dimensions.foldl (fun buf dim => buf ++ ['['.toUInt8] ++ encode (formatInt dim.lowerBound.toInt) ++
      [':'.toUInt8] ++ encode (formatInt (dim.lowerBound + dim.length - 1).toInt) ++ [']'.toUInt8]) buf ++
      ['='.toUInt8]
  else buf

/-- `quoteArrayElement`. -/
def quoteArrayElement (src : List UInt8) : List UInt8 := quoteByte :: (quoteArrayReplace src ++ [quoteByte])

/-- `isSpace`: the spaces of PostgreSQL's `array_isspace`, space, `\t`, `\n`, `\r`, `\v` and `\f`. -/
def isSpace (ch : UInt8) : Bool := ch ∈ [0x20, 0x09, 0x0A, 0x0D, 0x0B, 0x0C]

/-- `quoteArrayElementIfNeeded`: an element is quoted when it is empty, is `null` in any case, starts
or ends with a space, or holds one of `{},"\`. The test `strings.EqualFold(src, "null")` on four
bytes compares the ASCII lower case: no rune outside ASCII folds to `n`, `u` or `l`. -/
def quoteArrayElementIfNeeded (src : List UInt8) : List UInt8 :=
  if src = [] ∨ src.map (fun b => (Char.ofUInt8 b).toLower) = ['n', 'u', 'l', 'l'] ∨ isSpace (src.headD 0) ∨
      isSpace (src.getLastD 0) ∨ src.any (· ∈ encode [lbrace, rbrace, ',', '"', '\\']) then
    quoteArrayElement src
  else src

/-- What the text plan writes for an element: `NULL` for nil, and its text, quoted when it must
be, otherwise. -/
def elementText : Option (List UInt8) → List UInt8
  | none => encode ['N', 'U', 'L', 'L']
  | some elemBuf => quoteArrayElementIfNeeded elemBuf

/-- The text of `array.Index(i)` in the text plan: nil for a nil element, an error when the map
has no plan for it, and otherwise what its plan writes into an empty buffer. -/
def arrayElementText : CompositeField → GoM (Option (List UInt8))
  | .nil => .ok none
  | .value shown none => .error (unableToEncode shown)
  | .value _ (some plan) => plan []

/-- `dimElemCounts`: for each dimension, the number of elements of one of its sub-arrays, its
length times those after it, in Go's `int`. -/
def dimElemCounts (dimensions : List ArrayDimension) : List Int :=
  dimensions.foldr (fun d counts =>
    (match counts with
      | [] => d.length.toInt
      | c :: _ => (d.length.toInt * c).bmod (2 ^ 64)) :: counts) []

/-- One element of `encodePlanArrayCodecText.Encode`, the `i`-th: `,` after the first, `{` for
each sub-array it starts, its text or `NULL`, and `}` for each sub-array it ends. A count is never
zero here, as a zero count makes the cardinality zero. -/
def encodeTextElement (counts : List Int) (elem : CompositeField) (buf : List UInt8) (i : Nat) :
    GoM (List UInt8) := do
  let buf := if i > 0 then buf ++ [','.toUInt8] else buf
  let buf := counts.foldl (fun buf dec => if (i : Int).tmod dec = 0 then buf ++ [lbrace.toUInt8] else buf) buf
  let elemBuf ← arrayElementText elem
  let buf := buf ++ elementText elemBuf
  pure (counts.foldl (fun buf dec => if ((i : Int) + 1).tmod dec = 0 then buf ++ [rbrace.toUInt8] else buf) buf)

/-- `encodePlanArrayCodecText.Encode`: nil for a NULL array, `{}` for one without elements, and
otherwise the dimensions when they are not the default ones, then the elements. -/
def encodePlanArrayCodecText (array : ArrayGetter) : EncodePlan := fun buf =>
  match array.dimensions with
  | none => .ok none
  | some dimensions =>
    let elementCount := cardinality dimensions
    if elementCount = 0 then .ok (some (buf ++ [lbrace.toUInt8, rbrace.toUInt8]))
    else do
      let buf := encodeTextArrayDimensions buf dimensions
      let counts := dimElemCounts dimensions
      let buf ← (List.range elementCount.toNat).foldlM (fun buf i => encodeTextElement counts (array.index i) buf i) buf
      pure (some buf)

/-- `BinaryFormatCode`. -/
def binaryFormatCode : Int16 := 1

/-- `scanPlanArrayCodec.Scan`: a NULL source sets no dimensions (`none`), and otherwise the array is
read in its format. -/
def scanPlanArrayCodec (formatCode : Int16) (src : Option (List UInt8)) :
    GoM (Option (List ArrayDimension × List (Option (List UInt8)))) :=
  match src with
  | none => .ok none
  | some src =>
    if formatCode = binaryFormatCode then some <$> decodeBinary src
    else if formatCode = textFormatCode then some <$> decodeText src
    else .error (.error ("unknown format code " ++ toString formatCode.toInt))

end Pgx.Pgtype
