import Mathlib.Data.List.GetD
import Pgx.Sanitize.Lexer
import Pgx.Go.Time

/-!
# `Query.Sanitize` and `SanitizeSQL`

`Sanitize` writes the parts of a query one after the other: raw text as it is, and for a
placeholder `$n` the `n`-th argument as an SQL literal with a space on each side (the spaces keep a
`-` before or after the literal from starting a line comment). It fails on a placeholder number
below one or past the arguments, on an argument of a type it cannot write, and on an argument no
placeholder uses.

* `Arg`: the dynamic type of an argument;
* `quoteString`, `quoteBytes`: the string and `bytea` literals;
* `argText`: the literal of one argument, `partText`: what is written for one part;
* `Query.sanitize`, `sanitizeSQL`.
-/

namespace Pgx.Sanitize

open Go Go.Utf8 Go.Strconv

/-- An argument of `Sanitize`, by its dynamic type: the seven it writes, and any other, with the
name `%T` prints for it. -/
inductive Arg
  | nil
  | int64 (v : Int64)
  | float64 (v : Float64)
  | bool (v : Bool)
  | bytes (v : List UInt8)
  | string (v : List UInt8)
  | time (v : Time)
  | other (typeName : String)

/-- `QuoteString`: the string between single quotes, each single quote doubled. -/
def quoteString (dst : List UInt8) (str : List UInt8) : List UInt8 :=
  dst ++ [0x27] ++ str.flatMap (fun b => if b = 0x27 then [0x27, 0x27] else [b]) ++ [0x27]

/-- `hex.Encode`: two lower-case hex digits per byte. -/
def hexEncode (src : List UInt8) : List Char :=
  src.flatMap fun v => [(v.toNat / 16).digitChar, (v.toNat % 16).digitChar]

/-- `QuoteBytes`: `'\x` followed by the bytes in hex and a closing quote. -/
def quoteBytes (dst : List UInt8) (buf : List UInt8) : List UInt8 :=
  if buf = [] then dst ++ encode ['\'', '\\', 'x', '\'']
  else dst ++ encode (['\'', '\\', 'x'] ++ hexEncode buf ++ ['\''])

/-- The layout `'2006-01-02 15:04:05.999999999Z07:00:00'`, as its chunks. -/
def timeLayout : List Time.Chunk :=
  [.lit ['\''], .longYear, .lit ['-'], .zeroMonth, .lit ['-'], .zeroDay, .lit [' '], .hour, .lit [':'],
    .zeroMinute, .lit [':'], .zeroSecond, .fracSecond9, .iso8601ColonSecondsTZ, .lit ['\'']]

/-- `null`. -/
def null : List UInt8 := encode ['n', 'u', 'l', 'l']

/-- The literal `Sanitize` writes for an argument, or its error. -/
def argText : Arg → Except String (List UInt8)
  | .nil => .ok null
  | .int64 v => .ok (appendInt [] v)
  | .float64 v => .ok (appendFloat [] v)
  | .bool v => .ok (appendBool [] v)
  | .bytes v => .ok (quoteBytes [] v)
  | .string v => .ok (quoteString [] v)
  | .time v => .ok ((v.truncate 1000).appendFormat [] timeLayout)
  | .other typeName => .error ("invalid arg type: " ++ typeName)

/-- What `Sanitize` writes for one part, or its error: raw text as it is, a placeholder as the
literal of its argument between two spaces. -/
def partText (args : List Arg) : Part → Except String (List UInt8)
  | .str s => .ok s
  | .int n =>
    let argIdx := n - 1
    if argIdx < 0 then .error "first sql argument must be > 0"
    else if args.length ≤ argIdx.toInt then .error "insufficient arguments"
    else match argText (args.getD argIdx.toNatClampNeg .nil) with
      | .ok p => .ok ([0x20] ++ p ++ [0x20])
      | .error e => .error e

/-- The argument a part uses. -/
def usedArg : Part → Option Nat
  | .str _ => none
  | .int n => some (n - 1).toNatClampNeg

/-- The loop of `Sanitize` over the parts: the text written so far, and which arguments have been
used. -/
def sanitizeParts (args : List Arg) : List Part → List UInt8 → List Bool →
    Except String (List UInt8 × List Bool)
  | [], buf, argUse => .ok (buf, argUse)
  | part :: parts, buf, argUse =>
    match partText args part with
    | .ok str =>
      sanitizeParts args parts (buf ++ str)
        (match usedArg part with | some i => argUse.set i true | none => argUse)
    | .error e => .error e

/-- `Query.Sanitize`. -/
def Query.sanitize (q : Query) (args : List Arg) : Except String (List UInt8) :=
  match sanitizeParts args q.parts [] (List.replicate args.length false) with
  | .ok (buf, argUse) =>
    match argUse.findIdx? (· == false) with
    | some i => .error ("unused argument: " ++ toString i)
    | none => .ok buf
  | .error e => .error e

/-- `SanitizeSQL`. -/
def sanitizeSQL (sql : List UInt8) (args : List Arg) : Except String (List UInt8) :=
  (Query.init sql).sanitize args

/-! ### What a successful `Sanitize` wrote -/

theorem mapM_cons_ok {α β ε : Type} {f : α → Except ε β} {a : α} {l : List α} {ys : List β} :
    (a :: l).mapM f = .ok ys ↔ ∃ b bs, f a = .ok b ∧ l.mapM f = .ok bs ∧ ys = b :: bs := by
  rw [List.mapM_cons]
  cases f a <;> cases l.mapM f <;> simp [bind, Except.bind, pure, Except.pure, eq_comm]

/-- The loop writes the texts of the parts one after the other. -/
theorem sanitizeParts_ok {args : List Arg} {parts : List Part} {buf : List UInt8} {argUse : List Bool}
    {out : List UInt8} {argUse' : List Bool} (h : sanitizeParts args parts buf argUse = .ok (out, argUse')) :
    ∃ pieces, parts.mapM (partText args) = .ok pieces ∧ out = buf ++ pieces.flatten := by
  induction parts generalizing buf argUse with
  | nil =>
    simp only [sanitizeParts, Except.ok.injEq, Prod.mk.injEq] at h
    exact ⟨[], rfl, by rw [h.1, List.flatten_nil, List.append_nil]⟩
  | cons part parts ih =>
    simp only [sanitizeParts] at h
    cases hp : partText args part with
    | error e => rw [hp] at h; cases h
    | ok str =>
      rw [hp] at h
      obtain ⟨pieces, hps, rfl⟩ := ih h
      exact ⟨str :: pieces, mapM_cons_ok.2 ⟨str, pieces, hp, hps, rfl⟩, by simp⟩

/-- A successful `Sanitize` wrote the texts of the query's parts, in order. -/
theorem Query.sanitize_ok {q : Query} {args : List Arg} {out : List UInt8} (h : q.sanitize args = .ok out) :
    ∃ pieces, q.parts.mapM (partText args) = .ok pieces ∧ out = pieces.flatten := by
  unfold Query.sanitize at h
  cases hs : sanitizeParts args q.parts [] (List.replicate args.length false) with
  | error e => rw [hs] at h; cases h
  | ok r =>
    obtain ⟨buf, argUse⟩ := r
    rw [hs] at h
    dsimp only at h
    obtain ⟨pieces, hps, hbuf⟩ := sanitizeParts_ok hs
    refine ⟨pieces, hps, ?_⟩
    -- every argument was used, or `Sanitize` would have failed
    cases hf : argUse.findIdx? (· == false) with
    | some i => rw [hf] at h; cases h
    | none =>
      rw [hf, Except.ok.injEq] at h
      rw [← h, hbuf, List.nil_append]

/-- A placeholder is written as the literal of an argument, with a space on each side. -/
theorem partText_int_ok {args : List Arg} {n : Int64} {p : List UInt8}
    (h : partText args (.int n) = .ok p) :
    ∃ a ∈ args, ∃ t, argText a = .ok t ∧ p = [0x20] ++ t ++ [0x20] := by
  simp only [partText] at h
  split_ifs at h with hneg hlen
  split at h
  · rename_i t ht
    cases h
    refine ⟨_, ?_, t, ht, rfl⟩
    -- the index is in range: it is not negative and below the number of arguments
    have h0 : 0 ≤ (n - 1).toInt := by
      rw [Int64.lt_iff_toInt_lt] at hneg
      simpa using hneg
    have hlt : (n - 1).toNatClampNeg < args.length := by
      rw [← Int64.toNat_toInt]
      omega
    rw [List.getD_eq_getElem _ _ hlt]
    exact List.getElem_mem hlt
  · cases h

end Pgx.Sanitize
