import Mathlib.Data.List.Basic
import Mathlib.Data.Nat.Bitwise

/-!
# Go's `unicode/utf8` decoder on byte strings

A Go `string` is a byte sequence; here it is a `List UInt8`. `utf8.DecodeRuneInString` returns the
first rune of a string and its width: `(RuneError, 0)` on the empty string, `(RuneError, 1)` when
the string does not start with the shortest-form encoding of a Unicode scalar value, and the
scalar with the length of its encoding otherwise. Lean's own decoder `ByteArray.utf8DecodeChar?`
accepts exactly the same encodings (RFC 3629: no overlong forms, no surrogates, nothing above
U+10FFFF), so the model is built on it.

* `decodeRuneInString` and its spec lemmas: the empty string, an encoded character, the width
  bounds, and the split of a string at its first decoded rune;
* `Valid`: a byte string that is the encoding of a list of characters, with the lemmas that
  take it apart one character at a time.
-/

namespace Go.Utf8

/-- `utf8.RuneError`, the replacement character U+FFFD. -/
def RuneError : Char := Char.ofNat 0xFFFD

/-- The encoding of a list of characters. -/
def encode (cs : List Char) : List UInt8 := cs.flatMap String.utf8EncodeChar

/-- `utf8.DecodeRuneInString`. -/
def decodeRuneInString (s : List UInt8) : Char × Nat :=
  match s with
  | [] => (RuneError, 0)
  | _ :: _ =>
    match s.toByteArray.utf8DecodeChar? 0 with
    | some c => (c, c.utf8Size)
    | none => (RuneError, 1)

@[simp] theorem encode_nil : encode [] = [] := rfl

@[simp] theorem encode_cons (c : Char) (cs : List Char) :
    encode (c :: cs) = String.utf8EncodeChar c ++ encode cs := rfl

@[simp] theorem encode_singleton (c : Char) : encode [c] = String.utf8EncodeChar c := by
  simp [encode]

@[simp] theorem encode_append (cs ds : List Char) : encode (cs ++ ds) = encode cs ++ encode ds := by
  simp [encode]

@[simp] theorem decodeRuneInString_nil : decodeRuneInString [] = (RuneError, 0) := rfl

/-- An encoded character decodes to itself, whatever follows it. -/
@[simp] theorem decodeRuneInString_utf8EncodeChar_append (c : Char) (t : List UInt8) :
    decodeRuneInString (String.utf8EncodeChar c ++ t) = (c, c.utf8Size) := by
  unfold decodeRuneInString
  split
  · exact absurd ‹_› (by simp [String.utf8EncodeChar_ne_nil])
  · rw [List.toByteArray_append, ByteArray.utf8DecodeChar?_utf8EncodeChar_append]

/-- A byte that starts no UTF-8 character decodes to `RuneError` of width one, whatever
follows it. -/
theorem decodeRuneInString_cons_invalid {b : UInt8}
    (hb : ByteArray.utf8DecodeChar?.parseFirstByte b = .invalid) (t : List UInt8) :
    decodeRuneInString (b :: t) = (RuneError, 1) := by
  have hb0 : ∀ h : 0 < (b :: t).toByteArray.size, (b :: t).toByteArray[0] = b := fun h => by
    simp [List.getElem_toByteArray]
  have hd : (b :: t).toByteArray.utf8DecodeChar? 0 = none := by
    unfold ByteArray.utf8DecodeChar?
    rw [dif_pos (by simp)]
    split
    · rfl
    all_goals rename_i hp; rw [hb0, hb] at hp; cases hp
  simp [decodeRuneInString, hd]

theorem decodeRuneInString_encode_cons (c : Char) (cs : List Char) (t : List UInt8) :
    decodeRuneInString (encode (c :: cs) ++ t) = (c, c.utf8Size) := by
  rw [encode_cons, List.append_assoc, decodeRuneInString_utf8EncodeChar_append]

theorem runeError_utf8Size : RuneError.utf8Size = 3 := by decide

/-- A character below U+0080 is encoded as the one byte of its code. -/
theorem utf8EncodeChar_of_lt {c : Char} (hc : c.toNat < 0x80) : String.utf8EncodeChar c = [c.toUInt8] := by
  have h1 : c.utf8Size = 1 := by
    rw [Char.utf8Size_eq_one_iff, UInt32.le_iff_toNat_le]
    have h2 : c.toNat = c.val.toNat := rfl
    have h3 : (127 : UInt32).toNat = 127 := rfl
    omega
  rw [String.utf8EncodeChar_eq_singleton h1, Char.toUInt8_val]

/-- An ASCII byte is a rune of width one. -/
theorem decodeRuneInString_ascii {c : Char} (hc : c.toNat < 0x80) (t : List UInt8) :
    decodeRuneInString (c.toUInt8 :: t) = (c, 1) := by
  have h := decodeRuneInString_utf8EncodeChar_append c t
  rw [utf8EncodeChar_of_lt hc, List.singleton_append] at h
  rw [h, ← String.length_utf8EncodeChar, utf8EncodeChar_of_lt hc, List.length_singleton]

theorem toNat_ofUInt8 (b : UInt8) : (Char.ofUInt8 b).toNat = b.toNat := rfl

theorem toUInt8_ofUInt8 (b : UInt8) : (Char.ofUInt8 b).toUInt8 = b := by
  apply UInt8.toNat.inj
  show (Char.ofUInt8 b).val.toUInt8.toNat = b.toNat
  rw [UInt32.toNat_toUInt8]
  show (Char.ofUInt8 b).toNat % 256 = b.toNat
  rw [toNat_ofUInt8]
  exact Nat.mod_eq_of_lt b.toNat_lt

/-- A byte below 0x80 is a rune of width one. -/
theorem decodeRuneInString_cons_of_lt {b : UInt8} (hb : b.toNat < 0x80) (t : List UInt8) :
    decodeRuneInString (b :: t) = (Char.ofUInt8 b, 1) := by
  have := decodeRuneInString_ascii (by rw [toNat_ofUInt8]; omega : (Char.ofUInt8 b).toNat < 0x80) t
  rwa [toUInt8_ofUInt8] at this

theorem width_le_length (s : List UInt8) : (decodeRuneInString s).2 ≤ s.length := by
  unfold decodeRuneInString
  split
  · simp
  · split
    · rename_i c hc
      have := ByteArray.le_size_of_utf8DecodeChar?_eq_some hc
      simpa using this
    · simp

theorem width_pos {s : List UInt8} (hs : s ≠ []) : 0 < (decodeRuneInString s).2 := by
  unfold decodeRuneInString
  split
  · exact absurd rfl hs
  · split
    · exact Char.utf8Size_pos _
    · exact Nat.one_pos

/-- Only the empty string gives width zero. -/
theorem width_eq_zero_iff (s : List UInt8) : (decodeRuneInString s).2 = 0 ↔ s = [] := by
  constructor
  · intro h
    by_contra hs
    exact absurd h (Nat.pos_iff_ne_zero.1 (width_pos hs))
  · rintro rfl; rfl

/-- A rune other than `RuneError`, or a `RuneError` of width three, is an encoded character that
the string starts with. -/
theorem eq_utf8EncodeChar_append {s : List UInt8} {c : Char} {w : Nat}
    (h : decodeRuneInString s = (c, w)) (hc : c ≠ RuneError ∨ w = 3) :
    s = String.utf8EncodeChar c ++ s.drop w ∧ w = c.utf8Size := by
  unfold decodeRuneInString at h
  split at h
  · simp only [Prod.mk.injEq] at h
    obtain ⟨rfl, rfl⟩ := h
    simp at hc
  · rename_i s' b t
    split at h
    · rename_i d hd
      simp only [Prod.mk.injEq] at h
      obtain ⟨rfl, rfl⟩ := h
      obtain ⟨l, hl⟩ := ByteArray.exists_of_utf8DecodeChar?_eq_some hd
      have hs : b :: t = String.utf8EncodeChar d ++ l.data.toList := by
        have := congrArg (fun a : ByteArray => a.data.toList) hl
        simpa only [List.toList_data_toByteArray, ByteArray.toList_data_append] using this
      refine ⟨?_, rfl⟩
      rw [hs, ← String.length_utf8EncodeChar, List.drop_left]
    · simp only [Prod.mk.injEq] at h
      obtain ⟨rfl, rfl⟩ := h
      simp at hc

/-! ### Valid UTF-8 -/

/-- A byte string is valid UTF-8 when it encodes a list of characters. -/
def Valid (s : List UInt8) : Prop := ∃ cs : List Char, s = encode cs

theorem valid_nil : Valid [] := ⟨[], rfl⟩

theorem valid_encode (cs : List Char) : Valid (encode cs) := ⟨cs, rfl⟩

theorem Valid.append {s t : List UInt8} (hs : Valid s) (ht : Valid t) : Valid (s ++ t) := by
  obtain ⟨cs, rfl⟩ := hs
  obtain ⟨ds, rfl⟩ := ht
  exact ⟨cs ++ ds, by simp⟩

theorem valid_utf8EncodeChar (c : Char) : Valid (String.utf8EncodeChar c) :=
  ⟨[c], by simp⟩

/-- The first byte of an encoded character is never a later byte of another one. -/
theorem ne_of_split {c d : Char} {x a t r : List UInt8} {e : UInt8}
    (hx : x ≠ []) (hc : String.utf8EncodeChar c = x ++ e :: a)
    (hd : String.utf8EncodeChar d ++ r = e :: t) : False := by
  have hlt : x.length < (String.utf8EncodeChar c).length := by simp [hc]
  have he : (String.utf8EncodeChar c)[x.length] = e := by simp [hc]
  have hd0 : 0 < (String.utf8EncodeChar d).length := by simp [Char.utf8Size_pos]
  have he' : (String.utf8EncodeChar d)[0] = e := by
    have h0 := congrArg (fun l : List UInt8 => l[0]?) hd
    simp only [List.getElem?_cons_zero, List.getElem?_append_left hd0,
      List.getElem?_eq_getElem hd0, Option.some.injEq] at h0
    exact h0
  have hfirst : e.IsUTF8FirstByte := by
    rw [← he']
    exact (UInt8.isUTF8FirstByte_getElem_utf8EncodeChar).2 rfl
  rw [← he, UInt8.isUTF8FirstByte_getElem_utf8EncodeChar] at hfirst
  exact hx (List.length_eq_zero_iff.1 hfirst)

/-- A valid string cut at the start of a valid suffix leaves a valid prefix. -/
theorem valid_of_append {x y : List UInt8} (h : Valid (x ++ y)) (hy : Valid y) : Valid x := by
  obtain ⟨cs, hcs⟩ := h
  induction cs generalizing x with
  | nil =>
    rw [encode_nil, List.append_eq_nil_iff] at hcs
    rw [hcs.1]
    exact valid_nil
  | cons c cs ih =>
    rw [encode_cons, List.append_eq_append_iff] at hcs
    rcases hcs with ⟨a', hc, hy'⟩ | ⟨c', hx, hcs'⟩
    · -- `x` ends inside the encoding of `c`: only at its end, since `y` starts a character
      rcases a' with _ | ⟨e, a⟩
      · rw [List.append_nil] at hc
        rw [← hc]
        exact valid_utf8EncodeChar c
      · by_cases hx : x = []
        · rw [hx]; exact valid_nil
        obtain ⟨ds, rfl⟩ := hy
        rcases ds with _ | ⟨d, ds⟩
        · simp at hy'
        · rw [encode_cons, List.cons_append] at hy'
          exact (ne_of_split hx hc hy').elim
    · rw [hx]
      exact (valid_utf8EncodeChar c).append (ih hcs'.symm)

/-- ASCII text is encoded byte for byte. -/
theorem encode_of_ascii {cs : List Char} (h : ∀ c ∈ cs, c.toNat < 0x80) :
    encode cs = cs.map Char.toUInt8 := by
  induction cs with
  | nil => rfl
  | cons c cs ih =>
    rw [encode_cons, utf8EncodeChar_of_lt (h c (by simp)), ih (fun d hd => h d (by simp [hd]))]
    rfl

/-- A single quote byte is never part of the encoding of another character. -/
theorem quote_not_mem {c : Char} (hc : c ≠ '\'') : (0x27 : UInt8) ∉ String.utf8EncodeChar c := by
  intro hmem
  obtain ⟨i, hi, he⟩ := List.mem_iff_getElem.1 hmem
  have hfirst : (String.utf8EncodeChar c)[i].IsUTF8FirstByte := by rw [he]; decide
  have hi0 : i = 0 := UInt8.isUTF8FirstByte_getElem_utf8EncodeChar.1 hfirst
  subst hi0
  have hne : String.utf8EncodeChar c ≠ [] := String.utf8EncodeChar_ne_nil
  have hcons : String.utf8EncodeChar c = 0x27 :: (String.utf8EncodeChar c).tail := by
    rw [← he, List.getElem_zero, List.cons_head_tail hne]
  have h1 := decodeRuneInString_utf8EncodeChar_append c []
  rw [List.append_nil, hcons, decodeRuneInString_cons_of_lt (by decide)] at h1
  exact hc ((Prod.mk.inj h1).1.symm.trans (by decide))

/-- A byte below 0x80 starts a character. -/
theorem isUTF8FirstByte_of_lt {b : UInt8} (hb : b.toNat < 0x80) : b.IsUTF8FirstByte := by
  left
  apply UInt8.toNat.inj
  rw [UInt8.toNat_and]
  show b.toNat &&& 2 ^ 7 = 0
  rw [Nat.and_two_pow, Nat.testBit_lt_two_pow hb]
  rfl

/-- A byte below 0x80 occurs in the encoding of a character only as that character itself. -/
theorem eq_of_mem_utf8EncodeChar {c : Char} {b : UInt8} (hb : b.toNat < 0x80)
    (hmem : b ∈ String.utf8EncodeChar c) : c = Char.ofUInt8 b := by
  obtain ⟨i, hi, he⟩ := List.mem_iff_getElem.1 hmem
  have hfirst : (String.utf8EncodeChar c)[i].IsUTF8FirstByte := by rw [he]; exact isUTF8FirstByte_of_lt hb
  have hi0 : i = 0 := UInt8.isUTF8FirstByte_getElem_utf8EncodeChar.1 hfirst
  subst hi0
  have hcons : String.utf8EncodeChar c = b :: (String.utf8EncodeChar c).tail := by
    rw [← he, List.getElem_zero, List.cons_head_tail String.utf8EncodeChar_ne_nil]
  have h1 := decodeRuneInString_utf8EncodeChar_append c []
  rw [List.append_nil, hcons, decodeRuneInString_cons_of_lt hb] at h1
  exact (Prod.mk.inj h1).1.symm

/-- An ASCII byte occurs in the encoding of a text exactly when its character does. -/
theorem mem_encode_of_lt {cs : List Char} {b : UInt8} (hb : b.toNat < 0x80) :
    b ∈ encode cs ↔ Char.ofUInt8 b ∈ cs := by
  have hc : (Char.ofUInt8 b).toNat < 0x80 := by rw [toNat_ofUInt8]; exact hb
  constructor
  · intro h
    obtain ⟨c, hc', hmem⟩ := List.mem_flatMap.1 h
    rw [← eq_of_mem_utf8EncodeChar hb hmem]
    exact hc'
  · intro h
    refine List.mem_flatMap.2 ⟨_, h, ?_⟩
    rw [utf8EncodeChar_of_lt hc, toUInt8_ofUInt8]
    exact List.mem_singleton_self b

/-- The runes a `range` loop over a string visits, `RuneError` for each byte that starts no
character; the text `%v` prints for a byte string, when it is valid UTF-8. -/
def runes (s : List UInt8) : List Char :=
  match _h : s with
  | [] => []
  | _ :: _ => (decodeRuneInString s).1 :: runes (s.drop (decodeRuneInString s).2)
termination_by s.length
decreasing_by
  have := width_pos (s := s) (by simp [_h])
  simp only [List.length_drop]
  subst _h
  simp only [List.length_cons] at this ⊢
  omega

end Go.Utf8

namespace Go.Unicode

/-- `unicode.IsSpace`: the Latin-1 spaces, and above them the other characters of the
White_Space property. -/
def isSpace (c : Char) : Bool :=
  if c.toNat ≤ 0xFF then c.toNat ∈ [0x09, 0x0A, 0x0B, 0x0C, 0x0D, 0x20, 0x85, 0xA0]
  else c.toNat = 0x1680 || (0x2000 ≤ c.toNat && c.toNat ≤ 0x200A) || c.toNat = 0x2028 ||
    c.toNat = 0x2029 || c.toNat = 0x202F || c.toNat = 0x205F || c.toNat = 0x3000

end Go.Unicode
