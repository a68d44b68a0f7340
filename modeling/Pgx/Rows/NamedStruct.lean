import Pgx.Go.Strings

/-!
# `RowToStructByName`: which field each column is scanned into

`computeNamedStructFields` walks a struct type depth first, into embedded structs, and looks up
the column of each exported field: the one named by its `db` tag (the part before a comma), or
without a tag the first whose name equals the field's ignoring case and underscores; `db:"-"`
leaves the field out. It writes the field's path into the slot of that column, so a later field
of the same column overwrites an earlier one, and it keeps the first field that has no column.
`lookupNamedStructFields` fails on a column that no field took; `ScanRow` fails on a field without
a column unless it is lax.

* `computeNamedStructFields_eq_foldl`: the walk is a fold, over the fields it looks up in order
  (`candidates`), of one lookup (`matchField`);
* `scanRow_path_last`: a column is scanned into the last of those fields whose lookup gives it;
* `rowToStructByName_duplicateTag`: two fields tagged for one column are not reported, and the
  first receives nothing.

Go strings are lists of characters, and `strings.EqualFold` is taken on ASCII letters.
-/

namespace Pgx.Rows

open Go.Strings

/-- A field of a struct type as `reflect.StructField` shows it: its name, whether it is exported
(`PkgPath == ""`), whether it is embedded (`Anonymous`), its `db` tag when it has one, and the
fields of its type when that type is a struct. -/
inductive StructField
  | mk (name : List Char) (exported anonymous : Bool) (dbTag : Option (List Char))
      (structFields : Option (List StructField))

/-- `strings.EqualFold` on ASCII text: equal up to the case of letters. -/
def equalFold (s t : List Char) : Bool := s.map Char.toLower == t.map Char.toLower

/-- `fieldPosByName`: the first column named `field`, or with `normalize` the first whose name
equals it once both lose their underscores, ignoring case; `-1` for none. -/
def fieldPosByName (fldDescs : List (List Char)) (field : List Char) (normalize : Bool) : Int :=
  let field := if normalize then replace field ['_'] [] else field
  match fldDescs.findIdx? (fun name =>
      if normalize then equalFold (replace name ['_'] []) field else name == field) with
  | some i => i
  | none => -1

mutual

/-- `computeNamedStructFields` over the fields of a struct type from the `i`-th on, below the path
`stack`: the column slots `fields` with the paths written in, and the first field without a
column (`[]` for none). -/
def computeNamedStructFields (fldDescs : List (List Char)) (stack : List Nat) :
    Nat → List StructField → List (Option (List Nat)) → List Char →
      List (Option (List Nat)) × List Char
  | _, [], fields, missingField => (fields, missingField)
  | i, sf :: rest, fields, missingField =>
    let r := computeNamedStructField fldDescs stack i sf fields missingField
    computeNamedStructFields fldDescs stack (i + 1) rest r.1 r.2

/-- The body of the loop of `computeNamedStructFields` for its `i`-th field `sf`; a `continue`
leaves the slots and the missing field as they are. -/
def computeNamedStructField (fldDescs : List (List Char)) (stack : List Nat) (i : Nat) :
    StructField → List (Option (List Nat)) → List Char → List (Option (List Nat)) × List Char
  | .mk name exported anonymous dbTag sub, fields, missingField =>
    if !exported && !anonymous then (fields, missingField)
    else
      match anonymous, sub with
      | true, some subFields =>
        -- an embedded struct, whose walk keeps a missing field of its own
        let r := computeNamedStructFields fldDescs (stack ++ [i]) 0 subFields fields []
        (r.1, if missingField = [] then r.2 else missingField)
      | _, _ =>
        let dbTag := dbTag.map fun t => (cut t ',').1
        if dbTag = some ['-'] then (fields, missingField)
        else
          let colName := dbTag.getD name
          let fpos := fieldPosByName fldDescs colName dbTag.isNone
          if fpos = -1 then (fields, if missingField = [] then colName else missingField)
          else (fields.set fpos.toNat (some (stack ++ [i])), missingField)

end

/-- The check of `lookupNamedStructFields` that every column has a field. -/
def checkFields : List (Option (List Nat)) → List (List Char) → Except String (List (List Nat))
  | some path :: fields, _ :: names => (checkFields fields names).map (path :: ·)
  | none :: _, name :: _ => .error ("struct doesn't have corresponding row field " ++ String.ofList name)
  | _, _ => .ok []

/-- `lookupNamedStructFields(t, fldDescs)`: the path of the field each column is scanned into, and
the first field without a column. -/
def lookupNamedStructFields (t : List StructField) (fldDescs : List (List Char)) :
    Except String (List (List Nat) × List Char) :=
  let r := computeNamedStructFields fldDescs [] 0 t (List.replicate fldDescs.length none) []
  (checkFields r.1 fldDescs).map fun fields => (fields, r.2)

/-- `namedStructRowScanner.ScanRow` up to `rows.Scan`: the path of the field each column is
scanned into, or the error. -/
def scanRow (t : List StructField) (fldDescs : List (List Char)) (lax : Bool) :
    Except String (List (List Nat)) :=
  match lookupNamedStructFields t fldDescs with
  | .error e => .error e
  | .ok (fields, missingField) =>
    if !lax && missingField ≠ [] then
      .error ("cannot find field " ++ String.ofList missingField ++ " in returned row")
    else .ok fields

/-! ### The walk as a fold -/

mutual

/-- The fields `computeNamedStructFields` looks up, depth first: each with its path, the column
name it looks for, and whether the lookup ignores case and underscores. -/
def candidates (stack : List Nat) : Nat → List StructField → List (List Nat × List Char × Bool)
  | _, [] => []
  | i, sf :: rest => fieldCandidates stack i sf ++ candidates stack (i + 1) rest

/-- The fields the loop body looks up for the `i`-th field `sf`. -/
def fieldCandidates (stack : List Nat) (i : Nat) : StructField → List (List Nat × List Char × Bool)
  | .mk name exported anonymous dbTag sub =>
    if !exported && !anonymous then []
    else
      match anonymous, sub with
      | true, some subFields => candidates (stack ++ [i]) 0 subFields
      | _, _ =>
        let dbTag := dbTag.map fun t => (cut t ',').1
        if dbTag = some ['-'] then [] else [(stack ++ [i], dbTag.getD name, dbTag.isNone)]

end

/-- One lookup of the walk: the field's path written into the slot of its column, or, when it has
no column, its name kept as the missing field unless there is one already. -/
def matchField (fldDescs : List (List Char)) (acc : List (Option (List Nat)) × List Char)
    (c : List Nat × List Char × Bool) : List (Option (List Nat)) × List Char :=
  if fieldPosByName fldDescs c.2.1 c.2.2 = -1 then (acc.1, if acc.2 = [] then c.2.1 else acc.2)
  else (acc.1.set (fieldPosByName fldDescs c.2.1 c.2.2).toNat (some c.1), acc.2)

theorem matchField_of_eq {fldDescs : List (List Char)} {acc : List (Option (List Nat)) × List Char}
    {c : List Nat × List Char × Bool} (h : fieldPosByName fldDescs c.2.1 c.2.2 = -1) :
    matchField fldDescs acc c = (acc.1, if acc.2 = [] then c.2.1 else acc.2) :=
  if_pos h

theorem matchField_of_ne {fldDescs : List (List Char)} {acc : List (Option (List Nat)) × List Char}
    {c : List Nat × List Char × Bool} (h : fieldPosByName fldDescs c.2.1 c.2.2 ≠ -1) :
    matchField fldDescs acc c =
      (acc.1.set (fieldPosByName fldDescs c.2.1 c.2.2).toNat (some c.1), acc.2) :=
  if_neg h

/-- A column position is `-1` or an index. -/
theorem fieldPosByName_cases (fldDescs : List (List Char)) (field : List Char) (normalize : Bool) :
    fieldPosByName fldDescs field normalize = -1 ∨ 0 ≤ fieldPosByName fldDescs field normalize := by
  unfold fieldPosByName
  split <;> dsimp only <;> split <;> simp

/-- A fold keeps a missing field it starts from, and otherwise finds the first one itself: the
missing field of an embedded struct, found from none, is the one its parent keeps. -/
theorem foldl_matchField_missing (fldDescs : List (List Char)) (cs : List (List Nat × List Char × Bool)) :
    ∀ (fields : List (Option (List Nat))) (missing : List Char),
      cs.foldl (matchField fldDescs) (fields, missing) =
        ((cs.foldl (matchField fldDescs) (fields, [])).1,
          if missing = [] then (cs.foldl (matchField fldDescs) (fields, [])).2 else missing) := by
  induction cs with
  | nil =>
    intro fields missing
    by_cases hm : missing = [] <;> simp [hm]
  | cons c cs ih =>
    intro fields missing
    rw [List.foldl_cons, List.foldl_cons, ih, ih (matchField fldDescs (fields, []) c).1]
    -- the slots do not depend on the missing field; only the missing field does
    by_cases hpos : fieldPosByName fldDescs c.2.1 c.2.2 = -1 <;>
      by_cases hm : missing = [] <;> simp [matchField, hpos, hm]

mutual

/-- **The walk is a fold** of `matchField` over the fields it looks up. -/
theorem computeNamedStructFields_eq_foldl (fldDescs : List (List Char)) (stack : List Nat) :
    ∀ (i : Nat) (fs : List StructField) (fields : List (Option (List Nat))) (missing : List Char),
      computeNamedStructFields fldDescs stack i fs fields missing =
        (candidates stack i fs).foldl (matchField fldDescs) (fields, missing)
  | _, [], _, _ => rfl
  | i, sf :: rest, fields, missing => by
    simp only [computeNamedStructFields, candidates, List.foldl_append]
    rw [computeNamedStructField_eq_foldl fldDescs stack i sf fields missing]
    exact computeNamedStructFields_eq_foldl fldDescs stack (i + 1) rest _ _

theorem computeNamedStructField_eq_foldl (fldDescs : List (List Char)) (stack : List Nat) (i : Nat) :
    ∀ (sf : StructField) (fields : List (Option (List Nat))) (missing : List Char),
      computeNamedStructField fldDescs stack i sf fields missing =
        (fieldCandidates stack i sf).foldl (matchField fldDescs) (fields, missing)
  | .mk name exported anonymous dbTag sub, fields, missing => by
    unfold computeNamedStructField fieldCandidates
    split
    · rfl
    · match anonymous, sub with
      | true, some subFields =>
        -- the embedded walk starts without a missing field, and its parent keeps its own
        dsimp only
        rw [computeNamedStructFields_eq_foldl fldDescs (stack ++ [i]) 0 subFields fields [],
          foldl_matchField_missing fldDescs _ fields missing]
      | false, _ =>
        dsimp only
        split <;> simp [matchField]
      | true, none =>
        dsimp only
        split <;> simp [matchField]

end

/-- The fold keeps the number of slots. -/
theorem foldl_matchField_length (fldDescs : List (List Char)) (cs : List (List Nat × List Char × Bool)) :
    ∀ (fields : List (Option (List Nat))) (missing : List Char),
      (cs.foldl (matchField fldDescs) (fields, missing)).1.length = fields.length := by
  induction cs with
  | nil =>
    intro fields missing
    rfl
  | cons c cs ih =>
    intro fields missing
    rw [List.foldl_cons, ih]
    by_cases hpos : fieldPosByName fldDescs c.2.1 c.2.2 = -1 <;> simp [matchField, hpos]

/-- After the fold, the slot of column `j` holds the path of the last field whose lookup gives
`j`, or what it held before when there is none. -/
theorem foldl_matchField_slot (fldDescs : List (List Char)) (j : Nat)
    (cs : List (List Nat × List Char × Bool)) :
    ∀ (fields : List (Option (List Nat))) (missing : List Char), j < fields.length →
      (cs.foldl (matchField fldDescs) (fields, missing)).1[j]? =
        match (cs.filter fun c => fieldPosByName fldDescs c.2.1 c.2.2 = j).getLast? with
        | some c => some (some c.1)
        | none => fields[j]? := by
  induction cs using List.reverseRecOn with
  | nil =>
    intro fields missing _
    rfl
  | append_singleton cs c ih =>
    intro fields missing hj
    have hlen := foldl_matchField_length fldDescs cs fields missing
    rw [List.foldl_append, List.foldl_cons, List.foldl_nil, List.filter_append]
    -- the last lookup writes slot `j` exactly when it gives `j`
    by_cases hc : fieldPosByName fldDescs c.2.1 c.2.2 = j
    · have hne : fieldPosByName fldDescs c.2.1 c.2.2 ≠ -1 := by omega
      rw [matchField_of_ne hne, hc, Int.toNat_natCast]
      dsimp only
      rw [List.getElem?_set_self (by rw [hlen]; exact hj)]
      simp [hc]
    · have hskip : (matchField fldDescs (cs.foldl (matchField fldDescs) (fields, missing)) c).1[j]? =
          (cs.foldl (matchField fldDescs) (fields, missing)).1[j]? := by
        rcases fieldPosByName_cases fldDescs c.2.1 c.2.2 with hpos | hpos
        · rw [matchField_of_eq hpos]
        · rw [matchField_of_ne (by omega)]
          exact List.getElem?_set_ne (by omega)
      rw [hskip, ih fields missing hj]
      simp [hc]

/-- A check that passed: every slot held a path, the one it returns. -/
theorem checkFields_ok : ∀ (fields : List (Option (List Nat))) (names : List (List Char))
    (paths : List (List Nat)), fields.length = names.length → checkFields fields names = .ok paths →
      ∀ j : Nat, fields[j]? = paths[j]?.map some
  | [], names, paths, _, h, j => by
    have hp : paths = [] := by cases names <;> simpa [checkFields] using h.symm
    subst hp
    rfl
  | some p :: fields, _ :: names, paths, hl, h, j => by
    simp only [checkFields] at h
    cases hc : checkFields fields names with
    | error e => rw [hc] at h; cases h
    | ok ps =>
      rw [hc] at h
      cases h
      cases j with
      | zero => rfl
      | succ j => exact checkFields_ok fields names ps (by simpa using hl) hc j
  | none :: _, _ :: _, _, _, h, _ => by cases h
  | _ :: _, [], _, hl, _, _ => by cases hl

/-- **The field a column is scanned into**: when `ScanRow` gets as far as the scan, column `j` is
scanned into the last field, depth first, whose lookup gives `j`. -/
theorem scanRow_path_last {t : List StructField} {fldDescs : List (List Char)} {lax : Bool}
    {paths : List (List Nat)} (h : scanRow t fldDescs lax = .ok paths) {j : Nat}
    (hj : j < fldDescs.length) :
    ∃ c, ((candidates [] 0 t).filter fun c => fieldPosByName fldDescs c.2.1 c.2.2 = j).getLast? = some c ∧
      paths[j]? = some c.1 := by
  -- the scan gets the paths the lookup returned
  have hlook : ∃ missing, lookupNamedStructFields t fldDescs = .ok (paths, missing) := by
    unfold scanRow at h
    split at h
    · cases h
    · rename_i fields missing hl
      split at h
      · cases h
      · cases h
        exact ⟨missing, hl⟩
  obtain ⟨missing, hl⟩ := hlook
  simp only [lookupNamedStructFields, computeNamedStructFields_eq_foldl] at hl
  cases hc : checkFields ((candidates [] 0 t).foldl (matchField fldDescs)
      (List.replicate fldDescs.length none, [])).1 fldDescs with
  | error e =>
    rw [hc] at hl
    cases hl
  | ok ps =>
    rw [hc] at hl
    cases hl
    have hok := checkFields_ok _ fldDescs paths
      (by rw [foldl_matchField_length, List.length_replicate]) hc j
    rw [foldl_matchField_slot fldDescs j _ _ [] (by simpa using hj)] at hok
    -- a slot that no field took would have failed the check
    cases hlast : ((candidates [] 0 t).filter
        fun c => fieldPosByName fldDescs c.2.1 c.2.2 = j).getLast? with
    | none =>
      rw [hlast, List.getElem?_replicate_of_lt hj] at hok
      cases hp : paths[j]? <;> simp [hp] at hok
    | some c =>
      rw [hlast] at hok
      refine ⟨c, rfl, ?_⟩
      cases hp : paths[j]? <;> simp_all

/-- Two exported fields tagged `db:"a"`, `A` and `B`, and the one column `a`. -/
def duplicateTagStruct : List StructField :=
  [.mk ['A'] true false (some ['a']) none, .mk ['B'] true false (some ['a']) none]

/-- **Two fields of one column are not reported**: `RowToStructByName` scans column `a` into `B`
and leaves `A` without a value, with no error. -/
theorem rowToStructByName_duplicateTag : scanRow duplicateTagStruct [['a']] false = .ok [[1]] := by
  decide

end Pgx.Rows
