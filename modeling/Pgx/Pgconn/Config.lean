import Pgx.Go.Binary
import Pgx.Go.Strconv
import Pgx.Go.Strings

/-!
# `ParseConfig`: the hosts and ports of a connection string

`ParseConfigWithOptions` merges its settings from the defaults, the environment and the
connection string, a `postgres://` URL or `keyword=value` pairs. It splits the `host` and the
`port` settings at their commas and pairs the `i`-th host with the `i`-th port, or with the first
port when there are fewer ports than hosts; each host then gives one fallback per TLS
configuration, and the first fallback is the config's own host and port.

A URL lists its hosts as `h1[:p1],...,hn[:pn]`. `parseURLSettings` collects the hosts into one
list and the ports that are there into another, so that a host without a port is paired with the
port of a later host: `postgres://a,b:5433/db` connects to `a` on port 5433, where libpq uses the
default port 5432.

* `Settings`, `mergeSettings`, `defaultSettings`;
* `parseURLSettings` over what `url.Parse` returns, `isIPOnly`, and `parseKeywordValueSettings`;
* `parsePort`, `hostFallbacks`, `parseConfigWithOptions`;
* `parseConfigWithOptions_fallbacks`: a config's host and port, then its fallbacks, are the
  fallbacks of the hosts of the merged settings;
* `hostFallbacks_eq`: each host in order, with the port at its index or the first one;
* `parseURLSettings_entries`: the hosts and the ports a URL's host list gives;
* `portFor_urlPorts_of_uniform`: when every host of a URL has a port or none has, each host gets
  its own port or 5432;
* `parseKeywordValueSettings_quotedPairs`: pairs written with quoted, escaped values are read
  back; `parseKeywordValueSettings_trailingBackslash`: a quoted value that ends in a backslash
  makes the parse panic.

Besides the connection string, the parse reads the machine, the environment and the standard
library; `Env` collects them.
-/

namespace Pgx.Pgconn

open Go Go.Strings Go.Net Go.Strconv

/-- A map of settings: the value of each key that is set. -/
abbrev Settings := String → Option (List Char)

namespace Settings

/-- A map with no key set. -/
def empty : Settings := fun _ => none

/-- `settings[k] = v`. -/
def set (s : Settings) (k : String) (v : List Char) : Settings := fun k' => if k' = k then some v else s k'

/-- `settings[k]`: the empty string when `k` is not set. -/
def get (s : Settings) (k : String) : List Char := (s k).getD []

@[simp] theorem empty_apply (k : String) : empty k = none := rfl

@[simp] theorem set_same (s : Settings) (k : String) (v : List Char) : s.set k v k = some v := by
  simp [set]

@[simp] theorem set_other (s : Settings) {k k' : String} (v : List Char) (h : k' ≠ k) :
    s.set k v k' = s k' := by
  simp [set, h]

end Settings

/-- `mergeSettings(settingSets...)`: the value of a key is the one of the last map that sets it. -/
def mergeSettings (settingSets : List Settings) : Settings :=
  settingSets.foldl (fun settings s2 k => (s2 k).or (settings k)) Settings.empty

@[simp] theorem mergeSettings_nil : mergeSettings [] = Settings.empty := rfl

theorem mergeSettings_append_singleton (settingSets : List Settings) (s : Settings) (k : String) :
    mergeSettings (settingSets ++ [s]) k = (s k).or (mergeSettings settingSets k) := by
  simp [mergeSettings, List.foldl_append]

/-- `nameMap`: the key `dbname` stands for `database`. -/
def nameMapKey (k : String) : String := if k = "dbname" then "database" else k

/-- `defaultSettings()`: the host found on the machine, port 5432 and `target_session_attrs` any,
over what it reads of the OS user (the user name, and the paths of the password, service and
certificate files). -/
def defaultSettings (defaultHost : List Char) (osUser : Settings) : Settings :=
  ((osUser.set "host" defaultHost).set "port" "5432".toList).set "target_session_attrs" "any".toList

/-! ## URLs -/

/-- What `parseURLSettings` reads of the URL that `url.Parse` returns. -/
structure URL where
  /-- The user name, and the password when one is given. -/
  user : Option (List Char × Option (List Char))
  host : List Char
  path : List Char
  /-- `Query()`: each key with its first value, in the order the map is ranged over. -/
  query : List (String × List Char)

/-- `isIPOnly(host)`, where `parseIP s` is `net.ParseIP(s) != nil`. -/
def isIPOnly (parseIP : List Char → Bool) (host : List Char) : Bool :=
  parseIP (trim host ['[', ']']) || decide (':' ∉ host)

/-- The loop of `parseURLSettings` over the comma-separated entries of the URL's host: an entry
that is an IP address or has no colon is a host, any other is split at its port, and the host
and the port go to their lists when they are not empty. -/
def urlHostPorts (parseIP : List Char → Bool) :
    List (List Char) → Except String (List (List Char) × List (List Char))
  | [] => .ok ([], [])
  | host :: rest =>
    if host = [] then urlHostPorts parseIP rest
    else if isIPOnly parseIP host then
      (urlHostPorts parseIP rest).map fun (hosts, ports) => (trim host ['[', ']'] :: hosts, ports)
    else
      match splitHostPort host with
      | .error err => .error ("failed to split host:port in '" ++ String.ofList host ++ "', err: " ++ err)
      | .ok (h, p) =>
        (urlHostPorts parseIP rest).map fun (hosts, ports) =>
          ((if h = [] then [] else [h]) ++ hosts, (if p = [] then [] else [p]) ++ ports)

/-- The settings of the user part of a URL. -/
def userSettings : Option (List Char × Option (List Char)) → Settings
  | none => Settings.empty
  | some (name, none) => Settings.empty.set "user" name
  | some (name, some password) => (Settings.empty.set "user" name).set "password" password

theorem userSettings_of_ne {k : String} (hu : k ≠ "user") (hp : k ≠ "password") :
    ∀ user, userSettings user k = none
  | none => rfl
  | some (_, none) => by simp [userSettings, hu]
  | some (_, some _) => by simp [userSettings, hu, hp]

/-- `parseURLSettings(connString)`, where `urlParse` is `url.Parse` with its `url.Error` unwrapped. -/
def parseURLSettings (urlParse : List Char → Except String URL) (parseIP : List Char → Bool)
    (connString : List Char) : Except String Settings :=
  urlParse connString >>= fun u =>
    urlHostPorts parseIP (split u.host ',') >>= fun (hosts, ports) =>
      let settings := userSettings u.user
      let settings := if hosts = [] then settings else settings.set "host" (join hosts ',')
      let settings := if ports = [] then settings else settings.set "port" (join ports ',')
      let database := trimLeft u.path ['/']
      let settings := if database = [] then settings else settings.set "database" database
      .ok (u.query.foldl (fun settings kv => settings.set (nameMapKey kv.1) kv.2) settings)

/-! ## Keyword/value strings -/

/-- The white space of a keyword/value string: `asciiSpace`, and the cutset `" \t\n\r\v\f"`. -/
def asciiSpace : List Char := [' ', '\t', '\n', '\r', '\x0B', '\x0C']

/-- The loop that finds the end of an unquoted value: the first white space, where a backslash
escapes the character after it. -/
def plainValueEnd (s : List Char) (e : Nat) : Except String Nat :=
  if h : e < s.length then
    if s[e] ∈ asciiSpace then .ok e
    else if s[e] = '\\' then
      if e + 1 = s.length then .error "invalid backslash" else plainValueEnd s (e + 2)
    else plainValueEnd s (e + 1)
  else .ok e
termination_by s.length - e

/-- The loop that finds the end of a quoted value: the first quote, where a backslash skips the
character after it, even when it is the last one. -/
def quotedValueEnd (s : List Char) (e : Nat) : Nat :=
  if h : e < s.length then
    if s[e] = '\'' then e
    else if s[e] = '\\' then quotedValueEnd s (e + 2)
    else quotedValueEnd s (e + 1)
  else e
termination_by s.length - e

/-- The two `strings.Replace` calls that undo the escapes of a value. -/
def unescapeValue (v : List Char) : List Char :=
  replace (replace v ['\\', '\\'] ['\\']) ['\\', '\''] ['\'']

/-- One pass of the loop of `parseKeywordValueSettings`: the key, the value, and the rest of the
string. -/
def nextKeywordValue (s : List Char) : GoM (List Char × List Char × List Char) :=
  let eqIdx := index s '='
  if eqIdx < 0 then .error (.error "invalid keyword/value")
  else
    let key := trim (s.take eqIdx.toNat) asciiSpace
    let s := trimLeft (s.drop (eqIdx.toNat + 1)) asciiSpace
    if s = [] then .ok (key, [], [])
    else if s.head? ≠ some '\'' then
      match plainValueEnd s 0 with
      | .error err => .error (.error err)
      | .ok e => .ok (key, unescapeValue (s.take e), if e = s.length then [] else s.drop (e + 1))
    else
      -- a quoted value
      let s := s.drop 1
      let e := quotedValueEnd s 0
      if e = s.length then .error (.error "unterminated quoted string in connection info string")
      else
        slice s 0 e >>= fun v =>
          .ok (key, unescapeValue v, if e = s.length then [] else s.drop (e + 1))

/-- A pass that returns leaves less of the string than it was given. -/
theorem nextKeywordValue_rest_lt {s key val rest : List Char}
    (h : nextKeywordValue s = .ok (key, val, rest)) : rest.length < s.length := by
  unfold nextKeywordValue at h
  dsimp only at h
  have hneg : ¬index s '=' < 0 := by
    intro hn
    rw [if_pos hn] at h
    cases h
  rw [if_neg hneg] at h
  have hmem : '=' ∈ s := by
    by_contra hm
    simp [index, hm] at hneg
  have hlt : (index s '=').toNat < s.length := by
    simp only [index, if_pos hmem, Int.toNat_natCast]
    exact List.idxOf_lt_length_of_mem hmem
  -- what follows the '=' is shorter than the string
  have ht : (trimLeft (s.drop ((index s '=').toNat + 1)) asciiSpace).length < s.length :=
    lt_of_le_of_lt (List.dropWhile_suffix _).length_le (by simp only [List.length_drop]; omega)
  generalize trimLeft (s.drop ((index s '=').toNat + 1)) asciiSpace = t at h ht
  split_ifs at h with hnil hq he
  · cases h
    simp only [List.length_nil]
    omega
  · split at h
    · cases h
    · cases h
      split <;> simp only [List.length_nil, List.length_drop] <;> omega
  · obtain ⟨v, -, hv⟩ := bind_eq_ok h
    cases hv
    simp only [List.length_drop]
    omega

/-- The loop of `parseKeywordValueSettings` over the rest of the string. -/
def parseKeywordValueLoop (settings : Settings) (s : List Char) : GoM Settings :=
  if s = [] then .ok settings
  else
    match _h : nextKeywordValue s with
    | .error f => .error f
    | .ok (key, val, rest) =>
      let key := nameMapKey (String.ofList key)
      if key = "" then .error (.error "invalid keyword/value")
      else parseKeywordValueLoop (settings.set key val) rest
termination_by s.length
decreasing_by exact nextKeywordValue_rest_lt _h

/-- `parseKeywordValueSettings(s)`. -/
def parseKeywordValueSettings (s : List Char) : GoM Settings :=
  parseKeywordValueLoop Settings.empty s

/-! ### Values written back -/

/-- A value as a quoted keyword/value string holds it: a backslash before every backslash and
every quote. -/
def escapeValue (v : List Char) : List Char :=
  v.flatMap fun c => if c = '\\' ∨ c = '\'' then ['\\', c] else [c]

/-- What the first `Replace` leaves of an escaped value: the backslashes undone, the quotes still
escaped. -/
def halfEscaped (v : List Char) : List Char :=
  v.flatMap fun c => if c = '\'' then ['\\', c] else [c]

theorem halfEscaped_head (v : List Char) : (halfEscaped v).head? ≠ some '\'' := by
  cases v with
  | nil => simp [halfEscaped]
  | cons c v => by_cases hc : c = '\'' <;> simp [halfEscaped, hc]

/-- The first `Replace` turns each escaped backslash back into one backslash, and nothing else:
the escapes come in pairs from the front, so no pair it replaces straddles two of them. -/
theorem replace_escapeValue (v : List Char) :
    replace (escapeValue v) ['\\', '\\'] ['\\'] = halfEscaped v := by
  induction v with
  | nil => simp [escapeValue, halfEscaped]
  | cons c v ih =>
    have hesc : ∀ d, d = '\\' ∨ d = '\'' → escapeValue (d :: v) = '\\' :: d :: escapeValue v := by
      intro d hd
      simp [escapeValue, hd]
    by_cases hb : c = '\\'
    · subst hb
      rw [hesc _ (.inl rfl), replace_pair_match, ih]
      simp [halfEscaped]
    · by_cases hq : c = '\''
      · subst hq
        rw [hesc _ (.inr rfl), replace_pair_of_ne_snd (by decide),
          replace_pair_of_ne_fst (by decide), ih]
        simp [halfEscaped]
      · have hplain : escapeValue (c :: v) = c :: escapeValue v := by simp [escapeValue, hb, hq]
        rw [hplain, replace_pair_of_ne_fst hb, ih]
        simp [halfEscaped, hq]

/-- The second `Replace` undoes the escaped quotes: a backslash left by the first one is never
followed by a quote. -/
theorem replace_halfEscaped (v : List Char) : replace (halfEscaped v) ['\\', '\''] ['\''] = v := by
  induction v with
  | nil => simp [halfEscaped]
  | cons c v ih =>
    by_cases hq : c = '\''
    · subst hq
      have : halfEscaped ('\'' :: v) = '\\' :: '\'' :: halfEscaped v := by simp [halfEscaped]
      rw [this, replace_pair_match, ih]
      rfl
    · have hcons : halfEscaped (c :: v) = c :: halfEscaped v := by simp [halfEscaped, hq]
      rw [hcons]
      by_cases hb : c = '\\'
      · subst hb
        -- the next character is no quote
        have hhead := halfEscaped_head v
        rcases hv : halfEscaped v with _ | ⟨d, t⟩
        · rw [replace_pair_single]
          rw [hv] at ih
          simpa using ih.symm
        · rw [hv] at hhead ih
          rw [replace_pair_of_ne_snd (by simpa using hhead), ih]
      · rw [replace_pair_of_ne_fst hb, ih]

theorem unescapeValue_escapeValue (v : List Char) : unescapeValue (escapeValue v) = v := by
  rw [unescapeValue, replace_escapeValue, replace_halfEscaped]

/-- A keyword that reads back as itself: not empty, with no `=` and no white space. -/
def PlainKey (k : List Char) : Prop := k ≠ [] ∧ ∀ c ∈ k, c ≠ '=' ∧ c ∉ asciiSpace

/-- The scan of a quoted value skips each escape pair and stops at the closing quote. -/
theorem quotedValueEnd_escape (rest : List Char) :
    ∀ (v : List Char) {s : List Char} {e : Nat}, s.drop e = escapeValue v ++ '\'' :: rest →
      quotedValueEnd s e = e + (escapeValue v).length
  | [], s, e, h => by
    obtain ⟨he, hq, -⟩ := drop_eq_cons (by simpa [escapeValue] using h)
    rw [quotedValueEnd, dif_pos he, if_pos hq]
    simp [escapeValue]
  | c :: v, s, e, h => by
    by_cases hc : c = '\\' ∨ c = '\''
    · -- an escape pair is skipped whole
      have h' : s.drop e = '\\' :: c :: (escapeValue v ++ '\'' :: rest) := by
        simpa [escapeValue, hc] using h
      obtain ⟨he, h0, h1⟩ := drop_eq_cons h'
      obtain ⟨-, -, h2⟩ := drop_eq_cons h1
      rw [quotedValueEnd, dif_pos he, if_neg (by rw [h0]; decide), if_pos h0,
        quotedValueEnd_escape rest v h2]
      simp [escapeValue, hc]
      omega
    · have h' : s.drop e = c :: (escapeValue v ++ '\'' :: rest) := by simpa [escapeValue, hc] using h
      obtain ⟨he, h0, h1⟩ := drop_eq_cons h'
      rw [not_or] at hc
      rw [quotedValueEnd, dif_pos he, if_neg (by rw [h0]; exact hc.2), if_neg (by rw [h0]; exact hc.1),
        quotedValueEnd_escape rest v h1]
      simp [escapeValue, hc]
      omega

/-- The key of a pass is what stands before the first `=`, trimmed of white space. -/
theorem keyPart {ws k : List Char} (hws : ∀ c ∈ ws, c ∈ asciiSpace) (hk : PlainKey k) (t : List Char) :
    index (ws ++ k ++ '=' :: t) '=' = (ws ++ k).length ∧ trim (ws ++ k) asciiSpace = k := by
  have hnot : '=' ∉ ws ++ k := by
    simp only [List.mem_append, not_or]
    exact ⟨fun hm => by simpa [asciiSpace] using hws _ hm, fun hm => (hk.2 _ hm).1 rfl⟩
  have hidx : (ws ++ k ++ '=' :: t).idxOf '=' = (ws ++ k).length := by
    rw [List.idxOf_append_of_notMem hnot]
    simp
  refine ⟨by rw [index, if_pos (by simp), hidx], ?_⟩
  obtain ⟨c, k', rfl⟩ := List.exists_cons_of_ne_nil hk.1
  have hleft : trimLeft (ws ++ c :: k') asciiSpace = c :: k' := by
    rw [trimLeft, List.dropWhile_append_of_pos (by simpa using hws),
      List.dropWhile_cons_of_neg (by simpa using (hk.2 c List.mem_cons_self).2)]
  rw [trim, hleft, List.rdropWhile_eq_self_iff]
  intro hne
  simpa using (hk.2 _ (List.getLast_mem hne)).2

/-- A pass over `k='v'`, the value escaped, reads `k` and `v` and leaves what follows the closing
quote. -/
theorem nextKeywordValue_quoted {ws k : List Char} (hws : ∀ c ∈ ws, c ∈ asciiSpace) (hk : PlainKey k)
    (v rest : List Char) :
    nextKeywordValue (ws ++ k ++ '=' :: '\'' :: (escapeValue v ++ '\'' :: rest)) = .ok (k, v, rest) := by
  obtain ⟨hidx, hkey⟩ := keyPart hws hk ('\'' :: (escapeValue v ++ '\'' :: rest))
  have hdrop : (ws ++ k ++ '=' :: '\'' :: (escapeValue v ++ '\'' :: rest)).drop ((ws ++ k).length + 1) =
      '\'' :: (escapeValue v ++ '\'' :: rest) := by
    rw [List.append_cons (ws ++ k), List.drop_left' (by simp only [List.length_append,
      List.length_singleton])]
  have htrim : trimLeft ('\'' :: (escapeValue v ++ '\'' :: rest)) asciiSpace =
      '\'' :: (escapeValue v ++ '\'' :: rest) :=
    List.dropWhile_cons_of_neg (by decide)
  have hend : quotedValueEnd (escapeValue v ++ '\'' :: rest) 0 = (escapeValue v).length := by
    rw [quotedValueEnd_escape rest v (List.drop_zero), Nat.zero_add]
  have hslice : slice (escapeValue v ++ '\'' :: rest) 0 (escapeValue v).length = .ok (escapeValue v) := by
    simpa using slice_of_drop (Nat.zero_le _) (List.drop_zero (l := escapeValue v ++ '\'' :: rest))
  unfold nextKeywordValue
  simp only [hidx, Int.toNat_natCast, hdrop, htrim, List.drop_one, List.tail_cons, hend,
    List.head?_cons, ne_eq, not_true_eq_false, if_false, reduceCtorEq]
  rw [List.take_left, hkey, if_neg (by omega), if_neg (by simp), hslice, ok_bind, if_neg (by simp),
    unescapeValue_escapeValue, List.drop_append, List.drop_eq_nil_of_le (by omega), Nat.add_sub_cancel_left]
  rfl

theorem nameMapKey_ne_empty {k : List Char} (hk : k ≠ []) : nameMapKey (String.ofList k) ≠ "" := by
  unfold nameMapKey
  split
  · decide
  · intro h
    exact hk (by simpa using congrArg String.toList h)

/-- A pass over a quoted pair sets its key, and the loop goes on after the closing quote. -/
theorem parseKeywordValueLoop_quoted (settings : Settings) {ws k : List Char}
    (hws : ∀ c ∈ ws, c ∈ asciiSpace) (hk : PlainKey k) (v rest : List Char) :
    parseKeywordValueLoop settings (ws ++ k ++ '=' :: '\'' :: (escapeValue v ++ '\'' :: rest)) =
      parseKeywordValueLoop (settings.set (nameMapKey (String.ofList k)) v) rest := by
  rw [parseKeywordValueLoop, if_neg (by simp)]
  split
  · next f h =>
    rw [nextKeywordValue_quoted hws hk] at h
    cases h
  · next key val rest' h =>
    rw [nextKeywordValue_quoted hws hk] at h
    simp only [Except.ok.injEq, Prod.mk.injEq] at h
    obtain ⟨rfl, rfl, rfl⟩ := h
    rw [if_neg (nameMapKey_ne_empty hk.1)]

/-- Keyword/value pairs as a connection string: each value quoted and escaped, the pairs separated
by spaces. -/
def quotedPairsText (pairs : List (List Char × List Char)) : List Char :=
  join (pairs.map fun kv => kv.1 ++ '=' :: '\'' :: (escapeValue kv.2 ++ ['\''])) ' '

/-- The settings that pairs define: each key set in turn, the last occurrence winning, `dbname`
standing for `database`. -/
def pairsSettings (pairs : List (List Char × List Char)) : Settings :=
  pairs.foldl (fun s kv => s.set (nameMapKey (String.ofList kv.1)) kv.2) Settings.empty

/-- The loop reads quoted pairs one pass each; the induction is on the pairs, with the white
space before the first one left arbitrary. -/
theorem parseKeywordValueLoop_quotedPairs :
    ∀ (pairs : List (List Char × List Char)) (settings : Settings) {ws : List Char},
      (∀ c ∈ ws, c ∈ asciiSpace) → pairs ≠ [] → (∀ kv ∈ pairs, PlainKey kv.1) →
      parseKeywordValueLoop settings (ws ++ quotedPairsText pairs) =
        .ok (pairs.foldl (fun s kv => s.set (nameMapKey (String.ofList kv.1)) kv.2) settings)
  | [], _, _, _, hne, _ => absurd rfl hne
  | [(k, v)], settings, ws, hws, _, hk => by
    have hstep := parseKeywordValueLoop_quoted settings hws (hk _ List.mem_cons_self) v []
    simp only [quotedPairsText, join, List.map_cons, List.map_nil, List.intercalate_singleton,
      List.append_assoc] at hstep ⊢
    rw [hstep, parseKeywordValueLoop, if_pos rfl]
    rfl
  | (k, v) :: kv2 :: ps, settings, ws, hws, _, hk => by
    have hstep := parseKeywordValueLoop_quoted settings hws (hk _ List.mem_cons_self) v
      (' ' :: quotedPairsText (kv2 :: ps))
    have hrest := parseKeywordValueLoop_quotedPairs (kv2 :: ps)
      (settings.set (nameMapKey (String.ofList k)) v) (show ∀ c ∈ [' '], c ∈ asciiSpace by simp [asciiSpace])
      (List.cons_ne_nil _ _) (fun kv hm => hk kv (List.mem_cons_of_mem _ hm))
    simp only [quotedPairsText, join, List.map_cons, List.intercalate_cons_cons,
      List.append_assoc, List.cons_append, List.nil_append] at hstep hrest ⊢
    rw [hstep, hrest]
    rfl

/-- Pairs written with their values quoted and escaped are read back: every key with the value of
its last occurrence. -/
theorem parseKeywordValueSettings_quotedPairs (pairs : List (List Char × List Char))
    (hk : ∀ kv ∈ pairs, PlainKey kv.1) :
    parseKeywordValueSettings (quotedPairsText pairs) = .ok (pairsSettings pairs) := by
  rcases pairs with _ | ⟨kv, ps⟩
  · rw [parseKeywordValueSettings, quotedPairsText, List.map_nil, join, List.intercalate_nil,
      parseKeywordValueLoop, if_pos rfl]
    rfl
  · exact parseKeywordValueLoop_quotedPairs (kv :: ps) Settings.empty
      (show ∀ c ∈ ([] : List Char), c ∈ asciiSpace by simp) (List.cons_ne_nil _ _) hk

/-! ### Where the grammar of libpq is not followed -/

theorem parseKeywordValueLoop_error (settings : Settings) {s : List Char} {f : Fault} (hs : s ≠ [])
    (h : nextKeywordValue s = .error f) : parseKeywordValueLoop settings s = .error f := by
  rw [parseKeywordValueLoop, if_neg hs]
  split
  · next f' h' =>
    rw [h] at h'
    cases h'
    rfl
  · next h' =>
    rw [h] at h'
    cases h'

/-- The scan of a quoted value passes over characters that are neither a quote nor a backslash. -/
theorem quotedValueEnd_plain {s : List Char} :
    ∀ (v : List Char) {e : Nat} {t : List Char}, (∀ c ∈ v, c ≠ '\'' ∧ c ≠ '\\') → s.drop e = v ++ t →
      quotedValueEnd s e = quotedValueEnd s (e + v.length)
  | [], _, _, _, _ => rfl
  | c :: v, e, t, hv, h => by
    obtain ⟨he, h0, h1⟩ := drop_eq_cons (by simpa using h)
    have hc := hv c List.mem_cons_self
    rw [quotedValueEnd, dif_pos he, if_neg (by rw [h0]; exact hc.1), if_neg (by rw [h0]; exact hc.2),
      quotedValueEnd_plain v (fun c' hm => hv c' (List.mem_cons_of_mem _ hm)) h1]
    congr 1
    simp only [List.length_cons]
    omega

/-- A quoted value whose last character is a backslash: the scan skips past the end of the
string, the check for a missing quote compares for equality only, and cutting the value out of
the string then panics. -/
theorem parseKeywordValueSettings_trailingBackslash {k v : List Char} (hk : '=' ∉ k)
    (hv : ∀ c ∈ v, c ≠ '\'' ∧ c ≠ '\\') :
    parseKeywordValueSettings (k ++ '=' :: '\'' :: (v ++ ['\\'])) = .error (.panic "slice bounds out of range") := by
  have hidx : index (k ++ '=' :: '\'' :: (v ++ ['\\'])) '=' = k.length := by
    rw [index, if_pos (by simp), List.idxOf_append_of_notMem hk]
    simp
  have hdrop : (k ++ '=' :: '\'' :: (v ++ ['\\'])).drop (k.length + 1) = '\'' :: (v ++ ['\\']) := by
    rw [List.append_cons k, List.drop_left' (by simp)]
  have htrim : trimLeft ('\'' :: (v ++ ['\\'])) asciiSpace = '\'' :: (v ++ ['\\']) :=
    List.dropWhile_cons_of_neg (by decide)
  -- the scan stops two past the backslash, one past the end
  have hend : quotedValueEnd (v ++ ['\\']) 0 = v.length + 2 := by
    have hb : (v ++ ['\\']).drop v.length = ['\\'] := by simp
    obtain ⟨hlt, h0, -⟩ := drop_eq_cons hb
    rw [quotedValueEnd_plain v hv (List.drop_zero (l := v ++ ['\\'])), Nat.zero_add, quotedValueEnd,
      dif_pos hlt, if_neg (by rw [h0]; decide), if_pos h0, quotedValueEnd, dif_neg (by simp)]
  have hslice : slice (v ++ ['\\']) 0 (v.length + 2 : Nat) = .error (.panic "slice bounds out of range") := by
    unfold slice
    rw [if_neg (by simp)]
  have hnext : nextKeywordValue (k ++ '=' :: '\'' :: (v ++ ['\\'])) =
      .error (.panic "slice bounds out of range") := by
    unfold nextKeywordValue
    simp only [hidx, Int.toNat_natCast, hdrop, htrim, List.drop_one, List.tail_cons, hend,
      List.head?_cons, ne_eq, not_true_eq_false, if_false, reduceCtorEq]
    rw [if_neg (by omega), if_neg (by simp), if_neg (by simp), hslice]
    rfl
  exact parseKeywordValueLoop_error _ (by simp) hnext

/-- An unquoted value `\c`: the backslash is kept, where libpq reads `c`. -/
theorem parseKeywordValueSettings_plainEscape {k : List Char} (hk : PlainKey k) {c : Char}
    (hb : c ≠ '\\') (hq : c ≠ '\'') :
    parseKeywordValueSettings (k ++ '=' :: '\\' :: [c]) =
      .ok (Settings.empty.set (nameMapKey (String.ofList k)) ['\\', c]) := by
  obtain ⟨hidx, hkey⟩ := keyPart (show ∀ c ∈ ([] : List Char), c ∈ asciiSpace by simp) hk ['\\', c]
  have hdrop : (k ++ '=' :: '\\' :: [c]).drop (k.length + 1) = ['\\', c] := by
    rw [List.append_cons k, List.drop_left' (by simp)]
  have htrim : trimLeft ['\\', c] asciiSpace = ['\\', c] := List.dropWhile_cons_of_neg (by decide)
  have hend : plainValueEnd ['\\', c] 0 = .ok 2 := by
    rw [plainValueEnd, dif_pos (by simp)]
    simp only [List.getElem_cons_zero]
    rw [if_neg (by simp [asciiSpace]), if_pos trivial, if_neg (by simp), plainValueEnd, dif_neg (by simp)]
  have hval : unescapeValue ['\\', c] = ['\\', c] := by
    rw [unescapeValue, replace_pair_of_ne_snd hb, replace_pair_of_ne_fst hb, replace_nil,
      replace_pair_of_ne_snd hq, replace_pair_of_ne_fst hb, replace_nil]
  have hnext : nextKeywordValue (k ++ '=' :: '\\' :: [c]) = .ok (k, ['\\', c], []) := by
    unfold nextKeywordValue
    simp only [List.nil_append] at hidx hkey
    simp only [hidx, Int.toNat_natCast, hdrop, htrim, List.take_left, hkey, hend]
    rw [if_neg (by omega), if_neg (by simp), if_pos (by simp)]
    simp [hval]
  rw [parseKeywordValueSettings, parseKeywordValueLoop, if_neg (by simp)]
  split
  · next f h =>
    rw [hnext] at h
    cases h
  · next key val rest h =>
    rw [hnext] at h
    simp only [Except.ok.injEq, Prod.mk.injEq] at h
    obtain ⟨rfl, rfl, rfl⟩ := h
    rw [if_neg (nameMapKey_ne_empty hk.1), parseKeywordValueLoop, if_pos rfl]

/-- `a='\` makes the parse panic, where libpq reports an unterminated quoted string; and `a=\x`
sets `a` to the two characters `\x`, where libpq reads the escaped `x`. -/
theorem parseKeywordValueSettings_notLibpq :
    parseKeywordValueSettings "a='\\".toList = .error (.panic "slice bounds out of range") ∧
      (parseKeywordValueSettings "a=\\x".toList).map (· "a") = .ok (some ['\\', 'x']) := by
  have hkey : PlainKey ['a'] := ⟨List.cons_ne_nil _ _, by simp [asciiSpace]⟩
  constructor
  · rw [show "a='\\".toList = ['a'] ++ '=' :: '\'' :: ([] ++ ['\\']) by decide]
    exact parseKeywordValueSettings_trailingBackslash (by decide) (by simp)
  · rw [show "a=\\x".toList = ['a'] ++ '=' :: '\\' :: ['x'] by decide,
      parseKeywordValueSettings_plainEscape hkey (by decide) (by decide)]
    have hname : nameMapKey (String.ofList ['a']) = "a" := by decide
    simp [Except.map, hname]

/-! ## Hosts, ports and the config -/

/-- `parsePort(s)`: a decimal number from 1 to 65535. -/
def parsePort (s : List Char) : Except String UInt16 :=
  match parseUint s 10 16 with
  | (_, some err) => .error err.error
  | (port, none) => if port < 1 ∨ port > 65535 then .error "outside range" else .ok (UInt16.ofNat port)

example : parsePort "5433".toList = .ok 5433 := by decide
example : parsePort "70000".toList =
    .error "strconv.ParseUint: parsing \"70000\": value out of range" := by decide

/-- `parseConnectTimeoutSetting(s)`: a number of seconds that is not negative. -/
def parseConnectTimeoutSetting (s : List Char) : Except String Int :=
  match parseInt s 10 64 with
  | (_, some err) => .error err.error
  | (timeout, none) => if timeout < 0 then .error "negative timeout" else .ok timeout

/-- What a config checks a new connection against: the non-trivial values of
`target_session_attrs`. -/
inductive TargetSessionAttrs
  | readWrite
  | readOnly
  | primary
  | standby
  | preferStandby
  deriving DecidableEq, Repr

/-- The switch on `target_session_attrs`: the `ValidateConnect` it picks, none for `any`. -/
def validateConnectFor (tsa : List Char) : Except String (Option TargetSessionAttrs) :=
  if tsa = "read-write".toList then .ok (some .readWrite)
  else if tsa = "read-only".toList then .ok (some .readOnly)
  else if tsa = "primary".toList then .ok (some .primary)
  else if tsa = "standby".toList then .ok (some .standby)
  else if tsa = "prefer-standby".toList then .ok (some .preferStandby)
  else if tsa = "any".toList then .ok none
  else .error ("unknown target_session_attrs value: " ++ String.ofList tsa)

/-- `isAbsolutePath(path)`: a Unix path, or a Windows path that starts with a drive letter. -/
def isAbsolutePath (path : List Char) : Bool :=
  path.head? = some '/' ||
    match path with
    | drive :: ':' :: '\\' :: _ => decide ('A' ≤ drive ∧ drive ≤ 'Z')
    | _ => false

/-- A host to connect to, with its port and its TLS configuration (none: no TLS). -/
structure FallbackConfig (TLS : Type) where
  host : List Char
  port : UInt16
  tlsConfig : Option TLS

section Hosts

variable {TLS : Type} (configTLS : Settings → List Char → Except String (List (Option TLS)))

/-- The TLS configurations of one host: none alone for a Unix socket (`NetworkAddress(host, port)`
is `unix` exactly for an absolute path), else those of `configTLS(settings, host, options)`. -/
def hostTLSConfigs (settings : Settings) (host : List Char) : Except String (List (Option TLS)) :=
  if isAbsolutePath host then .ok [none] else configTLS settings host

/-- The port of the `i`-th host: `ports[i]`, or `ports[0]` past the end of the ports. -/
def portFor (ports : List (List Char)) (i : Nat) : List Char :=
  if i < ports.length then ports.getD i [] else ports.getD 0 []

/-- The loop of `ParseConfigWithOptions` over the hosts from the `i`-th on: their fallbacks, or the
message and the error of the `ParseConfigError` it returns. -/
def hostFallbacks (settings : Settings) (ports : List (List Char)) :
    Nat → List (List Char) → Except (String × String) (List (FallbackConfig TLS))
  | _, [] => .ok []
  | i, host :: hosts =>
    match parsePort (portFor ports i) with
    | .error err => .error ("invalid port", err)
    | .ok port =>
      match hostTLSConfigs configTLS settings host with
      | .error err => .error ("failed to configure TLS", err)
      | .ok tlsConfigs =>
        (hostFallbacks settings ports (i + 1) hosts).map fun fallbacks =>
          tlsConfigs.map (FallbackConfig.mk host port) ++ fallbacks

end Hosts

/-- `*ParseConfigError`: the connection string, a message and the error under it. -/
structure ParseConfigError where
  connString : List Char
  msg : String
  err : Option String
  deriving DecidableEq, Repr

/-- How `ParseConfigWithOptions` ends when it returns no config: with a `ParseConfigError`, or by
panicking. -/
inductive ConfigFault
  | error (e : ParseConfigError)
  | panic (msg : String)
  deriving DecidableEq, Repr

/-- The part of `*Config` that `ParseConfigWithOptions` computes from the settings: the first
target, the fallbacks after it, and what it checks on the way. -/
structure Config (TLS : Type) where
  host : List Char
  port : UInt16
  database : List Char
  user : List Char
  tlsConfig : Option TLS
  /-- `ConnectTimeout`, in seconds; 0 when `connect_timeout` is not set. -/
  connectTimeout : Int
  fallbacks : List (FallbackConfig TLS)
  validateConnect : Option TargetSessionAttrs

/-- What `ParseConfigWithOptions` reads besides the connection string: the machine, the
environment, the standard library, and `configTLS`. -/
structure Env (TLS : Type) where
  /-- `defaultHost()`: the first Unix socket directory that exists, else `localhost`. -/
  defaultHost : List Char
  /-- What `defaultSettings()` reads of the OS user. -/
  osUser : Settings
  /-- `parseEnvSettings()`: the `PG*` environment variables that are set. -/
  envSettings : Settings
  /-- `url.Parse`, with a `url.Error` unwrapped. -/
  urlParse : List Char → Except String URL
  /-- `net.ParseIP(s) != nil`. -/
  parseIP : List Char → Bool
  /-- `parseServiceSettings(servicefile, service)`. -/
  parseServiceSettings : List Char → List Char → Except String Settings
  /-- `configTLS(settings, host, options)`. -/
  configTLS : Settings → List Char → Except String (List (Option TLS))

section Parse

variable {TLS : Type} (e : Env TLS) (connString : List Char)

/-- The settings the connection string sets: parsed as a URL when it starts with `postgres://` or
`postgresql://`, else as keyword/value pairs. -/
def connStringSettings : Except ConfigFault Settings :=
  if connString = [] then .ok Settings.empty
  else if "postgres://".toList.isPrefixOf connString || "postgresql://".toList.isPrefixOf connString then
    match parseURLSettings e.urlParse e.parseIP connString with
    | .error err => .error (.error ⟨connString, "failed to parse as URL", some err⟩)
    | .ok settings => .ok settings
  else
    match parseKeywordValueSettings connString with
    | .error (.error err) => .error (.error ⟨connString, "failed to parse as keyword/value", some err⟩)
    | .error (.panic msg) => .error (.panic msg)
    | .ok settings => .ok settings

/-- The defaults, the environment and the connection string merged, and the service's settings
merged under the connection string's when a service is named. -/
def mergedSettings (connStringSettings : Settings) : Except ConfigFault Settings :=
  let defaults := defaultSettings e.defaultHost e.osUser
  let settings := mergeSettings [defaults, e.envSettings, connStringSettings]
  match settings "service" with
  | none => .ok settings
  | some service =>
    match e.parseServiceSettings (settings.get "servicefile") service with
    | .error err => .error (.error ⟨connString, "failed to read service", some err⟩)
    | .ok serviceSettings => .ok (mergeSettings [defaults, e.envSettings, serviceSettings, connStringSettings])

/-- `ParseConfigWithOptions(connString, options)`. -/
def parseConfigWithOptions : Except ConfigFault (Config TLS) :=
  connStringSettings e connString >>= mergedSettings e connString >>= fun settings =>
    (match settings "connect_timeout" with
      | none => .ok 0
      | some s => (parseConnectTimeoutSetting s).mapError fun err =>
          .error ⟨connString, "invalid connect_timeout", some err⟩) >>= fun connectTimeout =>
    ((hostFallbacks e.configTLS settings (split (settings.get "port") ',') 0
        (split (settings.get "host") ',')).mapError fun (msg, err) =>
          ConfigFault.error ⟨connString, msg, some err⟩) >>= fun fallbacks =>
    match fallbacks with
    | [] => .error (.panic "index out of range")
    | first :: rest =>
      (validateConnectFor (settings.get "target_session_attrs")).mapError
          (fun msg => ConfigFault.error ⟨connString, msg, none⟩) >>= fun validateConnect =>
        .ok ⟨first.host, first.port, settings.get "database", settings.get "user", first.tlsConfig,
          connectTimeout, rest, validateConnect⟩

end Parse

/-- The first target, then the fallbacks: the hosts a connection tries in turn. -/
def Config.allFallbacks {TLS : Type} (c : Config TLS) : List (FallbackConfig TLS) :=
  ⟨c.host, c.port, c.tlsConfig⟩ :: c.fallbacks

/-- The host and the port of each target. -/
def Config.targets {TLS : Type} (c : Config TLS) : List (List Char × UInt16) :=
  c.allFallbacks.map fun f => (f.host, f.port)

/-! ## The pairing of hosts and ports -/

section Pairing

variable {TLS : Type} (configTLS : Settings → List Char → Except String (List (Option TLS)))

/-- The loop gives each host, in order, the port at its index, and one fallback per TLS
configuration of the host. -/
theorem hostFallbacks_eq (settings : Settings) (ports : List (List Char)) {port : Nat → UInt16}
    {tls : List Char → List (Option TLS)} :
    ∀ (hosts : List (List Char)) (i : Nat),
      (∀ j < hosts.length, parsePort (portFor ports (i + j)) = .ok (port (i + j))) →
      (∀ h ∈ hosts, hostTLSConfigs configTLS settings h = .ok (tls h)) →
      hostFallbacks configTLS settings ports i hosts =
        .ok (hosts.mapIdx fun j h => (tls h).map (FallbackConfig.mk h (port (i + j)))).flatten
  | [], _, _, _ => rfl
  | h :: hosts, i, hp, ht => by
    have hp0 : parsePort (portFor ports i) = .ok (port i) := by simpa using hp 0 (by simp)
    have ih := hostFallbacks_eq settings ports hosts (i + 1)
      (fun j hj => by
        have := hp (j + 1) (by simp only [List.length_cons]; omega)
        rwa [← Nat.add_assoc, Nat.add_right_comm] at this)
      (fun h' hh' => ht h' (List.mem_cons_of_mem _ hh'))
    rw [hostFallbacks, hp0]
    simp only [ht h List.mem_cons_self, ih, Except.map, List.mapIdx_cons, List.flatten_cons,
      Nat.add_zero, ← Nat.add_assoc, Nat.add_right_comm i _ 1]

end Pairing

/-! ## The host list of a URL -/

/-- An entry `h` or `h:p` of a URL's host list. -/
def entryText (en : List Char × Option (List Char)) : List Char :=
  match en.2 with
  | none => en.1
  | some p => en.1 ++ ':' :: p

/-- A host or a port of a URL's host list: not empty, with no comma, colon or bracket. -/
def PlainAddr (s : List Char) : Prop := s ≠ [] ∧ ∀ c ∈ s, c ∉ [',', ':', '[', ']']

/-- Entries of a URL's host list: plain hosts, each with a plain port or none. -/
def PlainEntries (es : List (List Char × Option (List Char))) : Prop :=
  ∀ en ∈ es, PlainAddr en.1 ∧ ∀ p ∈ en.2, PlainAddr p

/-- What `net.ParseIP` does with colons: an IPv4 address has none, and an IPv6 address at least
two. -/
def OneColonNoIP (parseIP : List Char → Bool) : Prop :=
  ∀ s : List Char, s.count ':' = 1 → parseIP s = false

theorem PlainAddr.addrChars {s : List Char} (h : PlainAddr s) : ∀ c ∈ s, c ∉ [':', '[', ']'] :=
  fun c hc hm => h.2 c hc (by simp only [List.mem_cons] at hm ⊢; tauto)

theorem PlainAddr.not_mem {s : List Char} (h : PlainAddr s) {c : Char} (hc : c ∈ [',', ':', '[', ']']) :
    c ∉ s :=
  fun hm => h.2 c hm hc

theorem PlainEntries.tail {en : List Char × Option (List Char)} {es : List (List Char × Option (List Char))}
    (h : PlainEntries (en :: es)) : PlainEntries es :=
  fun en' hm => h en' (List.mem_cons_of_mem _ hm)

theorem PlainEntries.text_no_comma {es : List (List Char × Option (List Char))} (h : PlainEntries es) :
    ∀ l ∈ es.map entryText, ',' ∉ l := by
  simp only [List.mem_map]
  rintro _ ⟨⟨host, port⟩, hm, rfl⟩
  obtain ⟨hh, hp⟩ := h _ hm
  cases port with
  | none => exact hh.not_mem (by simp)
  | some p => simpa [entryText] using ⟨hh.not_mem (by simp), (hp p rfl).not_mem (by simp)⟩

/-- The loop over a URL's host list collects the hosts in order, and the ports that are given. -/
theorem urlHostPorts_entries {parseIP : List Char → Bool} (hip : OneColonNoIP parseIP) :
    ∀ {es : List (List Char × Option (List Char))}, PlainEntries es →
      urlHostPorts parseIP (es.map entryText) = .ok (es.map Prod.fst, es.filterMap Prod.snd)
  | [], _ => rfl
  | (h, none) :: es, hes => by
    obtain ⟨hh, -⟩ := hes _ List.mem_cons_self
    have hip' : isIPOnly parseIP h = true := by simp [isIPOnly, hh.not_mem (c := ':') (by simp)]
    have htrim : trim h ['[', ']'] = h :=
      trim_of_forall_not_mem fun c hc hm => hh.addrChars c hc (by simp at hm ⊢; tauto)
    simp only [List.map_cons, entryText, urlHostPorts, if_neg hh.1, hip', if_true,
      urlHostPorts_entries hip hes.tail, Except.map, List.filterMap_cons, htrim]
  | (h, some p) :: es, hes => by
    obtain ⟨hh, hp⟩ := hes _ List.mem_cons_self
    have hp := hp p rfl
    have hcount : (h ++ ':' :: p).count ':' = 1 := by
      simp [List.count_append, List.count_eq_zero.mpr (hh.not_mem (c := ':') (by simp)),
        List.count_eq_zero.mpr (hp.not_mem (c := ':') (by simp))]
    have hip' : isIPOnly parseIP (h ++ ':' :: p) = false := by
      rw [isIPOnly, trim_of_forall_not_mem, hip _ hcount]
      · simp
      · intro c hc hm
        simp only [List.mem_append, List.mem_cons] at hc
        rcases hc with hc | rfl | hc
        · exact hh.addrChars c hc (by simp_all)
        · simp at hm
        · exact hp.addrChars c hc (by simp_all)
    simp only [List.map_cons, entryText, urlHostPorts, List.append_ne_nil_of_right_ne_nil _ (List.cons_ne_nil _ _),
      if_false, hip', Bool.false_eq_true, splitHostPort_of_plain hh.addrChars hp.addrChars,
      urlHostPorts_entries hip hes.tail, Except.map, if_neg hh.1, if_neg hp.1, List.filterMap_cons]
    rfl

/-- The keys that decide the targets of a config, or make its parse fail. -/
def targetKeys : List String := ["host", "port", "service", "connect_timeout", "target_session_attrs"]

/-- The ports a URL's host list leaves in the settings: those it gives, else the default port. -/
def urlPorts (es : List (List Char × Option (List Char))) : List (List Char) :=
  if es.filterMap Prod.snd = [] then ["5432".toList] else es.filterMap Prod.snd

/-- The query of a URL leaves alone the keys it does not name. -/
theorem query_foldl_of_not_key {k : String} (hk : k ≠ "database") :
    ∀ {q : List (String × List Char)} (s : Settings), (∀ kv ∈ q, kv.1 ≠ k) →
      (q.foldl (fun settings kv => settings.set (nameMapKey kv.1) kv.2) s) k = s k
  | [], _, _ => rfl
  | kv :: q, s, hq => by
    have hkv : nameMapKey kv.1 ≠ k := by
      unfold nameMapKey
      split
      · exact Ne.symm hk
      · exact hq kv List.mem_cons_self
    rw [List.foldl_cons, query_foldl_of_not_key hk _ (fun kv' hm => hq kv' (List.mem_cons_of_mem _ hm)),
      Settings.set_other _ _ (Ne.symm hkv)]

/-- The settings of a URL whose host list is plain: its hosts in order, and its ports, or none. -/
theorem parseURLSettings_entries {urlParse : List Char → Except String URL} {parseIP : List Char → Bool}
    (hip : OneColonNoIP parseIP) {connString : List Char} {u : URL} (hurl : urlParse connString = .ok u)
    {es : List (List Char × Option (List Char))} (hne : es ≠ []) (hes : PlainEntries es)
    (hhost : u.host = join (es.map entryText) ',') (hq : ∀ kv ∈ u.query, kv.1 ∉ targetKeys) :
    ∃ s, parseURLSettings urlParse parseIP connString = .ok s ∧
      s "host" = some (join (es.map Prod.fst) ',') ∧
      (s "port").getD "5432".toList = join (urlPorts es) ',' ∧
      ∀ k ∈ ["service", "connect_timeout", "target_session_attrs"], s k = none := by
  have hsplit : split u.host ',' = es.map entryText := by
    rw [hhost]
    exact split_join hes.text_no_comma (by simpa using hne)
  have hmap : es.map Prod.fst ≠ [] := by simpa using hne
  -- a key the query does not name keeps the value the host list gave it
  have hkey : ∀ k ∈ targetKeys, ∀ kv ∈ u.query, kv.1 ≠ k := fun k hk kv hm hkv => hq kv hm (hkv ▸ hk)
  simp only [parseURLSettings, hurl, ok_bind, hsplit, urlHostPorts_entries hip hes, if_neg hmap]
  refine ⟨_, rfl, ?_, ?_, ?_⟩
  · rw [query_foldl_of_not_key (by decide) _ (hkey "host" (by simp [targetKeys]))]
    split_ifs <;> simp
  · rw [query_foldl_of_not_key (by decide) _ (hkey "port" (by simp [targetKeys]))]
    unfold urlPorts
    split_ifs <;> simp_all [userSettings_of_ne, join]
  · intro k hk
    simp only [List.mem_cons, List.not_mem_nil, or_false] at hk
    rw [query_foldl_of_not_key (by rcases hk with rfl | rfl | rfl <;> decide) _
      (hkey k (by simp only [targetKeys, List.mem_cons]; tauto))]
    have hu := userSettings_of_ne (k := k) (by rcases hk with rfl | rfl | rfl <;> decide)
      (by rcases hk with rfl | rfl | rfl <;> decide) u.user
    rcases hk with rfl | rfl | rfl <;> split_ifs <;> simp [hu]

/-! ## From the connection string to the targets -/

theorem mergeSettings_three (a b c : Settings) (k : String) :
    mergeSettings [a, b, c] k = (c k).or ((b k).or (a k)) := by
  simp [mergeSettings]

/-- An environment that sets none of the target keys, neither in the `PG*` variables nor in the
OS user's defaults. -/
def Env.Quiet {TLS : Type} (e : Env TLS) : Prop :=
  ∀ k ∈ targetKeys, e.envSettings k = none ∧ e.osUser k = none

section Targets

variable {TLS : Type} {e : Env TLS}

/-- The merged settings of a quiet environment at a key the connection string leaves unset: the
default. -/
theorem merged_of_quiet (hq : e.Quiet) (s : Settings) (k : String) (hk : k ∈ targetKeys) :
    mergeSettings [defaultSettings e.defaultHost e.osUser, e.envSettings, s] k =
      (s k).or (defaultSettings e.defaultHost e.osUser k) := by
  rw [mergeSettings_three, (hq k hk).1, Option.none_or]

/-- Where the connection string sets no service, timeout or session attributes, a parse that
finds fallbacks for the hosts of the merged settings returns them as its targets. -/
theorem parseConfigWithOptions_allFallbacks (hq : e.Quiet) {connString : List Char} {s : Settings}
    (hcs : connStringSettings e connString = .ok s)
    (hs : ∀ k ∈ ["service", "connect_timeout", "target_session_attrs"], s k = none)
    {f : FallbackConfig TLS} {fs : List (FallbackConfig TLS)}
    (hf : hostFallbacks e.configTLS (mergeSettings [defaultSettings e.defaultHost e.osUser, e.envSettings, s])
      (split ((s "port").getD "5432".toList) ',') 0 (split ((s "host").getD e.defaultHost) ',') =
        .ok (f :: fs)) :
    (parseConfigWithOptions e connString).map Config.allFallbacks = .ok (f :: fs) := by
  have hmerged := merged_of_quiet hq s
  have hsvc : mergeSettings [defaultSettings e.defaultHost e.osUser, e.envSettings, s] "service" = none := by
    rw [hmerged "service" (by simp [targetKeys]), hs _ (by simp)]
    simpa [defaultSettings] using (hq "service" (by simp [targetKeys])).2
  have hct : mergeSettings [defaultSettings e.defaultHost e.osUser, e.envSettings, s] "connect_timeout" =
      none := by
    rw [hmerged "connect_timeout" (by simp [targetKeys]), hs _ (by simp)]
    simpa [defaultSettings] using (hq "connect_timeout" (by simp [targetKeys])).2
  have htsa : (mergeSettings [defaultSettings e.defaultHost e.osUser, e.envSettings, s]).get
      "target_session_attrs" = "any".toList := by
    rw [Settings.get, hmerged "target_session_attrs" (by simp [targetKeys]), hs _ (by simp)]
    simp [defaultSettings]
  have hhost : (mergeSettings [defaultSettings e.defaultHost e.osUser, e.envSettings, s]).get "host" =
      (s "host").getD e.defaultHost := by
    rw [Settings.get, hmerged "host" (by simp [targetKeys])]
    cases s "host" <;> simp [defaultSettings]
  have hport : (mergeSettings [defaultSettings e.defaultHost e.osUser, e.envSettings, s]).get "port" =
      (s "port").getD "5432".toList := by
    rw [Settings.get, hmerged "port" (by simp [targetKeys])]
    cases s "port" <;> simp [defaultSettings]
  unfold parseConfigWithOptions mergedSettings
  simp only [hcs, ok_bind, hsvc, hct, hhost, hport, hf, htsa]
  rfl

/-- Whatever the connection string, a config's first target and its fallbacks are what the loop
over the hosts of the merged settings gives, each host paired by `portFor`. -/
theorem parseConfigWithOptions_fallbacks {connString : List Char} {cfg : Config TLS}
    (h : parseConfigWithOptions e connString = .ok cfg) :
    ∃ settings : Settings, hostFallbacks e.configTLS settings (split (settings.get "port") ',') 0
      (split (settings.get "host") ',') = .ok cfg.allFallbacks := by
  unfold parseConfigWithOptions at h
  obtain ⟨settings, -, h⟩ := bind_eq_ok h
  obtain ⟨connectTimeout, -, h⟩ := bind_eq_ok h
  obtain ⟨fallbacks, hf, h⟩ := bind_eq_ok h
  refine ⟨settings, ?_⟩
  -- the loop returned, so the error-mapped call returned the same fallbacks
  have hf' : hostFallbacks e.configTLS settings (split (settings.get "port") ',') 0
      (split (settings.get "host") ',') = .ok fallbacks := by
    revert hf
    cases hostFallbacks e.configTLS settings (split (settings.get "port") ',') 0
      (split (settings.get "host") ',') <;> simp [Except.mapError]
  rw [hf']
  cases fallbacks with
  | nil => cases h
  | cons first rest =>
    obtain ⟨validateConnect, -, h⟩ := bind_eq_ok h
    cases h
    rfl

/-- A connection string that starts with `postgres://` has the settings of its URL. -/
theorem connStringSettings_url {connString : List Char} {s : Settings}
    (hpre : "postgres://".toList.isPrefixOf connString = true)
    (h : parseURLSettings e.urlParse e.parseIP connString = .ok s) : connStringSettings e connString = .ok s := by
  have hne : connString ≠ [] := by
    rintro rfl
    simp at hpre
  unfold connStringSettings
  rw [if_neg hne, if_pos (by rw [hpre, Bool.true_or]), h]

/-- The hosts of a plain URL host list, and the ports it gives or the default port, are what
ParseConfig splits back out of the settings. -/
theorem parseConfigWithOptions_url (hq : e.Quiet) (hip : OneColonNoIP e.parseIP) {connString : List Char}
    {u : URL} (hpre : "postgres://".toList.isPrefixOf connString = true)
    (hurl : e.urlParse connString = .ok u) {es : List (List Char × Option (List Char))} (hne : es ≠ [])
    (hes : PlainEntries es) (hhost : u.host = join (es.map entryText) ',')
    (hqk : ∀ kv ∈ u.query, kv.1 ∉ targetKeys) {port : Nat → UInt16}
    (hport : ∀ i < es.length, parsePort (portFor (urlPorts es) i) = .ok (port i))
    {tls : List Char → List (Option TLS)}
    (htls : ∀ settings, ∀ h ∈ es.map Prod.fst, hostTLSConfigs e.configTLS settings h = .ok (tls h))
    (hfirst : tls (es.head hne).1 ≠ []) :
    (parseConfigWithOptions e connString).map Config.allFallbacks =
      .ok ((es.map Prod.fst).mapIdx fun i h => (tls h).map (FallbackConfig.mk h (port i))).flatten := by
  obtain ⟨s, hs, hhostS, hportS, hkeys⟩ := parseURLSettings_entries hip hurl hne hes hhost hqk
  -- the host and the port settings split back into the hosts and the ports
  have hhosts : split ((s "host").getD e.defaultHost) ',' = es.map Prod.fst := by
    rw [hhostS, Option.getD_some]
    refine split_join ?_ (by simpa using hne)
    simp only [List.mem_map]
    rintro _ ⟨en, hm, rfl⟩
    exact (hes en hm).1.not_mem (by simp)
  have hports : split ((s "port").getD "5432".toList) ',' = urlPorts es := by
    rw [hportS]
    refine split_join ?_ (by unfold urlPorts; split_ifs <;> simp_all)
    intro l hl
    unfold urlPorts at hl
    split_ifs at hl
    · simp_all
    · obtain ⟨en, hm, hl⟩ := List.mem_filterMap.mp hl
      exact (hes en hm).2 l hl |>.not_mem (by simp)
  -- every host has its port and its TLS configurations
  have hloop := hostFallbacks_eq e.configTLS (mergeSettings [defaultSettings e.defaultHost e.osUser,
      e.envSettings, s]) (urlPorts es) (es.map Prod.fst) 0
    (fun j hj => by simpa using hport j (by simpa using hj))
    (fun h hm => htls _ h hm)
  simp only [Nat.zero_add] at hloop
  obtain ⟨en, es', rfl⟩ := List.exists_cons_of_ne_nil hne
  obtain ⟨f, fs, hffs⟩ := List.exists_cons_of_ne_nil hfirst
  rw [List.map_cons, List.mapIdx_cons, List.flatten_cons] at hloop ⊢
  simp only [List.head_cons] at hffs
  rw [hffs, List.map_cons, List.cons_append] at hloop ⊢
  exact parseConfigWithOptions_allFallbacks hq (connStringSettings_url hpre hs) hkeys
    (by rw [hports, hhosts]; exact hloop)

/-- The port libpq gives an entry of a URL's host list: its own, or the default 5432. -/
def libpqPort (en : List Char × Option (List Char)) : List Char := en.2.getD "5432".toList

theorem filterMap_snd_of_isSome :
    ∀ {es : List (List Char × Option (List Char))}, (∀ en ∈ es, en.2.isSome) →
      es.filterMap Prod.snd = es.map libpqPort
  | [], _ => rfl
  | (h, p) :: es, hs => by
    obtain ⟨p, rfl⟩ := Option.isSome_iff_exists.mp (hs _ List.mem_cons_self)
    simp [libpqPort, filterMap_snd_of_isSome fun en hm => hs en (List.mem_cons_of_mem _ hm)]

/-- When every host of a URL has a port, or none has, the pairing by index gives each host its
own port or 5432, as libpq does. -/
theorem portFor_urlPorts_of_uniform {es : List (List Char × Option (List Char))}
    (h : (∀ en ∈ es, en.2.isSome) ∨ ∀ en ∈ es, en.2 = none) {i : Nat} (hi : i < es.length) :
    portFor (urlPorts es) i = libpqPort es[i] := by
  rcases h with hs | hn
  · -- the given ports are one per host
    have hne : es.map libpqPort ≠ [] := by
      simpa using List.ne_nil_of_length_pos (Nat.lt_of_le_of_lt (Nat.zero_le i) hi)
    simp [urlPorts, filterMap_snd_of_isSome hs, hne, portFor, hi]
  · -- no port is given: the default one for every host
    have hnil : es.filterMap Prod.snd = [] := List.filterMap_eq_nil_iff.mpr fun en hm => hn en hm
    have hi' : es[i].2 = none := hn _ (List.getElem_mem hi)
    unfold portFor urlPorts libpqPort
    rw [hnil, hi', if_pos rfl, Option.getD_none]
    split_ifs with h1
    · obtain rfl : i = 0 := by simpa using h1
      rfl
    · rfl

/-- `postgres://a,b:5433/db`: the host without a port is paired with the port of the next host,
so both targets use port 5433, where libpq connects to `a` on 5432. -/
theorem parseConfigWithOptions_urlMixedPorts (hq : e.Quiet) (hip : OneColonNoIP e.parseIP)
    (hurl : e.urlParse "postgres://a,b:5433/db".toList = .ok ⟨none, "a,b:5433".toList, "/db".toList, []⟩)
    (t : Option TLS) (htls : ∀ settings host, e.configTLS settings host = .ok [t]) :
    (parseConfigWithOptions e "postgres://a,b:5433/db".toList).map Config.targets =
      .ok [("a".toList, 5433), ("b".toList, 5433)] ∧
      [("a".toList, none), ("b".toList, some "5433".toList)].map libpqPort = ["5432".toList, "5433".toList] := by
  have hes : PlainEntries [("a".toList, none), ("b".toList, some "5433".toList)] := by
    simp [PlainEntries, PlainAddr]
  -- both hosts take the one port given, and one fallback each
  have hport : ∀ i < [("a".toList, none), ("b".toList, some "5433".toList)].length,
      parsePort (portFor (urlPorts [("a".toList, none), ("b".toList, some "5433".toList)]) i) =
        .ok ((fun _ : Nat => (5433 : UInt16)) i) := by
    decide
  have htls' : ∀ settings, ∀ h ∈ [("a".toList, none), ("b".toList, some "5433".toList)].map Prod.fst,
      hostTLSConfigs e.configTLS settings h = .ok ((fun _ : List Char => [t]) h) := by
    intro settings h hm
    simp only [List.map_cons, List.map_nil, List.mem_cons, List.not_mem_nil, or_false] at hm
    rcases hm with rfl | rfl <;> simp [hostTLSConfigs, isAbsolutePath, htls]
  have h := parseConfigWithOptions_url hq hip (by decide) hurl (List.cons_ne_nil _ _) hes (by decide)
    (by simp) hport htls' (List.cons_ne_nil _ _)
  refine ⟨?_, by decide⟩
  revert h
  cases parseConfigWithOptions e "postgres://a,b:5433/db".toList with
  | error err => intro h; cases h
  | ok cfg =>
    intro h
    simp only [Except.map, Except.ok.injEq] at h ⊢
    rw [Config.targets, h]
    rfl

end Targets

/-- A machine with no `PG*` variable set, on which `url.Parse` reads the host list of
`postgres://a,b:5433/db` as `a,b:5433` and every host has one TLS configuration. -/
def bareEnv : Env Unit where
  defaultHost := "/var/run/postgresql".toList
  osUser := Settings.empty
  envSettings := Settings.empty
  urlParse := fun _ => .ok ⟨none, "a,b:5433".toList, "/db".toList, []⟩
  parseIP := fun _ => false
  parseServiceSettings := fun _ _ => .error "unable to find service"
  configTLS := fun _ _ => .ok [none]

theorem parseConfigWithOptions_urlMixedPorts_bareEnv :
    bareEnv.Quiet ∧ OneColonNoIP bareEnv.parseIP ∧
      ((parseConfigWithOptions bareEnv "postgres://a,b:5433/db".toList).map Config.targets =
        .ok [("a".toList, 5433), ("b".toList, 5433)] ∧
      [("a".toList, none), ("b".toList, some "5433".toList)].map libpqPort = ["5432".toList, "5433".toList]) :=
  ⟨fun _ _ => ⟨rfl, rfl⟩, fun _ _ => rfl,
    parseConfigWithOptions_urlMixedPorts (fun _ _ => ⟨rfl, rfl⟩) (fun _ _ => rfl) rfl none fun _ _ => rfl⟩

end Pgx.Pgconn
