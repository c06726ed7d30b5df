import PhpSandbox.Lib.Decimal

/-!
# Parsing URLs

`php_url_parse_ex` of `ext/standard/url.c`, in the locale `C`.

## The model

A pointer into the text is the text from there on, up to its end `ue`; behind the end there is a NUL (for `file:///`
the byte behind that is looked at too, and taken to be one). The labels of the source are functions: `parsePort` is
`parse_port`, `nohost` is `nohost` and `just_path`, and `hostPart` is what is before `nohost`.

## What is proved

The end of the host is where the first `/` is, wherever that is: only without any `/` are `?` and `#` looked for. So the
components of a URL are found if it has a path, or no `/` in its query and fragment, and only then
(`phpUrlParseEx_text_iff`).
-/

namespace PhpSandbox.Standard.ParseUrl

open Lib List

/-! ### Characters -/

/-- `'/'`. -/
def slash : UInt8 := 47

/-- `':'`. -/
def colon : UInt8 := 58

/-- `'?'`. -/
def question : UInt8 := 63

/-- `'#'`. -/
def hash : UInt8 := 35

/-- `'@'`. -/
def commercialAt : UInt8 := 64

variable (c : UInt8)

/-- `isalpha`. -/
def isalpha : Bool := (65 ≤ c && c ≤ 90) || (97 ≤ c && c ≤ 122)

/-- `iscntrl`. -/
def iscntrl : Bool := c < 32 || c == 127

/-- `isspace`. -/
def isspace : Bool := (9 ≤ c && c ≤ 13) || c == 32

/-- `tolower`. -/
def tolower : UInt8 := if 65 ≤ c && c ≤ 90 then c + 32 else c

/-- What a scheme may have: letters, digits, `+`, `.` and `-`. -/
def schemeChar : Bool := isalpha c || isDecimal c || c == 43 || c == 46 || c == 45

variable (s : Bytes)

/-- The byte `i` places on. -/
def byteAt (i : ℕ) : UInt8 := s.getD i 0

/-- `php_replace_controlchars_ex`, on a copy. -/
def replaceControlchars : Bytes := s.map fun c => if iscntrl c then 95 else c

/-- `strtol` with base 10, for texts without overflow. -/
def strtol : ℤ :=
  let s := s.dropWhile isspace
  match s with
  | [] => 0
  | c :: t =>
    if c = 45 then -decimalValue (t.takeWhile isDecimal)
    else if c = 43 then decimalValue (t.takeWhile isDecimal)
    else decimalValue ((c :: t).takeWhile isDecimal)

/-- `strchr`: it stops at a NUL. -/
def strchr : Option (Bytes × Bytes) :=
  (cut c s).bind fun (u, t) => if 0 ∈ u then none else some (u, t)

/-- What is before and behind the last `c` (`zend_memrchr`). -/
def cutLast : Option (Bytes × Bytes) :=
  (beforeLast c s).map fun u => (u, s.drop (u.length + 1))

/-! ### The parser -/

/-- `php_url`. -/
structure Url where
  scheme : Option Bytes := none
  user : Option Bytes := none
  pass : Option Bytes := none
  host : Option Bytes := none
  port : ℕ := 0
  path : Option Bytes := none
  query : Option Bytes := none
  fragment : Option Bytes := none
  deriving DecidableEq

/-- A component that is left out if it is empty. -/
def component (old : Option Bytes) : Option Bytes := if s = [] then old else some (replaceControlchars s)

variable (ret : Url) (s : Bytes)

/-- From `nohost` on. -/
def nohost : Url :=
  match cut question s with
  | some (p, afterQuestion) =>
    match strchr hash s with
    | some (pp, afterHash) =>
      if pp.length < p.length then
        { ret with path := component pp ret.path, fragment := component afterHash ret.fragment }
      else
        { ret with
          path := component p ret.path
          query := component (pp.drop (p.length + 1)) ret.query
          fragment := component afterHash ret.fragment }
    | none => { ret with path := component p ret.path, query := component afterQuestion ret.query }
  | none =>
    match cut hash s with
    | some (p, afterHash) => { ret with path := component p ret.path, fragment := component afterHash ret.fragment }
    | none => { ret with path := some (replaceControlchars s) }

/-- How long the login, the host and the port are. -/
def hostEnd : ℕ :=
  match cut slash s with
  | some (p, _) => p.length
  | none =>
    match cut question s, cut hash s with
    | some (query, _), some (fragment, _) =>
      if query.length > fragment.length then fragment.length else query.length
    | some (query, _), none => query.length
    | none, some (fragment, _) => fragment.length
    | none, none => s.length

/-- Login and password; what is behind them. -/
def login : Url × Bytes :=
  match cutLast commercialAt s with
  | some (p, rest) =>
    match cut colon p with
    | some (user, pass) =>
      ({ ret with user := some (replaceControlchars user), pass := some (replaceControlchars pass) }, rest)
    | none => ({ ret with user := some (replaceControlchars p) }, rest)
  | none => (ret, s)

/-- The port; what is before it. The byte at the end of the host, where the search for a colon starts, is not one. -/
def hostPort : Option (Url × Bytes) :=
  if s.head? = some 91 ∧ s.getLast? = some 93 then some (ret, s)
  else
    match cutLast colon s with
    | some (host, port) =>
      if ret.port ≠ 0 then some (ret, host)
      else if port.length > 5 then none
      else if port.length > 0 then
        if 0 < strtol port ∧ strtol port ≤ 65535 then some ({ ret with port := (strtol port).toNat }, host) else none
      else some (ret, host)
    | none => some (ret, s)

/-- From the host on. -/
def hostPart : Option Url :=
  let (ret, rest) := login ret (s.take (hostEnd s))
  (hostPort ret rest).bind fun (ret, host) =>
    if host.length < 1 then none
    else
      let ret := { ret with host := some (replaceControlchars host) }
      if s.drop (hostEnd s) = [] then some ret else some (nohost ret (s.drop (hostEnd s)))

/-- `*s == '/' && *(s + 1) == '/'`. -/
def relativeScheme : Bool := byteAt s 0 == slash && byteAt s 1 == slash

/-- From `parse_port` on; `after` is behind the first colon. -/
def parsePort (text after : Bytes) : Option Url :=
  let digits := (after.take 6).takeWhile isDecimal
  let next := byteAt after digits.length
  if digits.length > 0 ∧ digits.length < 6 ∧ (next = slash ∨ next = 0) then
    if 0 < strtol digits ∧ strtol digits ≤ 65535 then
      hostPart { port := (strtol digits).toNat } (if relativeScheme text then text.drop 2 else text)
    else none
  else if digits.length = 0 ∧ next = 0 then none
  else if relativeScheme text then hostPart {} (text.drop 2)
  else some (nohost {} text)

/-- `php_url_parse_ex`. -/
def phpUrlParseEx (text : Bytes) : Option Url :=
  match cut colon text with
  | some (scheme, after) =>
    if scheme = [] then parsePort text after
    else if ¬scheme.all schemeChar then if after ≠ [] then parsePort text after else some (nohost {} text)
    else
      let ret : Url := { scheme := some (replaceControlchars scheme) }
      if byteAt after 0 = 0 then some ret
      else if byteAt after 0 ≠ slash then
        -- `mailto:` and others have no slash; `a.com:80` is no scheme
        let digits := after.takeWhile isDecimal
        let next := byteAt after digits.length
        if (next = 0 ∨ next = slash) ∧ digits.length + 1 < 7 then parsePort text after else some (nohost ret after)
      else if byteAt after 1 = slash then
        if (replaceControlchars scheme).map tolower = ascii "file" ∧ byteAt after 2 = slash then
          -- a drive letter, as in `file:///c:/somedir/file.txt`
          some (nohost ret (if byteAt after 4 = colon then after.drop 3 else after.drop 2))
        else hostPart ret (after.drop 2)
      else some (nohost ret after)
  | none => if relativeScheme text then hostPart {} (text.drop 2) else some (nohost {} text)

/-! ### URLs -/

/-- `0x20` to `0x7e`. -/
def Printable : Prop := ∀ c ∈ s, 32 ≤ c ∧ c ≤ 126

/-- The components of a URL. -/
structure Components where
  /-- The scheme. -/
  scheme : Bytes
  /-- The host. -/
  host : Bytes
  /-- The port. -/
  port : Option ℕ
  /-- The path. -/
  path : Option Bytes
  /-- The query. -/
  query : Option Bytes
  /-- The fragment. -/
  fragment : Option Bytes

/-- What the components may be. -/
structure Components.Valid (c : Components) : Prop where
  /-- A letter, and then letters, digits, `+`, `-` and `.`. -/
  scheme : ∃ d ds, c.scheme = d :: ds ∧ isalpha d = true ∧ ds.all schemeChar = true
  /-- Letters, digits, `-` and `.`. -/
  host : ∀ d ∈ c.host, (isalpha d || isDecimal d || d == 45 || d == 46) = true
  /-- A number of 16 bits, but not zero. -/
  port : ∀ n ∈ c.port, 1 ≤ n ∧ n ≤ 65535
  /-- A slash, and no `?` and `#`. -/
  path : ∀ s ∈ c.path, s.head? = some slash ∧ question ∉ s ∧ hash ∉ s ∧ Printable s
  /-- Not empty, and no `#`. -/
  query : ∀ s ∈ c.query, s ≠ [] ∧ hash ∉ s ∧ Printable s
  /-- Not empty. -/
  fragment : ∀ s ∈ c.fragment, s ≠ [] ∧ Printable s

namespace Components

variable (c : Components)

/-- `host [':' port]`. -/
def authority : Bytes := c.host ++ c.port.elim [] fun n => colon :: decimal n

/-- `[path] ['?' query] ['#' fragment]`. -/
def tail : Bytes :=
  c.path.getD [] ++ (c.query.elim [] (question :: ·) ++ c.fragment.elim [] (hash :: ·))

/-- The URL. -/
def text : Bytes := c.scheme ++ colon :: slash :: slash :: (c.authority ++ c.tail)

/-- What the parser should make of it. -/
def url : Url where
  scheme := some c.scheme
  host := some c.host
  port := c.port.getD 0
  path := c.path
  query := c.query
  fragment := c.fragment

end Components

/-! ### Printable characters -/

section Characters

variable {c : UInt8} {s : Bytes}

theorem replaceControlchars_eq (h : Printable s) : replaceControlchars s = s := by
  rw [replaceControlchars]
  conv_rhs => rw [← map_id s]
  refine map_congr_left fun c hc => ?_
  obtain ⟨hlo, hhi⟩ := h c hc
  have hno : iscntrl c = false :=
    forall_uint8 (p := fun c => 32 ≤ c → c ≤ 126 → iscntrl c = false) (by decide +kernel) c hlo hhi
  rw [hno]
  rfl

theorem component_eq (hne : s ≠ []) (h : Printable s) (old : Option Bytes) : component s old = some s := by
  rw [component, if_neg hne, replaceControlchars_eq h]

theorem zero_not_mem (h : Printable s) : (0 : UInt8) ∉ s := fun hmem => absurd (h 0 hmem).1 (by decide)

variable (c : UInt8)

/-- What is known of the characters of a scheme or a host. -/
theorem schemeChar_spec : schemeChar c = true →
    (32 ≤ c ∧ c ≤ 126) ∧ c ≠ slash ∧ c ≠ colon ∧ c ≠ question ∧ c ≠ hash ∧ c ≠ commercialAt ∧ c ≠ 91 :=
  forall_uint8 (p := fun c => schemeChar c = true →
    (32 ≤ c ∧ c ≤ 126) ∧ c ≠ slash ∧ c ≠ colon ∧ c ≠ question ∧ c ≠ hash ∧ c ≠ commercialAt ∧ c ≠ 91)
    (by decide +kernel) c

theorem schemeChar_of_isalpha : isalpha c = true → schemeChar c = true := by
  intro h
  rw [schemeChar, h]
  rfl

theorem schemeChar_of_isDecimal : isDecimal c = true → schemeChar c = true := by
  intro h
  rw [schemeChar, h, Bool.or_true]
  rfl

theorem printable_of_all (h : ∀ c ∈ s, schemeChar c = true) : Printable s := fun c hc => (schemeChar_spec c (h c hc)).1

end Characters

/-! ### Ports -/

theorem length_decimal_le {n k : ℕ} (hn : n < 10 ^ (k + 1)) : (decimal n).length ≤ k + 1 := by
  induction k generalizing n with
  | zero =>
    rw [decimal_of_lt (by simpa using hn)]
    exact le_rfl
  | succ k ih =>
    rw [decimal]
    split_ifs
    · exact Nat.le_add_left _ _
    · rw [length_append, length_singleton]
      have hlen := ih (n := n / 10) (by rw [Nat.pow_succ] at hn; omega)
      omega

theorem strtol_decimal (n : ℕ) : strtol (decimal n) = n := by
  have hall : ∀ c ∈ decimal n, isDecimal c = true := fun _ => isDecimal_of_mem_decimal
  have htake := takeWhile_isDecimal_decimal n (show ∀ c ∈ ([] : Bytes).head?, ¬isDecimal c by simp)
  rw [append_nil] at htake
  cases hd : decimal n with
  | nil => exact absurd hd (decimal_ne_nil n)
  | cons c t =>
    have hc : isDecimal c = true := hall c (by rw [hd]; exact mem_cons_self)
    obtain ⟨hspace, hminus, hplus⟩ : isspace c = false ∧ c ≠ 45 ∧ c ≠ 43 :=
      forall_uint8 (p := fun c => isDecimal c = true → isspace c = false ∧ c ≠ 45 ∧ c ≠ 43) (by decide +kernel) c hc
    rw [strtol, dropWhile_cons, if_neg (by rw [hspace]; exact Bool.false_ne_true)]
    simp only [if_neg hminus, if_neg hplus]
    rw [← hd, htake, decimalValue_decimal]

theorem cutLast_append {c : UInt8} (u : Bytes) {t : Bytes} (ht : c ∉ t) : cutLast c (u ++ c :: t) = some (u, t) := by
  rw [cutLast, beforeLast_append u ht, Option.map_some, ← drop_drop, drop_left]
  rfl

theorem cutLast_eq_none {c : UInt8} {s : Bytes} (h : c ∉ s) : cutLast c s = none := by
  rw [cutLast, beforeLast_eq_none_iff.mpr h, Option.map_none]

/-! ### The path, the query and the fragment -/

section Nohost

variable {ret : Url} {s p q f : Bytes}

theorem strchr_append {c : UInt8} {u : Bytes} (hu : c ∉ u) (hzero : (0 : UInt8) ∉ u) (t : Bytes) :
    strchr c (u ++ c :: t) = some (u, t) := by
  rw [strchr, cut_append hu, Option.bind_some]
  exact if_neg hzero

/-- A character that is not before another one is found behind it. -/
theorem length_lt_of_cut {c d : UInt8} {u t : Bytes} (hp : c ∉ p) (hcd : c ≠ d)
    (h : cut c (p ++ d :: f) = some (u, t)) : p.length < u.length := by
  obtain ⟨-, htext⟩ := cut_eq_some_iff.mp h
  -- one of the two is before the other in the text
  rcases append_eq_append_iff.mp htext with ⟨a, rfl, ha⟩ | ⟨a, rfl, ha⟩ <;> cases a <;> simp_all

section

variable (hp : question ∉ p)

include hp

/-- With a query. -/
theorem nohost_query (hno : hash ∉ p ++ question :: q) :
    nohost ret (p ++ question :: q) = { ret with path := component p ret.path, query := component q ret.query } := by
  rw [nohost, cut_append hp]
  have hnone : strchr hash (p ++ question :: q) = none := by
    rw [strchr, cut_eq_none_iff.mpr hno, Option.bind_none]
  simp only [hnone]

/-- With a query and a fragment. -/
theorem nohost_query_fragment (hno : hash ∉ p ++ question :: q) (hzero : (0 : UInt8) ∉ p ++ question :: q) :
    nohost ret (p ++ question :: (q ++ hash :: f)) =
      { ret with
        path := component p ret.path, query := component q ret.query, fragment := component f ret.fragment } := by
  have htext : p ++ question :: (q ++ hash :: f) = p ++ question :: q ++ hash :: f := by
    rw [append_assoc, cons_append]
  rw [nohost, cut_append hp]
  have hsome : strchr hash (p ++ question :: (q ++ hash :: f)) = some (p ++ question :: q, f) := by
    rw [htext, strchr_append hno hzero]
  have hlen : ¬(p ++ question :: q).length < p.length := by
    rw [length_append]
    omega
  have hdrop : (p ++ question :: q).drop (p.length + 1) = q := by
    rw [← drop_drop, drop_left]
    rfl
  simp only [hsome, if_neg hlen, hdrop]

/-- Without a query; there may be a `?` in the fragment. -/
theorem nohost_fragment (hno : hash ∉ p) (hzero : (0 : UInt8) ∉ p) :
    nohost ret (p ++ hash :: f) = { ret with path := component p ret.path, fragment := component f ret.fragment } := by
  rw [nohost]
  cases hcut : cut question (p ++ hash :: f) with
  | none =>
    have hsome : cut hash (p ++ hash :: f) = some (p, f) := cut_append hno f
    simp only [hsome]
  | some r =>
    obtain ⟨u, t⟩ := r
    have hsome : strchr hash (p ++ hash :: f) = some (p, f) := strchr_append hno hzero f
    simp only [hsome, if_pos (length_lt_of_cut hp (by decide) hcut)]

/-- With a path only. -/
theorem nohost_path (hno : hash ∉ p) : nohost ret p = { ret with path := some (replaceControlchars p) } := by
  rw [nohost, cut_eq_none_iff.mpr hp]
  simp only [cut_eq_none_iff.mpr hno]

end

theorem component_isSome {old : Option Bytes} (h : s ≠ []) : component s old ≠ none := by
  rw [component, if_neg h]
  exact Option.some_ne_none _

theorem ne_nil_of_cut {c d : UInt8} {u t : Bytes} (hcd : c ≠ d) (h : cut d (c :: s) = some (u, t)) : u ≠ [] := by
  rintro rfl
  obtain ⟨-, htext⟩ := cut_eq_some_iff.mp h
  exact hcd (List.cons.inj htext).1

/-- Behind a slash there is always a path. -/
theorem nohost_slash_path (ret : Url) (s : Bytes) : (nohost ret (slash :: s)).path ≠ none := by
  have hstrchr : ∀ {u t}, strchr hash (slash :: s) = some (u, t) → u ≠ [] := by
    intro u t h
    rw [strchr] at h
    obtain ⟨⟨u', t'⟩, hcut, heq⟩ := Option.bind_eq_some_iff.mp h
    have hu := ne_nil_of_cut (by decide) hcut
    simp only at heq
    split_ifs at heq
    cases heq
    exact hu
  rw [nohost]
  cases hq : cut question (slash :: s) with
  | some r =>
    have hp : r.1 ≠ [] := ne_nil_of_cut (by decide) hq
    cases hh : strchr hash (slash :: s) with
    | some r' =>
      have hpp : r'.1 ≠ [] := hstrchr hh
      simp only
      split_ifs
      · exact component_isSome hpp
      · exact component_isSome hp
    | none => exact component_isSome hp
  | none =>
    cases hh : cut hash (slash :: s) with
    | some r => exact component_isSome (ne_nil_of_cut (c := slash) (by decide) hh)
    | none => exact Option.some_ne_none _

/-- The host stays as it is. -/
theorem nohost_host (ret : Url) (s : Bytes) : (nohost ret s).host = ret.host := by
  rw [nohost]
  split
  · split
    · split_ifs <;> rfl
    · rfl
  · split <;> rfl

end Nohost

/-! ### The host -/

section Host

variable {ret u : Url} {s A T : Bytes}

/-- The host ends where something else starts. -/
theorem hostEnd_append (hslash : slash ∉ A) (hquestion : question ∉ A) (hhash : hash ∉ A)
    (hT : T = [] ∨ (∃ T', T = slash :: T') ∨ slash ∉ T ∧ ∃ T', T = question :: T' ∨ T = hash :: T') :
    hostEnd (A ++ T) = A.length := by
  rw [hostEnd]
  rcases hT with rfl | ⟨T', rfl⟩ | ⟨hno, T', rfl | rfl⟩
  · rw [append_nil, cut_eq_none_iff.mpr hslash]
    simp only [cut_eq_none_iff.mpr hquestion, cut_eq_none_iff.mpr hhash]
  · rw [cut_append hslash]
  · rw [cut_eq_none_iff.mpr (by simp only [mem_append, hslash, hno, or_self, not_false_eq_true])]
    simp only [cut_append hquestion]
    cases hcut : cut hash (A ++ question :: T') with
    | none => rfl
    | some r =>
      have hlen := length_lt_of_cut hhash (by decide) hcut
      simp only [if_neg (Nat.not_lt.mpr hlen.le)]
  · rw [cut_eq_none_iff.mpr (by simp only [mem_append, hslash, hno, or_self, not_false_eq_true])]
    simp only [cut_append hhash]
    cases hcut : cut question (A ++ hash :: T') with
    | none => rfl
    | some r =>
      have hlen := length_lt_of_cut hquestion (by decide) hcut
      simp only [if_pos hlen]

/-- If there is a slash, there is a path. -/
theorem hostPart_slash_path (hs : slash ∈ s) (h : hostPart ret s = some u) : u.path ≠ none := by
  obtain ⟨p, t, rfl, hp⟩ := eq_append_cons_of_mem hs
  have hend : hostEnd (p ++ slash :: t) = p.length := by rw [hostEnd, cut_append hp]
  rw [hostPart, hend] at h
  obtain ⟨r, -, hr⟩ := Option.bind_eq_some_iff.mp h
  simp only [drop_left, cons_ne_nil, if_false] at hr
  split_ifs at hr
  cases hr
  exact nohost_slash_path _ _

/-- There is no empty host. -/
theorem hostPart_host (h : hostPart ret s = some u) : ∃ host, host ≠ [] ∧ u.host = some host := by
  rw [hostPart] at h
  obtain ⟨⟨ret', host⟩, -, hr⟩ := Option.bind_eq_some_iff.mp h
  simp only at hr
  split_ifs at hr with hlen hend
  all_goals
    refine ⟨replaceControlchars host, ?_, ?_⟩
    · intro hnil
      have := congrArg List.length hnil
      rw [replaceControlchars, length_map] at this
      exact hlen (by rw [this]; exact Nat.zero_lt_one)
  · cases hr
    rfl
  · cases hr
    exact nohost_host _ _

end Host

/-! ### The components are found -/

namespace Components

variable {c : Components} {ret : Url}

section

variable (h : c.Valid)

include h

namespace Valid

theorem host_spec {d : UInt8} (hd : d ∈ c.host) : schemeChar d = true := by
  have := h.host d hd
  simp only [schemeChar, Bool.or_eq_true] at this ⊢
  tauto

/-- The characters of the host and the port. -/
theorem authority_spec {d : UInt8} (hd : d ∈ c.authority) :
    (32 ≤ d ∧ d ≤ 126) ∧ d ≠ slash ∧ d ≠ question ∧ d ≠ hash ∧ d ≠ commercialAt ∧ d ≠ 91 := by
  have hchar : schemeChar d = true ∨ d = colon := by
    rcases mem_append.mp hd with hd | hd
    · exact .inl (h.host_spec hd)
    cases hport : c.port with
    | none =>
      rw [hport] at hd
      exact absurd hd not_mem_nil
    | some n =>
      rw [hport] at hd
      rcases mem_cons.mp hd with rfl | hd
      · exact .inr rfl
      · exact .inl (schemeChar_of_isDecimal d (isDecimal_of_mem_decimal hd))
  rcases hchar with hchar | rfl
  · obtain ⟨hprint, hslash, -, hrest⟩ := schemeChar_spec d hchar
    exact ⟨hprint, hslash, hrest⟩
  · decide

theorem scheme_spec : c.scheme ≠ [] ∧ ∀ d ∈ c.scheme, schemeChar d = true := by
  obtain ⟨d, ds, hscheme, hd, hds⟩ := h.scheme
  rw [hscheme]
  refine ⟨cons_ne_nil _ _, ?_⟩
  rw [forall_mem_cons]
  exact ⟨schemeChar_of_isalpha d hd, all_eq_true.mp hds⟩

/-- The path, the query and the fragment. -/
theorem nohost_tail (hret : ret.path = none ∧ ret.query = none ∧ ret.fragment = none) (hne : c.tail ≠ []) :
    nohost ret c.tail = { ret with path := c.path, query := c.query, fragment := c.fragment } := by
  obtain ⟨scheme, host, port, path, query, fragment⟩ := c
  obtain ⟨hpath, hquery, hfragment⟩ := hret
  -- the path, which is empty if there is none
  obtain ⟨p, hp, hquestion, hhash, hprint, hcomp⟩ :
      ∃ p, path.getD [] = p ∧ question ∉ p ∧ hash ∉ p ∧ Printable p ∧ component p ret.path = path := by
    cases path with
    | none => exact ⟨[], rfl, not_mem_nil, not_mem_nil, fun _ h => absurd h not_mem_nil, hpath⟩
    | some p =>
      obtain ⟨hhead, hquestion, hhash, hprint⟩ := h.path p rfl
      have hne : p ≠ [] := by
        rintro rfl
        cases hhead
      exact ⟨p, rfl, hquestion, hhash, hprint, component_eq hne hprint _⟩
  rw [tail, hp] at hne ⊢
  cases query with
  | some q =>
    obtain ⟨hq, hqhash, hqprint⟩ := h.query q rfl
    have hno : hash ∉ p ++ question :: q := by
      simp [hhash, hqhash, show hash ≠ question by decide]
    have hzero : (0 : UInt8) ∉ p ++ question :: q := by
      simp [zero_not_mem hprint, zero_not_mem hqprint, show (0 : UInt8) ≠ question by decide]
    cases fragment with
    | some f =>
      obtain ⟨hf, hfprint⟩ := h.fragment f rfl
      change nohost ret (p ++ question :: (q ++ hash :: f)) = _
      rw [nohost_query_fragment hquestion hno hzero, hcomp, component_eq hq hqprint, component_eq hf hfprint]
    | none =>
      change nohost ret (p ++ question :: (q ++ [])) = _
      rw [append_nil, nohost_query hquestion hno, hcomp, component_eq hq hqprint, ← hfragment]
  | none =>
    cases fragment with
    | some f =>
      obtain ⟨hf, hfprint⟩ := h.fragment f rfl
      change nohost ret (p ++ hash :: f) = _
      rw [nohost_fragment hquestion hhash (zero_not_mem hprint), hcomp, component_eq hf hfprint, ← hquery]
    | none =>
      change p ++ [] ≠ [] at hne
      rw [append_nil] at hne
      change nohost ret (p ++ []) = _
      rw [append_nil, nohost_path hquestion hhash, ← hcomp, component, if_neg hne, hquery, hfragment]

/-- The scheme, and what is behind it. -/
theorem parse_text :
    phpUrlParseEx c.text =
      if c.scheme.map tolower = ascii "file" ∧ byteAt (c.authority ++ c.tail) 0 = slash then
        some (nohost { scheme := some c.scheme }
          (if byteAt (c.authority ++ c.tail) 2 = colon then (c.authority ++ c.tail).drop 1 else c.authority ++ c.tail))
      else hostPart { scheme := some c.scheme } (c.authority ++ c.tail) := by
  obtain ⟨hne, hchars⟩ := h.scheme_spec
  have hcolon : colon ∉ c.scheme := fun hmem => (schemeChar_spec colon (hchars colon hmem)).2.2.1 rfl
  have hall : ¬¬c.scheme.all schemeChar = true := not_not.mpr (all_eq_true.mpr hchars)
  rw [phpUrlParseEx, text, cut_append hcolon]
  simp only [if_neg hne, if_neg hall, replaceControlchars_eq (printable_of_all hchars)]
  have hfirst : byteAt (slash :: slash :: (c.authority ++ c.tail)) 0 = slash := rfl
  have hsecond : byteAt (slash :: slash :: (c.authority ++ c.tail)) 1 = slash := rfl
  rw [hfirst, hsecond, if_neg (by decide), if_neg (not_not.mpr rfl), if_pos rfl]
  rfl

/-- The port. -/
theorem hostPort_authority (hret : ret.port = 0) :
    hostPort ret c.authority = some ({ ret with port := c.port.getD 0 }, c.host) := by
  have hcolon : colon ∉ c.host := fun hmem => (schemeChar_spec colon (h.host_spec hmem)).2.2.1 rfl
  have hhead : ¬(c.authority.head? = some 91 ∧ c.authority.getLast? = some 93) := by
    rintro ⟨hhead, -⟩
    exact (h.authority_spec (mem_of_head? hhead)).2.2.2.2.2 rfl
  rw [hostPort, if_neg hhead]
  cases hport : c.port with
  | none =>
    have hall : c.authority = c.host := by
      rw [authority, hport]
      exact append_nil _
    rw [hall, cutLast_eq_none hcolon, Option.getD_none, ← hret]
  | some n =>
    have hauthority : c.authority = c.host ++ colon :: decimal n := by
      rw [authority, hport]
      rfl
    obtain ⟨hlo, hhi⟩ := h.port n hport
    have hdigits : colon ∉ decimal n := by
      intro hmem
      exact absurd (isDecimal_of_mem_decimal hmem) (by decide)
    have hlen : ¬(decimal n).length > 5 := by
      have := length_decimal_le (n := n) (k := 4) (by omega)
      omega
    have hpos : (decimal n).length > 0 := length_pos_iff.mpr (decimal_ne_nil n)
    have hrange : 0 < strtol (decimal n) ∧ strtol (decimal n) ≤ 65535 := by
      rw [strtol_decimal]
      omega
    rw [hauthority, cutLast_append _ hdigits]
    simp only [if_neg (not_not.mpr hret), if_neg hlen, if_pos hpos, if_pos hrange]
    rw [strtol_decimal, Int.toNat_natCast, Option.getD_some]

/-- There is nothing behind the host. -/
theorem tail_eq_nil (hnil : c.tail = []) : c.path = none ∧ c.query = none ∧ c.fragment = none := by
  obtain ⟨hp, hqf⟩ := append_eq_nil_iff.mp hnil
  obtain ⟨hq, hf⟩ := append_eq_nil_iff.mp hqf
  refine ⟨?_, ?_, ?_⟩
  · cases hpath : c.path with
    | none => rfl
    | some p =>
      obtain ⟨hhead, -⟩ := h.path p hpath
      rw [hpath, Option.getD_some] at hp
      rw [hp] at hhead
      cases hhead
  · cases hquery : c.query with
    | none => rfl
    | some q =>
      rw [hquery] at hq
      cases hq
  · cases hfragment : c.fragment with
    | none => rfl
    | some f =>
      rw [hfragment] at hf
      cases hf

/-- **The components come back**: with a path, or without a slash in the query and the fragment. -/
theorem hostPart_text (hhost : c.host ≠ []) (hslash : c.path ≠ none ∨ slash ∉ c.tail) :
    hostPart { scheme := some c.scheme } (c.authority ++ c.tail) = some c.url := by
  have hend : hostEnd (c.authority ++ c.tail) = c.authority.length := by
    refine hostEnd_append (fun hd => (h.authority_spec hd).2.1 rfl) (fun hd => (h.authority_spec hd).2.2.1 rfl)
      (fun hd => (h.authority_spec hd).2.2.2.1 rfl) ?_
    cases hpath : c.path with
    | some p =>
      obtain ⟨hhead, -⟩ := h.path p hpath
      obtain ⟨p', rfl⟩ : ∃ p', p = slash :: p' := head?_eq_some_iff.mp hhead
      exact .inr (.inl ⟨_, by rw [tail, hpath]; rfl⟩)
    | none =>
      have hno : slash ∉ c.tail := hslash.resolve_left fun hne => hne hpath
      have htail : c.tail = c.query.elim [] (question :: ·) ++ c.fragment.elim [] (hash :: ·) := by
        rw [tail, hpath]
        rfl
      cases hquery : c.query with
      | some q => exact .inr (.inr ⟨hno, _, .inl (by rw [htail, hquery]; rfl)⟩)
      | none =>
        cases hfragment : c.fragment with
        | some f => exact .inr (.inr ⟨hno, _, .inr (by rw [htail, hquery, hfragment]; rfl)⟩)
        | none => exact .inl (by rw [htail, hquery, hfragment]; rfl)
  have hat : commercialAt ∉ c.authority := fun hd => (h.authority_spec hd).2.2.2.2.1 rfl
  have hlogin : ∀ ret, login ret c.authority = (ret, c.authority) := by
    intro ret
    rw [login, cutLast_eq_none hat]
  have hprint : Printable c.host := printable_of_all fun d hd => h.host_spec hd
  have hlen : ¬c.host.length < 1 := by
    have := length_pos_iff.mpr hhost
    omega
  rw [hostPart, hend, take_left, drop_left, hlogin]
  have hport := h.hostPort_authority (show Url.port { scheme := some c.scheme } = 0 from rfl)
  simp only [hport, Option.bind_some, if_neg hlen, replaceControlchars_eq hprint]
  split_ifs with hnil
  · obtain ⟨hpath, hquery, hfragment⟩ := h.tail_eq_nil hnil
    rw [url, hpath, hquery, hfragment]
  · rw [h.nohost_tail ⟨rfl, rfl, rfl⟩ hnil]
    rfl

end Valid

end

/-- **When the components come back**: there is a host, and there is a path or no slash in the query and the fragment.
There may be an `@` behind the host, and the scheme may be `file`. -/
theorem phpUrlParseEx_text_iff (h : c.Valid) :
    phpUrlParseEx c.text = some c.url ↔
      c.host ≠ [] ∧ (c.path ≠ none ∨ slash ∉ c.query.getD [] ∧ slash ∉ c.fragment.getD []) := by
  have hquery : slash ∈ c.query.elim [] (question :: ·) ↔ slash ∈ c.query.getD [] := by
    cases c.query with
    | none => exact Iff.rfl
    | some q => simp [show slash ≠ question by decide]
  have hfragment : slash ∈ c.fragment.elim [] (hash :: ·) ↔ slash ∈ c.fragment.getD [] := by
    cases c.fragment with
    | none => exact Iff.rfl
    | some f => simp [show slash ≠ hash by decide]
  rw [h.parse_text]
  constructor
  · intro hurl
    by_cases hfile : c.scheme.map tolower = ascii "file" ∧ byteAt (c.authority ++ c.tail) 0 = slash
    · -- no host is found
      rw [if_pos hfile] at hurl
      have hhost := congrArg Url.host (Option.some.inj hurl)
      rw [nohost_host] at hhost
      cases hhost
    · rw [if_neg hfile] at hurl
      obtain ⟨host, hne, hhost⟩ := hostPart_host hurl
      refine ⟨fun hnil => hne ?_, ?_⟩
      · rw [← hnil]
        exact (Option.some.inj hhost).symm
      · by_contra hslash
        rw [not_or, not_not, not_and_or, not_not, not_not] at hslash
        obtain ⟨hpath, hmem⟩ := hslash
        refine hostPart_slash_path ?_ hurl hpath
        rw [← hquery, ← hfragment, ← mem_append] at hmem
        exact mem_append_right _ (mem_append_right _ hmem)
  · rintro ⟨hhost, hslash⟩
    have hfirst : ¬(c.scheme.map tolower = ascii "file" ∧ byteAt (c.authority ++ c.tail) 0 = slash) := by
      rintro ⟨-, hbyte⟩
      obtain ⟨d, ds, hd⟩ := exists_cons_of_ne_nil hhost
      rw [authority, hd] at hbyte
      have hmem : d ∈ c.host := by rw [hd]; exact mem_cons_self
      exact (schemeChar_spec d (h.host_spec hmem)).2.1 hbyte
    rw [if_neg hfirst]
    refine h.hostPart_text hhost ?_
    rcases hslash with hpath | ⟨hq, hf⟩
    · exact .inl hpath
    cases hpath : c.path with
    | some p => exact .inl (Option.some_ne_none p)
    | none =>
      refine .inr ?_
      rw [tail, hpath]
      simp [hquery, hfragment, hq, hf]

/-- `http://a.b:80/c?d/e#@f?`. -/
theorem phpUrlParseEx_all_components :
    phpUrlParseEx (ascii "http://a.b:80/c?d/e#@f?") =
      some { scheme := some (ascii "http"), host := some (ascii "a.b"), port := 80, path := some (ascii "/c"),
             query := some (ascii "d/e"), fragment := some (ascii "@f?") } := by
  have hvalid : Components.Valid ⟨ascii "http", ascii "a.b", some 80, some (ascii "/c"), some (ascii "d/e"),
      some (ascii "@f?")⟩ := by
    refine ⟨⟨104, ascii "ttp", by decide, by decide, by decide⟩, by decide, ?_, ?_, ?_, ?_⟩
    · rintro n ⟨⟩
      decide
    all_goals
      rintro s ⟨⟩
      unfold Printable
      decide
  have htext : ascii "http://a.b:80/c?d/e#@f?" = text ⟨ascii "http", ascii "a.b", some 80, some (ascii "/c"),
      some (ascii "d/e"), some (ascii "@f?")⟩ := by decide +kernel
  rw [htext]
  exact (phpUrlParseEx_text_iff hvalid).mpr ⟨by decide, .inl (by decide)⟩

/-- The `/` in the query of `http://h?a/b` ends the host. -/
theorem not_components_slash_query :
    text ⟨ascii "http", ascii "h", none, none, some (ascii "a/b"), none⟩ = ascii "http://h?a/b" ∧
      phpUrlParseEx (ascii "http://h?a/b") =
        some { scheme := some (ascii "http"), host := some (ascii "h?a"), path := some (ascii "/b") } ∧
      phpUrlParseEx (ascii "http://h?a/b") ≠
        some (url ⟨ascii "http", ascii "h", none, none, some (ascii "a/b"), none⟩) := by
  refine ⟨by decide, by decide, by decide⟩

end Components

end PhpSandbox.Standard.ParseUrl
