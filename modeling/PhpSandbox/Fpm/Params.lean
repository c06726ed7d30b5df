import PhpSandbox.Lib.CString
import PhpSandbox.Lib.OrderedMap
import Mathlib.Data.List.TakeWhile
import Mathlib.Data.Nat.Bitwise

/-!
# The parameters of a FastCGI request

`fcgi_read_request` of `sapi/fpm/fpm/fastcgi.c` reads the beginning of a request: a
record that begins it, and records with the parameters, up to an empty one. The
parameters are the environment of the request, as pairs of a name and a value with
their lengths before them (`fcgi_get_params`).

## The model

The stream is all that the client sends; `safe_read` gets what is asked for, or the
client has stopped sending. The environment is an insertion-ordered map, as
`zend_hash_update` keeps it. Only what a successful call leaves is modelled: after a
failure the connection is closed. A request for the server's own values
(`FCGI_GET_VALUES`) is answered and the call returns 0, so that it is a failure here.

## What is proved

`exists_pairs_of_fcgiGetParams`: what is read of a record that stands where pairs are encoded
one after the other is whole pairs. `fcgiReadRequest_env_iff`: so the pairs come
out whole just when no record ends within one (and no record is too long with its
padding, and there is no NUL in a name, or in a value that is not overridden).
-/

namespace PhpSandbox.Fpm

open Lib Option

/-! ### Records -/

/-- `fcgi_header`. -/
structure Header where
  /-- The version of the protocol. -/
  version : UInt8
  /-- The type of the record. -/
  type : UInt8
  /-- The number of the request, high byte. -/
  requestIdB1 : UInt8
  /-- The number of the request, low byte. -/
  requestIdB0 : UInt8
  /-- The length of the content, high byte. -/
  contentLengthB1 : UInt8
  /-- The length of the content, low byte. -/
  contentLengthB0 : UInt8
  /-- The length of the padding. -/
  paddingLength : UInt8
  /-- Not used. -/
  reserved : UInt8

/-- `len`. -/
def Header.len (hdr : Header) : ℕ := (hdr.contentLengthB1.toNat <<< 8) ||| hdr.contentLengthB0.toNat

/-- `FCGI_MAX_LENGTH`. -/
def fcgiMaxLength : ℕ := 0xffff

/-- `FCGI_BEGIN_REQUEST`. -/
def fcgiBeginRequest : UInt8 := 1

/-- `FCGI_PARAMS`. -/
def fcgiParams : UInt8 := 4

/-- `FCGI_STDIN`. -/
def fcgiStdin : UInt8 := 5

/-- `safe_read` of `count` bytes, which are then off the stream. -/
def safeRead (stream : Bytes) (count : ℕ) : Option (Bytes × Bytes) :=
  if count ≤ stream.length then some (stream.take count, stream.drop count) else none

/-- A header is read, and its version checked. -/
def readHeader : Bytes → Option (Header × Bytes)
  | version :: type :: id1 :: id0 :: len1 :: len0 :: padding :: reserved :: stream =>
    if version < 1 then none else some (⟨version, type, id1, id0, len1, len0, padding, reserved⟩, stream)
  | _ => none

theorem length_readHeader {stream rest : Bytes} {hdr : Header} (h : readHeader stream = some (hdr, rest)) :
    rest.length < stream.length := by
  unfold readHeader at h
  split at h
  · split_ifs at h
    cases h
    simp only [List.length_cons]
    omega
  · cases h

/-! ### Pairs -/

/-- `fcgi_get_params_len`: a length, and what is behind it. -/
def fcgiGetParamsLen : Bytes → Option (ℕ × Bytes)
  | [] => none
  | a :: p =>
    if a < 128 then some (a.toNat, p)
    else
      match p with
      | b :: c :: d :: p =>
        some (((a.toNat &&& 0x7f) <<< 24) ||| (b.toNat <<< 16) ||| (c.toNat <<< 8) ||| d.toNat, p)
      | _ => none

/-- `fcgi_param_get_eff_len`: the length of a name without the NULs at its end; there may be no
other NUL in it. -/
def fcgiParamGetEffLen (name : Bytes) : Option ℕ :=
  let effLen := (name.takeWhile (· ≠ 0)).length
  if (name.drop effLen).all (· == 0) then some effLen else none

/-- `INT_MAX`. -/
def intMax : ℕ := 2 ^ 31 - 1

variable {n : ℕ}

theorem length_fcgiGetParamsLen {p p' : Bytes} (h : fcgiGetParamsLen p = some (n, p')) : p'.length < p.length := by
  unfold fcgiGetParamsLen at h
  split at h
  · cases h
  split_ifs at h
  · cases h
    simp
  split at h
  · cases h
    simp only [List.length_cons]
    omega
  · cases h

/-- `fcgi_get_params`: the pairs in the content of a record. -/
def fcgiGetParams (env : List (Bytes × Bytes)) (p : Bytes) : Option (List (Bytes × Bytes)) :=
  if p = [] then some env
  else
    match _hn : fcgiGetParamsLen p with
    | none => none
    | some (nameLen, p₁) =>
      match _hv : fcgiGetParamsLen p₁ with
      | none => none
      | some (valLen, p₂) =>
        -- would the addition overflow, or would we exceed the buffer?
        if intMax - valLen < nameLen ∨ p₂.length < nameLen + valLen then none
        else
          match fcgiParamGetEffLen (p₂.take nameLen) with
          | none => none
          | some effNameLen =>
            -- the length of the value is not kept: it is read up to its first NUL
            let value := ((p₂.drop nameLen).take valLen).takeWhile (· ≠ 0)
            fcgiGetParams (update env (p₂.take effNameLen) value) (p₂.drop (nameLen + valLen))
termination_by p.length
decreasing_by
  have hn := length_fcgiGetParamsLen _hn
  have hv := length_fcgiGetParamsLen _hv
  simp only [List.length_drop]
  omega

/-! ### A request -/

/-- What is kept of a request. -/
structure Request where
  /-- Its number. -/
  id : ℕ
  /-- Whether the connection stays open after it. -/
  keep : Bool
  /-- The environment. -/
  env : List (Bytes × Bytes)
  /-- What is still to be read. -/
  stream : Bytes

/-- The loop over the records of parameters. -/
def readParams (env : List (Bytes × Bytes)) (stream : Bytes) : Option (List (Bytes × Bytes) × Bytes) :=
  match _hh : readHeader stream with
  | none => none
  | some (hdr, rest) =>
    if hdr.type = fcgiParams ∧ 0 < hdr.len then
      if fcgiMaxLength < hdr.len + hdr.paddingLength.toNat then none
      else
        match _hs : safeRead rest (hdr.len + hdr.paddingLength.toNat) with
        | none => none
        | some (buf, rest) =>
          match fcgiGetParams env (buf.take hdr.len) with
          | none => none
          | some env => readParams env rest
    else some (env, rest)
termination_by stream.length
decreasing_by
  have hh := length_readHeader _hh
  unfold safeRead at _hs
  split_ifs at _hs
  cases _hs
  simp only [List.length_drop]
  omega

/-- The first header that is not of an empty `FCGI_STDIN` record. -/
def skipStdin (stream : Bytes) : Option (Header × Bytes) :=
  match _hh : readHeader stream with
  | none => none
  | some (hdr, rest) => if hdr.type = fcgiStdin ∧ hdr.len = 0 then skipStdin rest else some (hdr, rest)
termination_by stream.length
decreasing_by exact length_readHeader _hh

/-- The value of `FCGI_ROLE`. -/
def roleText (role : ℕ) : Option Bytes :=
  if role = 1 then some (ascii "RESPONDER")
  else if role = 2 then some (ascii "AUTHORIZER")
  else if role = 3 then some (ascii "FILTER")
  else none

/-- `fcgi_read_request`. -/
def fcgiReadRequest (stream : Bytes) : Option Request :=
  match skipStdin stream with
  | none => none
  | some (hdr, rest) =>
    if fcgiMaxLength < hdr.len + hdr.paddingLength.toNat then none
    else if hdr.type = fcgiBeginRequest ∧ hdr.len = 8 then
      match safeRead rest (hdr.len + hdr.paddingLength.toNat) with
      | none => none
      | some (buf, rest) =>
        match roleText ((buf.getD 0 0).toNat <<< 8 + (buf.getD 1 0).toNat) with
        | none => none
        | some val =>
          match readParams (update [] (ascii "FCGI_ROLE") val) rest with
          | none => none
          | some (env, rest) =>
            some ⟨hdr.requestIdB1.toNat <<< 8 + hdr.requestIdB0.toNat, (buf.getD 2 0) &&& 1 ≠ 0, env, rest⟩
    else none

/-! ### What a client sends -/

/-- A length, in one byte or in four. -/
def encodeLen (long : Bool) (n : ℕ) : Bytes :=
  if n < 128 ∧ !long then [UInt8.ofNat n]
  else [UInt8.ofNat (128 + n / 2 ^ 24), UInt8.ofNat (n / 2 ^ 16), UInt8.ofNat (n / 2 ^ 8), UInt8.ofNat n]

/-- A pair, and which of its lengths are written in four bytes though they would fit into one. -/
structure Pair where
  /-- The name. -/
  name : Bytes
  /-- The value. -/
  value : Bytes
  /-- The length of the name is written in four bytes in any case. -/
  longName : Bool
  /-- The length of the value is written in four bytes in any case. -/
  longValue : Bool
  /-- A length has 31 bits. -/
  name_length : name.length < 2 ^ 31
  /-- A length has 31 bits. -/
  value_length : value.length < 2 ^ 31

open Pair

/-- A pair as it is sent. -/
def Pair.encode (p : Pair) : Bytes :=
  encodeLen p.longName p.name.length ++ encodeLen p.longValue p.value.length ++ p.name ++ p.value

/-- Pairs as they are sent. -/
def encodePairs (ps : List Pair) : Bytes := ps.flatMap encode

/-- The environment of these pairs. -/
def envOf (ps : List Pair) : List (Bytes × Bytes) := ps.map fun p => (p.name, p.value)

/-- A record with a piece of the parameters. -/
structure ParamsRecord where
  /-- The piece. -/
  content : Bytes
  /-- The padding. -/
  padding : Bytes
  /-- An empty record ends the parameters. -/
  nonempty : content ≠ []
  /-- The content is at most `FCGI_MAX_LENGTH` bytes long, -/
  content_length : content.length ≤ fcgiMaxLength
  /-- and the length of the padding has one byte. -/
  padding_length : padding.length < 256

open ParamsRecord

/-- A record as it is sent, in the request with the number `id`. -/
def encodeRecord (type : UInt8) (id : UInt8 × UInt8) (content padding : Bytes) : Bytes :=
  [1, type, id.1, id.2, UInt8.ofNat (content.length / 256), UInt8.ofNat content.length,
    UInt8.ofNat padding.length, 0] ++ content ++ padding

/-- How a request begins. -/
structure BeginRequest where
  /-- The number of the request. -/
  id : UInt8 × UInt8
  /-- The role, and its name. -/
  role : Fin 3
  /-- The flags. -/
  flags : UInt8
  /-- Not used. -/
  reserved : Vector UInt8 5
  /-- The padding. -/
  padding : Bytes
  /-- The length of the padding has one byte. -/
  padding_length : padding.length < 256

variable (b : BeginRequest)

/-- The value of `FCGI_ROLE`. -/
def BeginRequest.roleValue : Bytes :=
  match b.role with
  | 0 => ascii "RESPONDER"
  | 1 => ascii "AUTHORIZER"
  | 2 => ascii "FILTER"

/-- The content of the record that begins the request. -/
def BeginRequest.content : Bytes :=
  [0, UInt8.ofNat (b.role.val + 1), b.flags] ++ b.reserved.toList

/-- A request as it is sent: how it begins, its parameters in these records, and what follows. -/
def encodeRequest (rs : List ParamsRecord) (padding rest : Bytes) : Bytes :=
  encodeRecord fcgiBeginRequest b.id b.content b.padding ++
    (rs.flatMap fun r => encodeRecord fcgiParams b.id r.content r.padding) ++
    (encodeRecord fcgiParams b.id [] padding ++ rest)

/-- Each record has whole pairs. -/
def WholePairs (ps : List Pair) (rs : List ParamsRecord) : Prop :=
  ∃ groups : List (List Pair), groups.flatten = ps ∧ rs.map content = groups.map encodePairs

/-! ### One length -/

open List

theorem lenBytes_eq (a : ℕ) {b c d : ℕ} (hb : b < 2 ^ 8) (hc : c < 2 ^ 8) (hd : d < 2 ^ 8) :
    (a <<< 24) ||| (b <<< 16) ||| (c <<< 8) ||| d = a * 2 ^ 24 + b * 2 ^ 16 + c * 2 ^ 8 + d := by
  have h₁ : (a <<< 24) ||| (b <<< 16) = (a * 2 ^ 8 + b) <<< 16 := by
    rw [← Nat.shiftLeft_add_eq_or_of_lt (by rw [Nat.shiftLeft_eq]; omega) a]
    omega
  have h₂ : ((a * 2 ^ 8 + b) <<< 16) ||| (c <<< 8) = ((a * 2 ^ 8 + b) * 2 ^ 8 + c) <<< 8 := by
    rw [← Nat.shiftLeft_add_eq_or_of_lt (by rw [Nat.shiftLeft_eq]; omega)]
    omega
  rw [h₁, h₂, ← Nat.shiftLeft_add_eq_or_of_lt hd, Nat.shiftLeft_eq]
  omega

theorem fcgiGetParamsLen_short {a : UInt8} (ha : a < 128) (p : Bytes) :
    fcgiGetParamsLen (a :: p) = some (a.toNat, p) := by
  simp [fcgiGetParamsLen, ha]

theorem fcgiGetParamsLen_long {a : UInt8} (ha : ¬ a < 128) (b c d : UInt8) (p : Bytes) :
    fcgiGetParamsLen (a :: b :: c :: d :: p) =
      some (((a.toNat &&& 0x7f) <<< 24) ||| (b.toNat <<< 16) ||| (c.toNat <<< 8) ||| d.toNat, p) := by
  simp [fcgiGetParamsLen, ha]

/-- A length is read back. -/
theorem fcgiGetParamsLen_encodeLen (hn : n < 2 ^ 31) (long : Bool) (p : Bytes) :
    fcgiGetParamsLen (encodeLen long n ++ p) = some (n, p) := by
  unfold encodeLen
  split_ifs with hshort
  · have hlt : UInt8.ofNat n < 128 := by
      rw [UInt8.lt_iff_toNat_lt, UInt8.toNat_ofNat']
      simp only [UInt8.reduceToNat]
      omega
    rw [singleton_append, fcgiGetParamsLen_short hlt, UInt8.toNat_ofNat']
    simp only [some.injEq, Prod.mk.injEq, and_true]
    omega
  · have hlong : ¬ UInt8.ofNat (128 + n / 2 ^ 24) < 128 := by
      rw [UInt8.lt_iff_toNat_lt, UInt8.toNat_ofNat']
      simp only [UInt8.reduceToNat]
      omega
    have hmask : (UInt8.ofNat (128 + n / 2 ^ 24)).toNat &&& 0x7f = n / 2 ^ 24 := by
      rw [UInt8.toNat_ofNat', Nat.and_two_pow_sub_one_eq_mod _ 7]
      omega
    simp only [cons_append, nil_append, fcgiGetParamsLen_long hlong, hmask]
    rw [lenBytes_eq _ (UInt8.toNat_lt _) (UInt8.toNat_lt _) (UInt8.toNat_lt _)]
    simp only [UInt8.toNat_ofNat', some.injEq, Prod.mk.injEq, and_true]
    omega

/-- What is behind a length does not change it. -/
theorem fcgiGetParamsLen_append {p p' : Bytes} (h : fcgiGetParamsLen p = some (n, p')) (t : Bytes) :
    fcgiGetParamsLen (p ++ t) = some (n, p' ++ t) := by
  unfold fcgiGetParamsLen at h
  split at h
  · cases h
  split_ifs at h with hshort
  · cases h
    exact fcgiGetParamsLen_short hshort _
  · split at h
    · cases h
      exact fcgiGetParamsLen_long hshort _ _ _ _
    · cases h

/-- A length at the beginning of what is sent is the one that was written. -/
theorem fcgiGetParamsLen_of_append {c c' t u : Bytes} {m : ℕ} {long : Bool} (hn : n < 2 ^ 31)
    (h : fcgiGetParamsLen c = some (m, c')) (heq : c ++ t = encodeLen long n ++ u) : m = n ∧ c' ++ t = u := by
  have hext := fcgiGetParamsLen_append h t
  rw [heq, fcgiGetParamsLen_encodeLen hn] at hext
  cases hext
  exact ⟨rfl, rfl⟩

/-! ### Pairs in a record -/

/-- The name up to its first NUL. -/
def Pair.effName (p : Pair) : Bytes := p.name.takeWhile (· ≠ 0)

/-- The value up to its first NUL. -/
def Pair.effValue (p : Pair) : Bytes := p.value.takeWhile (· ≠ 0)

/-- There are only NULs behind the first NUL of the name. -/
def Pair.Effective (p : Pair) : Prop := (p.name.drop p.effName.length).all (· == 0)

instance (p : Pair) : Decidable p.Effective := inferInstanceAs (Decidable (_ = true))

variable (p : Pair)

theorem Pair.effName_isPrefix : p.effName <+: p.name := takeWhile_prefix _

theorem fcgiParamGetEffLen_name : fcgiParamGetEffLen p.name = if p.Effective then some p.effName.length else none := rfl

theorem encodeLen_ne_nil (long : Bool) (n : ℕ) : encodeLen long n ≠ [] := by
  unfold encodeLen
  split_ifs <;> simp

theorem Pair.encode_ne_nil : p.encode ≠ [] := by
  unfold encode
  simp [encodeLen_ne_nil]

section Pairs

variable {env env' : List (Bytes × Bytes)}

/-- A whole pair at the beginning. -/
theorem fcgiGetParams_pair (p : Pair) (c : Bytes) (hlen : p.name.length + p.value.length ≤ intMax) :
    fcgiGetParams env (p.encode ++ c) =
      if p.Effective then fcgiGetParams (update env p.effName p.effValue) c else none := by
  have hname : fcgiGetParamsLen (p.encode ++ c) =
      some (p.name.length, encodeLen p.longValue p.value.length ++ (p.name ++ (p.value ++ c))) := by
    simp only [encode, append_assoc]
    exact fcgiGetParamsLen_encodeLen p.name_length ..
  have hvalue := fcgiGetParamsLen_encodeLen p.value_length p.longValue (p.name ++ (p.value ++ c))
  have hfits : ¬ (intMax - p.value.length < p.name.length ∨
      (p.name ++ (p.value ++ c)).length < p.name.length + p.value.length) := by
    simp only [length_append]
    omega
  have heff : (p.name ++ (p.value ++ c)).take p.effName.length = p.effName := by
    obtain ⟨t, ht⟩ := p.effName_isPrefix
    rw [← ht, append_assoc, take_left]
  have hrest : (p.name ++ (p.value ++ c)).drop (p.name.length + p.value.length) = c := by
    rw [← drop_drop, drop_left, drop_left]
  rw [fcgiGetParams, if_neg (by simp [p.encode_ne_nil])]
  split <;> rename_i h <;> cases hname.symm.trans h
  split <;> rename_i h <;> cases hvalue.symm.trans h
  rw [if_neg hfits, take_left, fcgiParamGetEffLen_name]
  by_cases hp : p.Effective
  · simp only [hp, if_true]
    rw [heff, drop_left, take_left, hrest]
    rfl
  · simp [hp]

/-- What a call finds at the beginning of a pair that has been cut off, or that it takes whole. -/
theorem exists_of_fcgiGetParams {p : Pair} {c t u : Bytes} (hc : c ≠ []) (heq : c ++ t = p.encode ++ u)
    (h : fcgiGetParams env c = some env') :
    ∃ c', c = p.encode ++ c' ∧ c' ++ t = u ∧ p.name.length + p.value.length ≤ intMax := by
  rw [fcgiGetParams, if_neg hc] at h
  simp only [encode, append_assoc] at heq
  split at h
  · cases h
  next nameLen c₁ hname =>
  obtain ⟨rfl, heq₁⟩ := fcgiGetParamsLen_of_append p.name_length hname heq
  split at h
  · cases h
  next valLen c₂ hvalue =>
  obtain ⟨rfl, heq₂⟩ := fcgiGetParamsLen_of_append p.value_length hvalue heq₁
  split_ifs at h with hfits
  -- the name and the value are in the record
  have hle : (p.name ++ p.value).length ≤ c₂.length := by
    rw [length_append]
    omega
  have hpre : p.name ++ p.value <+: c₂ := by
    refine prefix_of_prefix_length_le ⟨u, ?_⟩ ⟨t, rfl⟩ hle
    rw [heq₂, append_assoc]
  obtain ⟨c', rfl⟩ := hpre
  have hu : c' ++ t = u := by
    rw [append_assoc, append_assoc] at heq₂
    exact append_cancel_left (append_cancel_left heq₂)
  have hsum : p.name.length + p.value.length ≤ intMax := by
    have hvalue := p.value_length
    simp only [intMax] at hfits ⊢
    omega
  refine ⟨c', ?_, hu, hsum⟩
  rw [← hu] at heq
  simp only [encode, append_assoc]
  refine (append_left_inj t).mp ?_
  simpa only [append_assoc] using heq

end Pairs

/-- The environment that is made of these pairs. -/
def effEnv (ps : List Pair) : List (Bytes × Bytes) := ps.map fun p => (p.effName, p.effValue)

theorem encodePairs_cons (ps : List Pair) : encodePairs (p :: ps) = p.encode ++ encodePairs ps := rfl

theorem encodePairs_flatten (groups : List (List Pair)) :
    encodePairs groups.flatten = (groups.map encodePairs).flatten := by
  induction groups with
  | nil => rfl
  | cons ps groups ih => exact flatMap_append.trans (congrArg _ ih)

theorem updateAll_effEnv_append (env : List (Bytes × Bytes)) (ps₁ ps₂ : List Pair) :
    updateAll env (effEnv (ps₁ ++ ps₂)) = updateAll (updateAll env (effEnv ps₁)) (effEnv ps₂) := by
  rw [effEnv, map_append, updateAll_append]
  rfl

theorem length_encode : p.name.length + p.value.length ≤ p.encode.length := by
  simp only [encode, length_append]
  omega

variable {ps : List Pair}

/-- Whole pairs are read. -/
theorem fcgiGetParams_encodePairs (hlen : (encodePairs ps).length ≤ intMax) (heff : ∀ p ∈ ps, p.Effective)
    (env : List (Bytes × Bytes)) :
    fcgiGetParams env (encodePairs ps) = some (updateAll env (effEnv ps)) := by
  induction ps generalizing env with
  | nil =>
    rw [fcgiGetParams]
    exact if_pos rfl
  | cons p ps ih =>
    obtain ⟨hp, hps⟩ := forall_mem_cons.mp heff
    have hle := length_encode p
    rw [encodePairs_cons, length_append] at hlen
    rw [encodePairs_cons, fcgiGetParams_pair p _ (by omega), if_pos hp, ih (by omega) hps]
    rfl

/-- **What is read of a record** that stands where pairs are sent: it has to be whole pairs. -/
theorem exists_pairs_of_fcgiGetParams {c t : Bytes} {env env' : List (Bytes × Bytes)} (heq : c ++ t = encodePairs ps)
    (h : fcgiGetParams env c = some env') :
    ∃ ps₁ ps₂, ps = ps₁ ++ ps₂ ∧ c = encodePairs ps₁ ∧ t = encodePairs ps₂ ∧ (∀ p ∈ ps₁, p.Effective) ∧
      env' = updateAll env (effEnv ps₁) := by
  induction ps generalizing c env with
  | nil =>
    obtain ⟨rfl, rfl⟩ := append_eq_nil_iff.mp heq
    rw [fcgiGetParams, if_pos rfl] at h
    cases h
    exact ⟨[], [], rfl, rfl, rfl, by simp, rfl⟩
  | cons p ps ih =>
    by_cases hc : c = []
    · subst hc
      rw [fcgiGetParams, if_pos rfl] at h
      cases h
      exact ⟨[], p :: ps, rfl, rfl, heq, by simp, rfl⟩
    · obtain ⟨c', rfl, heq', hsum⟩ := exists_of_fcgiGetParams hc heq h
      rw [fcgiGetParams_pair p c' hsum] at h
      split_ifs at h with hp
      obtain ⟨ps₁, ps₂, rfl, rfl, ht, hps, rfl⟩ := ih heq' h
      exact ⟨p :: ps₁, ps₂, rfl, rfl, ht, forall_mem_cons.mpr ⟨hp, hps⟩, rfl⟩

/-! ### The records of a request -/

theorem len_encodeRecord (hn : n ≤ fcgiMaxLength) :
    ((UInt8.ofNat (n / 256)).toNat <<< 8) ||| (UInt8.ofNat n).toNat = n := by
  rw [← Nat.shiftLeft_add_eq_or_of_lt (UInt8.toNat_lt _), Nat.shiftLeft_eq, UInt8.toNat_ofNat', UInt8.toNat_ofNat']
  simp only [fcgiMaxLength] at hn
  omega

theorem readHeader_encodeRecord (type : UInt8) (id : UInt8 × UInt8) {content padding : Bytes} (rest : Bytes)
    (hc : content.length ≤ fcgiMaxLength) (hp : padding.length < 256) :
    ∃ hdr, readHeader (encodeRecord type id content padding ++ rest) = some (hdr, content ++ (padding ++ rest)) ∧
      hdr.type = type ∧ hdr.len = content.length ∧ hdr.paddingLength.toNat = padding.length := by
  refine ⟨⟨1, type, id.1, id.2, UInt8.ofNat (content.length / 256), UInt8.ofNat content.length,
    UInt8.ofNat padding.length, 0⟩, ?_, rfl, ?_, ?_⟩
  · simp only [encodeRecord, append_assoc, cons_append, nil_append, readHeader]
    exact if_neg (by decide)
  · simp only [Header.len]
    exact len_encodeRecord hc
  · simp only
    exact UInt8.toNat_ofNat_of_lt' hp

theorem safeRead_append (a b : Bytes) : safeRead (a ++ b) a.length = some (a, b) := by
  unfold safeRead
  rw [if_pos (by simp), take_left, drop_left]

section Records

variable {env env' : List (Bytes × Bytes)} {id : UInt8 × UInt8} {rest : Bytes}

/-- One record of parameters. -/
theorem readParams_record (r : ParamsRecord) :
    readParams env (encodeRecord fcgiParams id r.content r.padding ++ rest) =
      if fcgiMaxLength < r.content.length + r.padding.length then none
      else (fcgiGetParams env r.content).bind fun env => readParams env rest := by
  obtain ⟨hdr, hread, htype, hlen, hpad⟩ :=
    readHeader_encodeRecord fcgiParams id rest r.content_length r.padding_length
  have hpos : 0 < r.content.length := length_pos_iff.mpr r.nonempty
  have hsafe : safeRead (r.content ++ (r.padding ++ rest)) (hdr.len + hdr.paddingLength.toNat) =
      some (r.content ++ r.padding, rest) := by
    rw [hlen, hpad, ← append_assoc, ← length_append, safeRead_append]
  rw [readParams]
  split <;> rename_i h <;> cases hread.symm.trans h
  rw [if_pos ⟨htype, hlen ▸ hpos⟩, hlen, hpad]
  split_ifs with hmax
  · rfl
  rw [hlen, hpad] at hsafe
  split <;> rename_i h <;> cases hsafe.symm.trans h
  rw [take_left]
  cases fcgiGetParams env r.content <;> rfl

/-- The empty record. -/
theorem readParams_end {padding : Bytes} (hp : padding.length < 256) :
    readParams env (encodeRecord fcgiParams id [] padding ++ rest) = some (env, padding ++ rest) := by
  have hempty : ([] : Bytes).length ≤ fcgiMaxLength := Nat.zero_le _
  obtain ⟨hdr, hread, htype, hlen, hpad⟩ :=
    readHeader_encodeRecord fcgiParams id rest hempty hp
  rw [readParams]
  split <;> rename_i h <;> cases hread.symm.trans h
  rw [if_neg (by simp [hlen])]
  rfl

/-- **A run over the records**: it comes to the end just when the records have whole pairs. -/
theorem readParams_iff {rs : List ParamsRecord} {last : Bytes} {s : Bytes}
    (heq : (rs.map content).flatten = encodePairs ps)
    (hlast : ∀ env, readParams env last = some (env, rest)) :
    readParams env ((rs.flatMap fun r => encodeRecord fcgiParams id r.content r.padding) ++ last) =
        some (env', s) ↔
      WholePairs ps rs ∧ (∀ r ∈ rs, r.content.length + r.padding.length ≤ fcgiMaxLength) ∧
        (∀ p ∈ ps, p.Effective) ∧ env' = updateAll env (effEnv ps) ∧ s = rest := by
  induction rs generalizing ps env with
  | nil =>
    have hnil : ps = [] := by
      cases ps with
      | nil => rfl
      | cons p ps => simp [encodePairs_cons, p.encode_ne_nil] at heq
    subst hnil
    have hwhole : WholePairs [] [] := ⟨[], rfl, rfl⟩
    simp only [flatMap_nil, nil_append, hlast, some.injEq, Prod.mk.injEq, hwhole, true_and,
      not_mem_nil, false_implies, implies_true]
    exact ⟨fun h => ⟨h.1.symm, h.2.symm⟩, fun h => ⟨h.1.symm, h.2.symm⟩⟩
  | cons r rs ih =>
    rw [flatMap_cons, append_assoc, readParams_record]
    rw [map_cons, flatten_cons] at heq
    constructor
    · intro h
      split_ifs at h with hmax
      obtain ⟨env₁, henv₁, hrun⟩ := bind_eq_some_iff.mp h
      obtain ⟨ps₁, ps₂, rfl, hc, ht, heff₁, rfl⟩ := exists_pairs_of_fcgiGetParams heq henv₁
      obtain ⟨⟨groups, rfl, hgroups⟩, hfits, heff₂, rfl, rfl⟩ := (ih ht).mp hrun
      refine ⟨⟨ps₁ :: groups, rfl, ?_⟩, ?_, ?_, ?_, rfl⟩
      · rw [map_cons, map_cons, hc, hgroups]
      · exact forall_mem_cons.mpr ⟨by omega, hfits⟩
      · exact forall_mem_append.mpr ⟨heff₁, heff₂⟩
      · exact (updateAll_effEnv_append ..).symm
    · rintro ⟨⟨groups, rfl, hgroups⟩, hfits, heff, rfl, rfl⟩
      cases groups with
      | nil => cases hgroups
      | cons ps₁ groups =>
        obtain ⟨hc, hgroups⟩ := List.cons.inj hgroups
        obtain ⟨hr, hrs⟩ := forall_mem_cons.mp hfits
        have ht : (rs.map content).flatten = encodePairs groups.flatten := by
          rw [hgroups, encodePairs_flatten]
        have hlen : (encodePairs ps₁).length ≤ intMax := by
          rw [← hc]
          exact r.content_length.trans (by decide)
        obtain ⟨heff₁, heff₂⟩ := forall_mem_append.mp heff
        rw [if_neg (by omega), hc, fcgiGetParams_encodePairs hlen heff₁, bind_some]
        exact (ih ht).mpr ⟨⟨groups, rfl, hgroups⟩, hrs, heff₂, updateAll_effEnv_append .., rfl⟩

end Records

/-! ### A request -/

theorem skipStdin_encodeRecord {type : UInt8} (id : UInt8 × UInt8) {content padding : Bytes} (rest : Bytes)
    (htype : type ≠ fcgiStdin) (hc : content.length ≤ fcgiMaxLength) (hp : padding.length < 256) :
    skipStdin (encodeRecord type id content padding ++ rest) =
      readHeader (encodeRecord type id content padding ++ rest) := by
  obtain ⟨hdr, hread, hhdr, -⟩ := readHeader_encodeRecord type id rest hc hp
  rw [skipStdin]
  split
  · next h => rw [h]
  · next h =>
    rw [hread] at h
    cases h
    rw [if_neg fun hstdin => htype (hhdr.symm.trans hstdin.1), hread]

variable (b : BeginRequest)

theorem BeginRequest.length_content : b.content.length = 8 := by simp [BeginRequest.content]

theorem BeginRequest.roleText_content :
    roleText (((b.content ++ b.padding).getD 0 0).toNat <<< 8 + ((b.content ++ b.padding).getD 1 0).toNat) =
      some b.roleValue := by
  have hbytes : (b.content ++ b.padding).getD 0 0 = 0 ∧
      (b.content ++ b.padding).getD 1 0 = UInt8.ofNat (b.role.val + 1) := ⟨rfl, rfl⟩
  have hrole : ∀ role : Fin 3, roleText ((0 : UInt8).toNat <<< 8 + (UInt8.ofNat (role.val + 1)).toNat) =
      some (match role with
        | 0 => ascii "RESPONDER"
        | 1 => ascii "AUTHORIZER"
        | 2 => ascii "FILTER") := by decide
  rw [hbytes.1, hbytes.2, hrole]
  rfl

/-- After the record that begins the request, its parameters are read. -/
theorem fcgiReadRequest_begin (rest : Bytes) :
    ∃ id keep, fcgiReadRequest (encodeRecord fcgiBeginRequest b.id b.content b.padding ++ rest) =
      (readParams [(ascii "FCGI_ROLE", b.roleValue)] rest).map fun r => ⟨id, keep, r.1, r.2⟩ := by
  have hc : b.content.length ≤ fcgiMaxLength := by
    rw [b.length_content]
    decide
  obtain ⟨hdr, hread, htype, hlen, hpad⟩ :=
    readHeader_encodeRecord fcgiBeginRequest b.id rest hc b.padding_length
  rw [b.length_content] at hlen
  have hsafe : safeRead (b.content ++ (b.padding ++ rest)) (8 + b.padding.length) =
      some (b.content ++ b.padding, rest) := by
    rw [← b.length_content, ← append_assoc, ← length_append, safeRead_append]
  have hmax : ¬ fcgiMaxLength < 8 + b.padding.length := by
    have := b.padding_length
    simp only [fcgiMaxLength]
    omega
  refine ⟨hdr.requestIdB1.toNat <<< 8 + hdr.requestIdB0.toNat, ((b.content ++ b.padding).getD 2 0) &&& 1 ≠ 0, ?_⟩
  unfold fcgiReadRequest
  rw [skipStdin_encodeRecord b.id rest (by decide) hc b.padding_length, hread]
  simp only [hlen, hpad, hmax, htype, hsafe, b.roleText_content, and_self, if_true, if_false]
  have hrole : update [] (ascii "FCGI_ROLE") b.roleValue = [(ascii "FCGI_ROLE", b.roleValue)] := rfl
  rw [hrole]
  cases readParams [(ascii "FCGI_ROLE", b.roleValue)] rest <;> rfl

theorem takeWhile_ne_zero_iff (s : Bytes) : s.takeWhile (· ≠ 0) = s ↔ 0 ∉ s := by
  rw [takeWhile_eq_self_iff]
  exact ⟨fun h h0 => absurd (h 0 h0) (by decide), fun h c hc => by simpa using fun h0 : c = 0 => h (h0 ▸ hc)⟩

theorem Pair.effective_of_not_mem {p : Pair} (h : 0 ∉ p.name) : p.effName = p.name ∧ p.Effective := by
  have heff : p.effName = p.name := (takeWhile_ne_zero_iff _).mpr h
  exact ⟨heff, by simp [Pair.Effective, heff]⟩

theorem BeginRequest.zero_notMem_roleValue : 0 ∉ b.roleValue := by
  unfold BeginRequest.roleValue
  split <;> decide

/-- The environment is that of the pairs just when no name has a NUL in it and no value that is left. -/
theorem updateAll_effEnv_eq_iff {role : Bytes} (hrole : 0 ∉ role) :
    updateAll [(ascii "FCGI_ROLE", role)] (effEnv ps) = updateAll [(ascii "FCGI_ROLE", role)] (envOf ps) ↔
      (∀ p ∈ ps, 0 ∉ p.name) ∧ ∀ kv ∈ updateAll [(ascii "FCGI_ROLE", role)] (envOf ps), 0 ∉ kv.2 := by
  have hvalues (h : ∀ p ∈ ps, 0 ∉ p.name) : updateAll [(ascii "FCGI_ROLE", role)] (effEnv ps) =
      (updateAll [(ascii "FCGI_ROLE", role)] (envOf ps)).map (Prod.map id fun v => v.takeWhile (· ≠ 0)) := by
    rw [← updateAll_map]
    congr 1
    · exact congrArg (fun v => [(_, v)]) ((takeWhile_ne_zero_iff _).mpr hrole).symm
    · rw [envOf, List.map_map]
      exact map_congr_left fun p hp => congrArg (·, _) (effective_of_not_mem (h p hp)).1
  have hcut (env : List (Bytes × Bytes)) :
      env.map (Prod.map id fun v => v.takeWhile (· ≠ 0)) = env ↔ ∀ kv ∈ env, 0 ∉ kv.2 := by
    nth_rewrite 2 [← map_id env]
    rw [map_inj_left]
    refine forall₂_congr fun kv _ => ?_
    rw [← takeWhile_ne_zero_iff, id, Prod.ext_iff]
    exact and_iff_right rfl
  constructor
  · intro h
    refine and_iff_left_of_imp (fun hnames => (hcut _).mp ((hvalues hnames).symm.trans h)) |>.mpr ?_
    intro p hp hzero
    have hkey : p.name ∈ (updateAll [(ascii "FCGI_ROLE", role)] (envOf ps)).map Prod.fst := by
      rw [mem_keys_updateAll]
      exact .inr (mem_map.mpr ⟨(p.name, p.value), mem_map.mpr ⟨p, hp, rfl⟩, rfl⟩)
    -- the names in the environment that is made have no NUL
    rw [← h, mem_keys_updateAll] at hkey
    rcases hkey with hkey | hkey
    · have hname : p.name = ascii "FCGI_ROLE" := mem_singleton.mp hkey
      rw [hname] at hzero
      exact absurd hzero (by decide)
    · obtain ⟨_, hq, hname⟩ := mem_map.mp hkey
      obtain ⟨q, -, rfl⟩ := mem_map.mp hq
      rw [← hname] at hzero
      simpa using mem_takeWhile_imp hzero
  · rintro ⟨hnames, hleft⟩
    exact (hvalues hnames).trans ((hcut _).mpr hleft)

/-- **When the parameters come out whole**: the records have whole pairs, each record is at most
`FCGI_MAX_LENGTH` bytes long with its padding, and no name has a NUL in it, and no value that is not overridden. -/
theorem fcgiReadRequest_env_iff (b : BeginRequest) (ps : List Pair) (rs : List ParamsRecord)
    (hcut : (rs.map content).flatten = encodePairs ps) (padding rest : Bytes)
    (hpadding : padding.length < 256) :
    (∃ req, fcgiReadRequest (encodeRequest b rs padding rest) = some req ∧
        req.env = updateAll [(ascii "FCGI_ROLE", b.roleValue)] (envOf ps)) ↔
      WholePairs ps rs ∧ (∀ r ∈ rs, r.content.length + r.padding.length ≤ fcgiMaxLength) ∧
        (∀ p ∈ ps, 0 ∉ p.name) ∧
        ∀ kv ∈ updateAll [(ascii "FCGI_ROLE", b.roleValue)] (envOf ps), 0 ∉ kv.2 := by
  obtain ⟨id, keep, hbegin⟩ := fcgiReadRequest_begin b
    ((rs.flatMap fun r => encodeRecord fcgiParams b.id r.content r.padding) ++
      (encodeRecord fcgiParams b.id [] padding ++ rest))
  have hlast : ∀ env, readParams env (encodeRecord fcgiParams b.id [] padding ++ rest) =
      some (env, padding ++ rest) := fun env => readParams_end hpadding
  rw [encodeRequest, append_assoc, hbegin]
  constructor
  · rintro ⟨req, hreq, henv⟩
    obtain ⟨⟨env, s⟩, hrun, rfl⟩ := map_eq_some_iff.mp hreq
    obtain ⟨hwhole, hfits, -, rfl, -⟩ := (readParams_iff hcut hlast).mp hrun
    exact ⟨hwhole, hfits, (updateAll_effEnv_eq_iff b.zero_notMem_roleValue).mp henv⟩
  · rintro ⟨hwhole, hfits, hnul⟩
    have heff : ∀ p ∈ ps, p.Effective := fun p hp => (effective_of_not_mem (hnul.1 p hp)).2
    refine ⟨_, map_eq_some_iff.mpr
      ⟨_, (readParams_iff hcut hlast).mpr ⟨hwhole, hfits, heff, rfl, rfl⟩, rfl⟩, ?_⟩
    exact (updateAll_effEnv_eq_iff b.zero_notMem_roleValue).mpr hnul

/-- The request with the number 1, for a responder. -/
def responderRequest : BeginRequest := ⟨(0, 1), 0, 0, .replicate 5 0, [], by decide⟩

/-- The pair `A`, `B`. -/
def pairAB : Pair := ⟨ascii "A", ascii "B", false, false, by decide, by decide⟩

/-- A pair that is overridden, with another one in its record, and the pair that overrides it in the next record. -/
theorem fcgiReadRequest_env_two_records :
    ∃ req, fcgiReadRequest (encodeRequest responderRequest
        [⟨ascii "\x01\x02ANO\x01\x01CD", [0, 0], by decide, by decide, by decide⟩,
          ⟨pairAB.encode, [], by decide, by decide, by decide⟩] [0] []) = some req ∧
      req.env = [(ascii "FCGI_ROLE", ascii "RESPONDER"), (ascii "A", ascii "B"), (ascii "C", ascii "D")] := by
  let first : List Pair := [⟨ascii "A", ascii "NO", false, false, by decide, by decide⟩,
    ⟨ascii "C", ascii "D", false, false, by decide, by decide⟩]
  refine (fcgiReadRequest_env_iff responderRequest (first ++ [pairAB]) _ ?_ [0] [] (by decide)).mpr ⟨?_, ?_, ?_, ?_⟩
  · rfl
  · exact ⟨[first, [pairAB]], rfl, rfl⟩
  · decide
  · decide
  · decide

/-- The same pair, cut behind its name: the call fails. -/
theorem fcgiReadRequest_cut_fails :
    ∃ rs : List ParamsRecord, (rs.map content).flatten = encodePairs [pairAB] ∧
      (∀ r ∈ rs, r.padding = []) ∧ fcgiReadRequest (encodeRequest responderRequest rs [] []) = none := by
  let name : ParamsRecord := ⟨[1, 1, 65], [], by decide, by decide, by decide⟩
  let value : ParamsRecord := ⟨[66], [], by decide, by decide, by decide⟩
  have hname : ∀ env, fcgiGetParams env name.content = none := by
    intro env
    rw [fcgiGetParams]
    simp [name, fcgiGetParamsLen, intMax]
  refine ⟨[name, value], rfl, by simp [name, value], ?_⟩
  obtain ⟨id, keep, hbegin⟩ := fcgiReadRequest_begin responderRequest
    (([name, value].flatMap fun r => encodeRecord fcgiParams responderRequest.id r.content r.padding) ++
      (encodeRecord fcgiParams responderRequest.id [] [] ++ []))
  rw [encodeRequest, append_assoc, hbegin, flatMap_cons, append_assoc, readParams_record,
    if_neg (by decide), hname]
  rfl

end PhpSandbox.Fpm
