import PhpSandbox.Codec.Base64
import PhpSandbox.Codec.Url
import PhpSandbox.Lib.OrderedMap
import PhpSandbox.Zend.Symtable

/-!
# Reading a daemon response

`php_parse_response` (`ext/daemon/daemon.c`) reads records `key:type:value`, one
a line, into an array. The value is base64 (`b`), URL-encoded (`u`) or plain (`p`).

## The model

A pointer into the response is the memory from there on: `response++` is the
tail, and `php_url_decode` replaces the memory at the value. The buffer is zeroed
before it is received into, so a read past the list gives NUL and a NUL written
there changes nothing.

## What is proved

`parseRecord_line` is one round of the state machine over a record, and
`phpParseResponse_encode` a run of it over a list of them. The NUL that
`php_url_decode` puts after a value lands on the newline when the encoding was no
longer than the value, and the parser takes it for the end of the response: the
records after the first such one are lost. `phpParseResponse_encode_eq_iff` says
for which lists that shows.
-/

namespace PhpSandbox.Daemon

open Lib Codec Zend List

variable (c : UInt8)

/-- `IS_KEY_CHAR`. -/
def isKeyChar : Bool :=
  (48 ≤ c && c ≤ 57) || (97 ≤ c && c ≤ 122) || (65 ≤ c && c ≤ 90) || c == 45 || c == 95

/-- `IS_VALUE_CHAR`. -/
def isValueChar : Bool := 33 ≤ c && c ≤ 126 && c != 58

/-- `*response`. -/
def deref (response : Bytes) : UInt8 := response.headD 0

/-- The encodings of a value. -/
inductive EncType where
  /-- base64. -/
  | b
  /-- URL encoding. -/
  | u
  /-- Plain text. -/
  | p
  deriving DecidableEq

/-- The letter of an encoding. -/
def EncType.char : EncType → UInt8
  | .b => 98
  | .u => 117
  | .p => 112

/-- The `switch` of `state_type`. -/
def EncType.ofChar : Option EncType :=
  if c = 98 then some .b
  else if c = 117 then some .u
  else if c = 112 then some .p
  else none

/-- The warnings before `return 0`. -/
inductive ResponseWarning where
  /-- `ASSERT_RESPONSE_CHAR`. -/
  | unexpectedChar (got expected : UInt8)
  /-- The `default` of `state_type`. -/
  | unimplementedType
  deriving DecidableEq

/-- The digits `%x` prints for a `char`, which is signed. -/
def hexOfChar : Bytes :=
  (Nat.toDigits 16 (if c < 128 then c.toNat else 0xffffff00 + c.toNat)).map fun d => UInt8.ofNat d.toNat

/-- The text of a warning. -/
def ResponseWarning.message : ResponseWarning → Bytes
  | .unexpectedChar got expected =>
    ascii "Unexpected character in daemon response 0x" ++ hexOfChar got ++ ascii " (" ++
      expected :: ascii " expected)"
  | .unimplementedType => ascii "Unimplemented response encoding type"

/-- How a record can fail to be read. -/
inductive RecordError where
  /-- A warning, and `return 0`. -/
  | warning (w : ResponseWarning)
  /-- `php_base64_decode` returned `NULL`: the value is copied from there. -/
  | nullValue

/-- `state_value`: the value at `response`, and the memory after it. -/
def parseValue (type : EncType) (response : Bytes) : Except RecordError (Bytes × Bytes) :=
  let len := (response.takeWhile isValueChar).length
  match type with
  | .b =>
    match phpBase64Decode response len with
    | some value => .ok (value, response.drop len)
    | none => .error .nullValue
  | .u =>
    let (response, valueLen) := phpUrlDecode response len
    .ok (response.take valueLen, response.drop len)
  | .p => .ok (response.take len, response.drop len)

/-- `state_key` to `state_crlf`: a record's key and value, and the memory after the newlines
that follow it. -/
def parseRecord (response : Bytes) : Except RecordError (Bytes × Bytes × Bytes) :=
  let key := response.takeWhile isKeyChar
  let response := response.dropWhile isKeyChar
  if deref response ≠ 58 then .error (.warning (.unexpectedChar (deref response) 58))
  else
    let response := response.tail
    match EncType.ofChar (deref response) with
    | none => .error (.warning .unimplementedType)
    | some type =>
      let response := response.tail
      if deref response ≠ 58 then .error (.warning (.unexpectedChar (deref response) 58))
      else
        match parseValue type response.tail with
        | .error e => .error e
        | .ok (value, response) => .ok (key, value, response.dropWhile (· == 10))

/-- A PHP array of strings. -/
abbrev PhpArray := List (ArrayKey × Bytes)

/-- `add_assoc_stringl`. -/
def addAssocStringl (returnValue : PhpArray) (key value : Bytes) : PhpArray :=
  update returnValue (symtableKey key) value

/-- How `php_parse_response` ends. -/
inductive ResponseOutcome where
  /-- `return 1`, with `return_value` filled. -/
  | parsed (returnValue : PhpArray)
  /-- `return 0` after a warning, with `return_value` filled so far. -/
  | rejected (returnValue : PhpArray) (w : ResponseWarning)
  /-- A value is copied from `NULL`. -/
  | nullValue
  deriving DecidableEq

/-! ### Every record shortens the response -/

theorem parseValue_length {type : EncType} {response value rest : Bytes}
    (h : parseValue type response = .ok (value, rest)) : rest.length ≤ response.length := by
  unfold parseValue at h
  cases type with
  | b =>
    simp only at h
    split at h
    · cases h
      rw [length_drop]
      omega
    · cases h
  | u =>
    cases h
    rw [length_drop, length_urlDecodeLoop]
    omega
  | p =>
    cases h
    rw [length_drop]
    omega

theorem length_dropWhile_le (p : UInt8 → Bool) (s : Bytes) : (s.dropWhile p).length ≤ s.length :=
  (dropWhile_suffix p).length_le

theorem length_tail_lt {s : Bytes} (h : deref s = 58) : s.tail.length < s.length := by
  cases s with
  | nil => cases h
  | cons c s => exact Nat.lt_succ_self _

variable {response key value rest : Bytes}

theorem parseRecord_length (h : parseRecord response = .ok (key, value, rest)) : rest.length < response.length := by
  unfold parseRecord at h
  simp only at h
  split at h
  · cases h
  next hcolon =>
  split at h
  · cases h
  split at h
  · cases h
  next hcolon' =>
  split at h
  · cases h
  next value' rest' hvalue =>
    cases h
    have h1 := length_dropWhile_le isKeyChar response
    have h2 := length_tail_lt (not_not.mp hcolon)
    have h3 := length_tail_lt (not_not.mp hcolon')
    have h4 := parseValue_length hvalue
    have h5 := length_dropWhile_le (· == 10) rest'
    simp only [length_tail] at h2 h3 h4
    omega

/-- `php_parse_response` from `state_key` on. -/
def parseResponseFrom (returnValue : PhpArray) (response : Bytes) : ResponseOutcome :=
  match _h : parseRecord response with
  | .error (.warning w) => .rejected returnValue w
  | .error .nullValue => .nullValue
  | .ok (key, value, rest) =>
    if deref rest ≠ 0 then parseResponseFrom (addAssocStringl returnValue key value) rest
    else .parsed (addAssocStringl returnValue key value)
termination_by response.length
decreasing_by exact parseRecord_length _h

/-- `php_parse_response`. -/
def phpParseResponse (response : Bytes) : ResponseOutcome := parseResponseFrom [] response

/-! ### Records -/

/-- A value in an encoding. -/
def EncType.enc : EncType → Bytes → Bytes
  | .b => phpBase64Encode
  | .u => phpUrlEncode
  | .p => id

/-- The line of a field. -/
def fieldLine (key : Bytes) (type : EncType) (value : Bytes) : Bytes :=
  key ++ 58 :: type.char :: 58 :: (type.enc value ++ [10])

/-- A record that the daemon may send. -/
structure Record where
  /-- The name of the field. -/
  key : Bytes
  /-- How the value is written. -/
  type : EncType
  /-- The value. -/
  value : Bytes
  /-- A field has a name, -/
  key_ne_nil : key ≠ []
  /-- of key characters. -/
  key_chars : key.all isKeyChar
  /-- A value that is written as it stands is made of value characters. -/
  value_chars : type = .p → value.all isValueChar

open Record

namespace Record

/-- The value as it is written. -/
def enc (r : Record) : Bytes := r.type.enc r.value

/-- The line of a record. -/
def line (r : Record) : Bytes := fieldLine r.key r.type r.value

/-- The records whose line the NUL of `php_url_decode` ends: a URL-encoded value of spaces,
letters, digits, `-`, `.` and `_` only. -/
def CutsOff (r : Record) : Prop := r.type = .u ∧ r.value.all fun c => c == 32 || !urlEscaped c

instance (r : Record) : Decidable r.CutsOff := inferInstanceAs (Decidable (_ ∧ _))

end Record

/-- A response: the lines of its records. -/
def encodeRecords (rs : List Record) : Bytes := rs.flatMap line

/-- The records of a response up to the first that cuts off the rest. -/
def survivors : List Record → List Record
  | [] => []
  | r :: rs => if r.CutsOff then [r] else r :: survivors rs

/-- The fields of a list of records. -/
def fields (rs : List Record) : List (Bytes × Bytes) := rs.map fun r => (r.key, r.value)

/-- The array that a list of records stands for: a later record overrides an earlier one
with the same key. -/
def arrayOf (fs : List (Bytes × Bytes)) : PhpArray :=
  updateAll [] (fs.map fun f => (symtableKey f.1, f.2))

/-! ### One record -/

variable (r : Record)

theorem enc_chars : ∀ c ∈ r.enc, isValueChar c := by
  intro c hc
  obtain ⟨key, type, value, hkey, hkeys, hvalue⟩ := r
  cases type with
  | b =>
    have hdigit : ∀ v < 64, isValueChar (base64Char v) := by decide +kernel
    rcases mem_phpBase64Encode _ _ hc with rfl | ⟨v, hv, rfl⟩
    · decide
    · exact hdigit v hv
  | u =>
    obtain ⟨h1, h2, h3⟩ := mem_phpUrlEncode hc
    simp [isValueChar, h1, h2, h3]
  | p => exact all_eq_true.mp (hvalue rfl) c hc

/-- A run of characters of a class, before one that is not of it, is what a scan over the
class reads. -/
theorem scan_append {p : UInt8 → Bool} {s : Bytes} (hs : ∀ c ∈ s, p c) {d : UInt8} (hd : p d = false) (rest : Bytes) :
    (s ++ d :: rest).takeWhile p = s ∧ (s ++ d :: rest).dropWhile p = d :: rest := by
  rw [takeWhile_append_of_pos hs, dropWhile_append_of_pos hs, takeWhile_cons_of_neg (by simp [hd]),
    dropWhile_cons_of_neg (by simp [hd]), append_nil]
  exact ⟨rfl, rfl⟩

/-- The value of a record is read, and its line is cut off when its encoding was too short. -/
theorem parseValue_enc (rest : Bytes) :
    parseValue r.type (r.enc ++ 10 :: rest) =
      .ok (r.value, if r.CutsOff then 0 :: rest else 10 :: rest) := by
  have hscan := (scan_append (enc_chars r) (d := 10) (by decide) rest).1
  obtain ⟨key, type, value, hkey, hkeys, hvalue⟩ := r
  cases type with
  | b =>
    rw [if_neg (by simp [Record.CutsOff]), parseValue]
    simp only [hscan]
    simp only [enc, EncType.enc]
    rw [phpBase64Decode_encode _ _ (by simp), drop_left]
  | u =>
    obtain ⟨h1, h2, h3⟩ := phpUrlDecode_encode value (10 :: rest)
    have hcut : (phpUrlEncode value).length = value.length ↔ (value.all fun c => c == 32 || !urlEscaped c) := by
      rw [length_phpUrlEncode_eq_iff]
      simp
    rw [parseValue]
    simp only [hscan]
    simp [enc, EncType.enc, h1, h2, h3, hcut, Record.CutsOff]
  | p =>
    rw [if_neg (by simp [Record.CutsOff]), parseValue]
    simp only [hscan]
    rw [take_left, drop_left]
    rfl

theorem EncType.ofChar_char (t : EncType) : EncType.ofChar t.char = some t := by
  cases t <;> rfl

/-- **One record**: its key and value are read, and what follows its line is what follows,
unless the record cuts it off. -/
theorem parseRecord_line {rest : Bytes} (hrest : rest.head? ≠ some 10) :
    parseRecord (r.line ++ rest) = .ok (r.key, r.value, if r.CutsOff then 0 :: rest else rest) := by
  have hline : r.line ++ rest = r.key ++ 58 :: (r.type.char :: 58 :: (r.enc ++ 10 :: rest)) := by
    simp [line, fieldLine, enc]
  obtain ⟨htake, hdrop⟩ := scan_append (all_eq_true.mp r.key_chars) (d := 58) (by decide)
    (r.type.char :: 58 :: (r.enc ++ 10 :: rest))
  have hskip : rest.dropWhile (· == 10) = rest := by
    cases rest with
    | nil => rfl
    | cons c rest => exact dropWhile_cons_of_neg (by simpa using hrest)
  rw [hline, parseRecord, htake, hdrop]
  simp only [deref, headD_cons, tail_cons, ne_eq, not_true_eq_false, if_false, EncType.ofChar_char, parseValue_enc]
  split_ifs
  · rfl
  · rw [dropWhile_cons_of_pos (by rfl), hskip]

/-! ### A run over the records -/

theorem parseResponseFrom_ok {ret : PhpArray} (h : parseRecord response = .ok (key, value, rest)) :
    parseResponseFrom ret response =
      if deref rest ≠ 0 then parseResponseFrom (addAssocStringl ret key value) rest
      else .parsed (addAssocStringl ret key value) := by
  rw [parseResponseFrom]
  split
  · next h' => rw [h] at h'; cases h'
  · next h' => rw [h] at h'; cases h'
  · next h' =>
    rw [h] at h'
    cases h'
    rfl

variable (rs : List Record)

theorem encodeRecords_cons : encodeRecords (r :: rs) = r.line ++ encodeRecords rs := rfl

/-- The first byte of a response is one of a key. -/
theorem encodeRecords_cons_head : ∃ c rest, encodeRecords (r :: rs) = c :: rest ∧ isKeyChar c := by
  obtain ⟨c, key, hkey⟩ := exists_cons_of_ne_nil r.key_ne_nil
  have hc : isKeyChar c := all_eq_true.mp r.key_chars c (hkey ▸ mem_cons_self ..)
  rw [encodeRecords_cons, line, fieldLine, hkey]
  exact ⟨c, _, rfl, hc⟩

theorem encodeRecords_head_ne_newline : (encodeRecords rs).head? ≠ some 10 := by
  cases rs with
  | nil => simp [encodeRecords]
  | cons r rs =>
    obtain ⟨c, rest, h, hc⟩ := encodeRecords_cons_head r rs
    rw [h, head?_cons]
    intro h10
    rw [Option.some.inj h10] at hc
    exact absurd hc (by decide)

/-- **A run over a response** reads the records up to the first that cuts off the rest. -/
theorem parseResponseFrom_encode (ret : PhpArray) (r : Record) (rs : List Record) :
    parseResponseFrom ret (encodeRecords (r :: rs)) =
      .parsed (updateAll ret ((fields (survivors (r :: rs))).map fun f => (symtableKey f.1, f.2))) := by
  induction rs generalizing ret r with
  | nil =>
    have hrec := parseRecord_line r (encodeRecords_head_ne_newline [])
    rw [encodeRecords_cons, parseResponseFrom_ok hrec]
    by_cases hcut : r.CutsOff <;>
      simp [hcut, deref, encodeRecords, survivors, fields, updateAll, addAssocStringl]
  | cons r' rs ih =>
    have hrec := parseRecord_line r (encodeRecords_head_ne_newline (r' :: rs))
    rw [encodeRecords_cons, parseResponseFrom_ok hrec]
    by_cases hcut : r.CutsOff
    · simp [hcut, deref, survivors, fields, updateAll, addAssocStringl]
    obtain ⟨c, rest, h, hc⟩ := encodeRecords_cons_head r' rs
    have hc0 : c ≠ 0 := by
      rintro rfl
      exact absurd hc (by decide)
    have hderef : deref (encodeRecords (r' :: rs)) ≠ 0 := by rwa [h]
    rw [if_neg hcut, if_pos hderef, ih, survivors.eq_2 r, if_neg hcut]
    rfl

theorem phpParseResponse_encode :
    phpParseResponse (encodeRecords (r :: rs)) = .parsed (arrayOf (fields (survivors (r :: rs)))) :=
  parseResponseFrom_encode [] r rs

/-! ### Which responses lose a field -/

theorem survivors_isPrefix : ∃ lost, rs = survivors rs ++ lost := by
  induction rs with
  | nil => exact ⟨[], rfl⟩
  | cons r rs ih =>
    obtain ⟨lost, h⟩ := ih
    rw [survivors]
    split_ifs
    · exact ⟨rs, rfl⟩
    · exact ⟨lost, by rw [cons_append, ← h]⟩

variable (fs : List (Bytes × Bytes))

/-- The last value of a key does not depend on how the keys are stored. -/
theorem lastValue_symtableKey (k : Bytes) :
    lastValue (fs.map fun f => (symtableKey f.1, f.2)) (symtableKey k) = lastValue fs k := by
  unfold lastValue
  rw [← map_reverse]
  induction fs.reverse with
  | nil => rfl
  | cons f fs ih =>
    rw [map_cons, find_cons, find_cons, ih]
    simp only [symtableKey_injective.eq_iff]

theorem lastValue_of_not_key {ak : ArrayKey} (hak : ¬ ∃ k, symtableKey k = ak) :
    lastValue (fs.map fun f => (symtableKey f.1, f.2)) ak = none := by
  rw [← Option.not_isSome_iff_eq_none, lastValue, find_isSome_iff]
  intro hmem
  simp only [mem_map, mem_reverse] at hmem
  obtain ⟨-, ⟨f, -, rfl⟩, rfl⟩ := hmem
  exact hak ⟨f.1, rfl⟩

/-- Two lists of fields, one the beginning of the other, give one array just when every key
has the same last value in them. -/
theorem arrayOf_append_eq_iff (fs gs : List (Bytes × Bytes)) :
    arrayOf fs = arrayOf (fs ++ gs) ↔ ∀ k, lastValue fs k = lastValue (fs ++ gs) k := by
  unfold arrayOf
  rw [map_append, updateAll_append_eq_iff, ← map_append]
  constructor
  · intro h k
    simpa only [lastValue_symtableKey] using h (symtableKey k)
  · intro h ak
    by_cases hak : ∃ k, symtableKey k = ak
    · obtain ⟨k, rfl⟩ := hak
      simpa only [lastValue_symtableKey] using h k
    · rw [lastValue_of_not_key fs hak, lastValue_of_not_key (fs ++ gs) hak]

/-- **When a response is read in full**: just when the records after the first that cuts off
the rest leave the last value of every key as it was. -/
theorem phpParseResponse_encode_eq_iff (r : Record) (rs : List Record) :
    phpParseResponse (encodeRecords (r :: rs)) = .parsed (arrayOf (fields (r :: rs))) ↔
      ∀ k, lastValue (fields (survivors (r :: rs))) k = lastValue (fields (r :: rs)) k := by
  obtain ⟨lost, h⟩ := survivors_isPrefix (r :: rs)
  have hfields : fields (r :: rs) = fields (survivors (r :: rs)) ++ fields lost := by
    rw [fields, fields, fields, ← map_append, ← h]
  rw [phpParseResponse_encode, ResponseOutcome.parsed.injEq, hfields]
  exact arrayOf_append_eq_iff _ _

/-- The record `a:u:x`. -/
def recordA : Record := ⟨ascii "a", .u, ascii "x", by decide, by decide, by decide⟩

/-- The record `b:p:y`. -/
def recordB : Record := ⟨ascii "b", .p, ascii "y", by decide, by decide, by decide⟩

/-- Of the two records of `a:u:x`, `b:p:y` only the first is read: the NUL after `x` is
written over the newline. -/
theorem phpParseResponse_loses_field :
    encodeRecords [recordA, recordB] = ascii "a:u:x\nb:p:y\n" ∧
    phpParseResponse (ascii "a:u:x\nb:p:y\n") = .parsed [(.name (ascii "a"), ascii "x")] ∧
    arrayOf (fields [recordA, recordB]) =
      [(.name (ascii "a"), ascii "x"), (.name (ascii "b"), ascii "y")] := by
  have henc : encodeRecords [recordA, recordB] = ascii "a:u:x\nb:p:y\n" := by decide
  refine ⟨henc, ?_, by decide⟩
  rw [← henc, phpParseResponse_encode]
  decide

end PhpSandbox.Daemon
