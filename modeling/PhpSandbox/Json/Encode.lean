import PhpSandbox.Html.Escape
import PhpSandbox.Lib.JsonText
import PhpSandbox.Var.Serialize

/-!
# `json_encode`

This module models `php_json_encode` of `ext/json/json.c` with `json_encode_array`, `json_determine_array_type`,
`json_escape_string` and `json_utf8_to_utf16`, on values made of `NULL`, booleans, integers, strings and arrays.

## The model

What a call does is what it appends to the buffer and the error code it sets (`Out`); a later error replaces an earlier
one. `encoder_depth` is passed down. `JSON_NUMERIC_CHECK`, doubles with `JSON_PRESERVE_ZERO_FRACTION` and objects are
left out, and `JSON_PARTIAL_OUTPUT_ON_ERROR` is read by the caller only. An array that is inside itself (`nApplyCount`)
is not a finite value, so the error for recursion does not occur. The switch over a code unit is `escapeUnit`. With
`JSON_UNESCAPED_UNICODE` the bytes of the string itself go through it, as `unsigned short` after the sign extension of
`char` (`unitOfByte`). The number of elements of an array is tested as an `int` (`Elems.counted`).

## What a text has to be

`Denotes` says which JSON a value is, in the terms of `Lib.JsonText`. `Allowed` and `ByteAllowed` say what the options
ask of the characters of strings and of the bytes of the text.
-/

namespace PhpSandbox.Json

open Lib Lib.JsonText
open Zend (ArrayKey)
open Var (printLong toInt)
open Html (getNextChar)

/-- The bits of `options`. -/
structure Options where
  /-- `PHP_JSON_HEX_TAG`. -/
  hexTag : Bool
  /-- `PHP_JSON_HEX_AMP`. -/
  hexAmp : Bool
  /-- `PHP_JSON_HEX_APOS`. -/
  hexApos : Bool
  /-- `PHP_JSON_HEX_QUOT`. -/
  hexQuot : Bool
  /-- `PHP_JSON_FORCE_OBJECT`. -/
  forceObject : Bool
  /-- `PHP_JSON_UNESCAPED_SLASHES`. -/
  unescapedSlashes : Bool
  /-- `PHP_JSON_PRETTY_PRINT`. -/
  prettyPrint : Bool
  /-- `PHP_JSON_UNESCAPED_UNICODE`. -/
  unescapedUnicode : Bool

/-- `JSON_G(error_code)`, when it is set. -/
inductive ErrorCode where
  /-- `PHP_JSON_ERROR_DEPTH`. -/
  | depth
  /-- `PHP_JSON_ERROR_UTF8`. -/
  | utf8

mutual

/-- A value. -/
inductive Value where
  /-- `IS_NULL`. -/
  | null
  /-- `IS_BOOL`. -/
  | bool (b : Bool)
  /-- `IS_LONG`. -/
  | long (n : ℤ)
  /-- `IS_STRING`. -/
  | string (s : Bytes)
  /-- `IS_ARRAY`. -/
  | array (ht : Elems)

/-- The entries of an array, in their order. -/
inductive Elems where
  /-- No entry. -/
  | nil
  /-- An entry and those behind it. -/
  | cons (key : ArrayKey) (data : Value) (rest : Elems)

end

/-- The keys of an array. -/
def Elems.keys : Elems → List ArrayKey
  | .nil => []
  | .cons key _ rest => key :: rest.keys

/-! ### Output -/

/-- What a call appends to the buffer, and the error code it sets. -/
structure Out where
  /-- The text. -/
  text : Bytes
  /-- The error code. -/
  errorCode : Option ErrorCode

/-- `smart_str_appendl`. -/
def Out.lit (text : Bytes) : Out := ⟨text, none⟩

variable (a b : Out)

/-- One call after another. -/
def Out.append : Out := ⟨a.text ++ b.text, b.errorCode <|> a.errorCode⟩

instance : Append Out := ⟨Out.append⟩

@[simp] theorem Out.text_lit (t : Bytes) : (Out.lit t).text = t := rfl

@[simp] theorem Out.errorCode_lit (t : Bytes) : (Out.lit t).errorCode = none := rfl

@[simp] theorem Out.text_append : (a ++ b).text = a.text ++ b.text := rfl

@[simp] theorem Out.errorCode_append : (a ++ b).errorCode = none ↔ a.errorCode = none ∧ b.errorCode = none := by
  change (b.errorCode <|> a.errorCode) = none ↔ _
  cases a.errorCode <;> cases b.errorCode <;> simp

/-! ### Strings -/

/-- The code units that are stored for a character. -/
def utf16Units (us : ℕ) : List ℕ :=
  if 0x10000 ≤ us then [(us - 0x10000) >>> 10 ||| 0xd800, (us - 0x10000) &&& 0x3ff ||| 0xdc00] else [us]

/-- `json_utf8_to_utf16`: `none` is the return value `-1`. The loop reads at least a byte each time, so that the length
of the string is enough `fuel`. -/
def jsonUtf8ToUtf16 : ℕ → Bytes → Option (List ℕ)
  | _, [] => some []
  | 0, _ :: _ => none
  | fuel + 1, c :: rest =>
    match getNextChar .utf8 (c :: rest) with
    | .failure _ => none
    | .success us advance => (jsonUtf8ToUtf16 fuel ((c :: rest).drop advance)).map (utf16Units us ++ ·)

/-- `digits[n]`. -/
def hexDigit (n : ℕ) : UInt8 := (ascii "0123456789abcdef").getD n 0

variable (o : Options)

/-- The `default` of the switch. -/
def escapeDefault (us : ℕ) : Bytes :=
  if 0x20 ≤ us ∧ (o.unescapedUnicode ∨ us &&& 127 = us) then [UInt8.ofNat us]
  else
    [92, 117, hexDigit ((us &&& 0xf000) >>> 12), hexDigit ((us &&& 0xf00) >>> 8), hexDigit ((us &&& 0xf0) >>> 4),
      hexDigit (us &&& 0xf)]

/-- The switch of `json_escape_string`. -/
def escapeUnit (us : ℕ) : Bytes :=
  if us = 34 then if o.hexQuot then ascii "\\u0022" else ascii "\\\""
  else if us = 92 then ascii "\\\\"
  else if us = 47 then if o.unescapedSlashes then ascii "/" else ascii "\\/"
  else if us = 8 then ascii "\\b"
  else if us = 12 then ascii "\\f"
  else if us = 10 then ascii "\\n"
  else if us = 13 then ascii "\\r"
  else if us = 9 then ascii "\\t"
  else if us = 60 then if o.hexTag then ascii "\\u003C" else ascii "<"
  else if us = 62 then if o.hexTag then ascii "\\u003E" else ascii ">"
  else if us = 38 then if o.hexAmp then ascii "\\u0026" else ascii "&"
  else if us = 39 then if o.hexApos then ascii "\\u0027" else ascii "'"
  else escapeDefault o us

/-- `us = s[pos++]`, where `char` is signed. -/
def unitOfByte (c : UInt8) : ℕ := if c < 0x80 then c.toNat else c.toNat + 0xff00

/-- `json_escape_string`. -/
def jsonEscapeString (s : Bytes) : Out :=
  if s = [] then .lit (ascii "\"\"")
  else
    match jsonUtf8ToUtf16 s.length s with
    | none => ⟨ascii "null", some .utf8⟩
    | some utf16 =>
      .lit (34 :: (if o.unescapedUnicode then s.map unitOfByte else utf16).flatMap (escapeUnit o) ++ [34])

/-! ### Arrays -/

/-- `json_determine_array_type` from the index `idx` on: whether the array is written as an array. -/
def jsonDetermineArrayType : ℕ → Elems → Bool
  | _, .nil => true
  | idx, .cons (.index h) _ rest => h = idx && jsonDetermineArrayType (idx + 1) rest
  | _, .cons (.name _) _ _ => false

/-- `i > 0`, where `i` is the number of elements as an `int`. -/
def Elems.counted (ht : Elems) : Bool := 0 < toInt ht.keys.length

/-- Whether `r` is `PHP_JSON_OUTPUT_OBJECT`. -/
def outputObject (ht : Elems) : Bool := o.forceObject || ht.counted && !jsonDetermineArrayType 0 ht

/-- `json_pretty_print_char`. -/
def jsonPrettyPrintChar (c : UInt8) : Bytes := if o.prettyPrint then [c] else []

/-- `json_pretty_print_indent`. -/
def jsonPrettyPrintIndent (depth : ℕ) : Bytes :=
  if o.prettyPrint then (List.replicate depth (ascii "    ")).flatten else []

/-- The key of a member. -/
def keyText : ArrayKey → Out
  | .name key => jsonEscapeString o key
  | .index h => .lit (34 :: printLong h ++ [34])

/-- `json_encode_array` around its entries. -/
def jsonEncodeArray (maxDepth : ℤ) (depth : ℕ) (object needComma : Bool) (entries : Out) : Out :=
  .lit [if object then 123 else 91] ++ entries ++ (if maxDepth < depth + 1 then ⟨[], some .depth⟩ else .lit []) ++
    .lit (if needComma then jsonPrettyPrintChar o 10 ++ jsonPrettyPrintIndent o depth else []) ++
    .lit [if object then 125 else 93]

/-- What is written of an entry in front of its value. -/
def entryStart (depth : ℕ) (object : Bool) (key : ArrayKey) : Out :=
  .lit (jsonPrettyPrintChar o 10 ++ jsonPrettyPrintIndent o depth) ++
    (if object then keyText o key ++ .lit (58 :: jsonPrettyPrintChar o 32) else .lit [])

mutual

/-- `php_json_encode` at `encoder_depth = depth`. -/
def phpJsonEncode (o : Options) (maxDepth : ℤ) (depth : ℕ) : Value → Out
  | .null => .lit (ascii "null")
  | .bool b => .lit (if b then ascii "true" else ascii "false")
  | .long n => .lit (printLong n)
  | .string s => jsonEscapeString o s
  | .array ht =>
    jsonEncodeArray o maxDepth depth (outputObject o ht) ht.counted
      (if ht.counted then encodeEntries o maxDepth (depth + 1) (outputObject o ht) false ht else .lit [])

/-- The loop of `json_encode_array`. -/
def encodeEntries (o : Options) (maxDepth : ℤ) (depth : ℕ) (object : Bool) : Bool → Elems → Out
  | _, .nil => .lit []
  | needComma, .cons key data rest =>
    .lit (if needComma then [44] else []) ++ (entryStart o depth object key ++ phpJsonEncode o maxDepth depth data) ++
      encodeEntries o maxDepth depth object true rest

end

/-! ### What a value denotes -/

/-- The name of a member: an index in decimal. -/
inductive KeyDenotes : ArrayKey → List ℕ → Prop
  /-- An integer. -/
  | index (h : ℤ) : KeyDenotes (.index h) ((printLong h).map UInt8.toNat)
  /-- A string. -/
  | name {s : Bytes} {cps : List ℕ} (hs : IsUtf8 s cps) : KeyDenotes (.name s) cps

/-- The keys are `0..n-1` in order. -/
def Elems.IsList (ht : Elems) : Prop := ht.keys = (List.range ht.keys.length).map fun i => ArrayKey.index (i : ℤ)

mutual

/-- What the JSON of a value is. -/
inductive Denotes (force : Bool) : Value → Json → Prop
  | null : Denotes force .null .null
  /-- A boolean. -/
  | bool (b : Bool) : Denotes force (.bool b) (.bool b)
  /-- An integer. -/
  | long (n : ℤ) : Denotes force (.long n) (.number n)
  /-- A string, by its code points. -/
  | string {s : Bytes} {cps : List ℕ} (hs : IsUtf8 s cps) : Denotes force (.string s) (.string cps)
  /-- A list. -/
  | array {ht : Elems} {js : List Json} (hforce : force = false) (hlist : ht.IsList)
      (h : DenotesElements force ht js) : Denotes force (.array ht) (.array js)
  /-- Any other array, or any array if objects are forced. -/
  | object {ht : Elems} {ms : List (List ℕ × Json)} (hobject : force = true ∨ ¬ ht.IsList)
      (h : DenotesMembers force ht ms) : Denotes force (.array ht) (.object ms)

/-- The elements of a list. -/
inductive DenotesElements (force : Bool) : Elems → List Json → Prop
  /-- None. -/
  | nil : DenotesElements force .nil []
  /-- One and the others. -/
  | cons {key : ArrayKey} {data : Value} {rest : Elems} {j : Json} {js : List Json} (h : Denotes force data j)
      (hs : DenotesElements force rest js) : DenotesElements force (.cons key data rest) (j :: js)

/-- The members of an object. -/
inductive DenotesMembers (force : Bool) : Elems → List (List ℕ × Json) → Prop
  /-- None. -/
  | nil : DenotesMembers force .nil []
  /-- One and the others. -/
  | cons {key : ArrayKey} {data : Value} {rest : Elems} {cps : List ℕ} {j : Json} {ms : List (List ℕ × Json)}
      (hkey : KeyDenotes key cps) (h : Denotes force data j) (hs : DenotesMembers force rest ms) :
      DenotesMembers force (.cons key data rest) ((cps, j) :: ms)

end

/-- The code points that may be written other than with `\u`. -/
structure Allowed (o : Options) (cp : ℕ) : Prop where
  tag : o.hexTag → cp ≠ 60 ∧ cp ≠ 62
  amp : o.hexAmp → cp ≠ 38
  apos : o.hexApos → cp ≠ 39
  quot : o.hexQuot → cp ≠ 34
  unicode : o.unescapedUnicode = false → cp < 128

/-- The bytes that may occur in a text. -/
structure ByteAllowed (o : Options) (c : UInt8) : Prop where
  tag : o.hexTag → c ≠ 60 ∧ c ≠ 62
  amp : o.hexAmp → c ≠ 38
  apos : o.hexApos → c ≠ 39
  unicode : o.unescapedUnicode = false → c.toNat < 128

mutual

/-- Every array in a value is empty, or the number of its elements is positive as an `int`. -/
def Value.Counted : Value → Prop
  | .array ht => (ht.keys = [] ∨ ht.counted = true) ∧ ht.Counted
  | _ => True

/-- The same for the values of an array. -/
def Elems.Counted : Elems → Prop
  | .nil => True
  | .cons _ data rest => data.Counted ∧ rest.Counted

end

mutual

/-- Every string of a value is in UTF-8, and no array in it is deeper than `maxDepth`. -/
def Value.Encodable (maxDepth : ℤ) (depth : ℕ) : Value → Prop
  | .null | .bool _ | .long _ => True
  | .string s => ∃ cps, IsUtf8 s cps
  | .array ht => ht.Encodable maxDepth (depth + 1) ∧ depth + 1 ≤ maxDepth

/-- The same for the keys and values of an array. -/
def Elems.Encodable (maxDepth : ℤ) (depth : ℕ) : Elems → Prop
  | .nil => True
  | .cons key data rest =>
    ((∃ cps, KeyDenotes key cps) ∧ data.Encodable maxDepth depth) ∧ rest.Encodable maxDepth depth

end

end PhpSandbox.Json
