import Mathlib.Data.List.TakeWhile
import PhpSandbox.Html.Tables

/-!
# Escaping HTML

This module models `php_escape_html_entities_ex` of `ext/standard/html.c` with what it calls: `get_next_char` for every
charset, `find_entity_for_char`, `find_entity_for_char_basic`, `process_numeric_entity`, `process_named_entity_html`,
`resolve_named_entity_html`, `unicode_cp_is_allowed` and `numeric_entity_is_allowed`.

## The model

The cursor is what is left of the string from it on; the byte at the end of the string reads as NUL. A turn of the loop
(`escapeStep`) returns what it appends to the output and what is left. The charset is given: how `determine_charset`
finds it from a hint, an ini setting or the locale is left out, and so are the size of the output buffer and the
notices.

## What is proved

With `ENT_QUOTES` nothing in the output is markup (`noMarkup_phpEscapeHtmlEntitiesEx`): the output is made of bytes that
are not special and of character references (`Escaped`). A character that is passed through is a single byte for which
there is no entity, or has only bytes from `0x40` on, which no special byte is.
-/

namespace PhpSandbox.Html

open Lib List Option

/-- The byte `"`. -/
def quot : UInt8 := 34

/-- The byte `&`. -/
def amp : UInt8 := 38

/-- The byte `'`. -/
def apos : UInt8 := 39

/-- The byte `<`. -/
def lt : UInt8 := 60

/-- The byte `>`. -/
def gt : UInt8 := 62

/-- The byte `;`. -/
def semi : UInt8 := 59

/-- The byte `#`. -/
def hash : UInt8 := 35

/-! ### Decoding -/

variable (c : UInt8)

/-- `utf8_lead(c)`. -/
def utf8Lead : Bool := c < 0x80 || (0xC2 ≤ c && c ≤ 0xF4)

/-- `utf8_trail(c)`. -/
def utf8Trail : Bool := 0x80 ≤ c && c ≤ 0xBF

/-- `gb2312_lead(c)`. -/
def gb2312Lead : Bool := c ≠ 0x8E && c ≠ 0x8F && c ≠ 0xA0 && c ≠ 0xFF

/-- `gb2312_trail(c)`. -/
def gb2312Trail : Bool := 0xA1 ≤ c && c ≤ 0xFE

/-- `sjis_lead(c)`. -/
def sjisLead : Bool := c ≠ 0x80 && c ≠ 0xA0 && c < 0xFD

/-- `sjis_trail(c)`. -/
def sjisTrail : Bool := 0x40 ≤ c && c ≠ 0x7F && c < 0xFD

/-- The second bytes of Big5. -/
def big5Trail : Bool := (0x40 ≤ c && c ≤ 0x7E) || (0xA1 ≤ c && c ≤ 0xFE)

/-- The bytes of EUC-JP that start a character when they do not continue one. -/
def eucjpLead : Bool := c ≠ 0xA0 && c ≠ 0xFF

/-- What `get_next_char` reports: a character, or a failure, and how far the cursor moves. -/
inductive Decoded where
  /-- `status == SUCCESS`. -/
  | success (thisChar advance : ℕ)
  /-- `MB_FAILURE(pos, advance)`. -/
  | failure (advance : ℕ)

/-- How far the cursor moves. -/
def Decoded.advance : Decoded → ℕ
  | .success _ advance => advance
  | .failure advance => advance

/-- A character of two bytes: `trail` are the bytes that may follow, and a byte of `lead` is not skipped with a broken
one. -/
def twoBytes (trail lead : UInt8 → Bool) (c : UInt8) : Bytes → Decoded
  | [] => .failure 1
  | next :: _ =>
    if trail next then .success (c.toNat <<< 8 ||| next.toNat) 2 else .failure (if lead next then 1 else 2)

/-- UTF-8 from a byte `0xC2` to `0xDF` on. -/
def utf8Two : Bytes → Decoded
  | [] => .failure 1
  | c₁ :: _ =>
    if utf8Trail c₁ then
      let thisChar := (c.toNat &&& 0x1f) <<< 6 ||| (c₁.toNat &&& 0x3f)
      if thisChar < 0x80 then .failure 2 else .success thisChar 2
    else .failure (if utf8Lead c₁ then 1 else 2)

/-- UTF-8 from a byte `0xE0` to `0xEF` on. -/
def utf8Three : Bytes → Decoded
  | [] => .failure 1
  | [c₁] => .failure (if utf8Lead c₁ then 1 else 2)
  | c₁ :: c₂ :: _ =>
    if utf8Trail c₁ && utf8Trail c₂ then
      let thisChar := (c.toNat &&& 0x0f) <<< 12 ||| (c₁.toNat &&& 0x3f) <<< 6 ||| (c₂.toNat &&& 0x3f)
      if thisChar < 0x800 then .failure 3
      else if 0xd800 ≤ thisChar ∧ thisChar ≤ 0xdfff then .failure 3
      else .success thisChar 3
    else .failure (if utf8Lead c₁ then 1 else if utf8Lead c₂ then 2 else 3)

/-- UTF-8 from a byte `0xF0` to `0xF4` on. -/
def utf8Four : Bytes → Decoded
  | [] => .failure 1
  | [c₁] => .failure (if utf8Lead c₁ then 1 else 2)
  | [c₁, c₂] => .failure (if utf8Lead c₁ then 1 else if utf8Lead c₂ then 2 else 3)
  | c₁ :: c₂ :: c₃ :: _ =>
    if utf8Trail c₁ && utf8Trail c₂ && utf8Trail c₃ then
      let thisChar := (c.toNat &&& 0x07) <<< 18 ||| (c₁.toNat &&& 0x3f) <<< 12 ||| (c₂.toNat &&& 0x3f) <<< 6 |||
        (c₃.toNat &&& 0x3f)
      if thisChar < 0x10000 ∨ 0x10FFFF < thisChar then .failure 4 else .success thisChar 4
    else .failure (if utf8Lead c₁ then 1 else if utf8Lead c₂ then 2 else if utf8Lead c₃ then 3 else 4)

/-- EUC-JP from a byte `0x8F` on. -/
def eucjpThree : Bytes → Decoded
  | [] => .failure 1
  | [c₁] => .failure (if eucjpLead c₁ then 1 else 2)
  | c₁ :: c₂ :: _ =>
    if gb2312Trail c₁ && gb2312Trail c₂ then .success (c.toNat <<< 16 ||| c₁.toNat <<< 8 ||| c₂.toNat) 3
    else .failure (if eucjpLead c₁ then 1 else if eucjpLead c₂ then 2 else 3)

/-- `get_next_char(charset, …)` on what is left of the string. -/
def getNextChar (charset : EntityCharset) : Bytes → Decoded
  | [] => .failure 1
  | c :: rest =>
    match charset with
    | .utf8 =>
      if c < 0x80 then .success c.toNat 1
      else if c < 0xc2 then .failure 1
      else if c < 0xe0 then utf8Two c rest
      else if c < 0xf0 then utf8Three c rest
      else if c < 0xf5 then utf8Four c rest
      else .failure 1
    | .big5 =>
      if 0x81 ≤ c ∧ c ≤ 0xFE then twoBytes big5Trail (fun _ => true) c rest else .success c.toNat 1
    | .big5hkscs =>
      if 0x81 ≤ c ∧ c ≤ 0xFE then twoBytes big5Trail (fun next => next ≠ 0x80 && next ≠ 0xFF) c rest
      else .success c.toNat 1
    | .gb2312 =>
      if 0xA1 ≤ c ∧ c ≤ 0xFE then twoBytes gb2312Trail gb2312Lead c rest
      else if gb2312Lead c then .success c.toNat 1
      else .failure 1
    | .sjis =>
      if (0x81 ≤ c ∧ c ≤ 0x9F) ∨ (0xE0 ≤ c ∧ c ≤ 0xFC) then twoBytes sjisTrail sjisLead c rest
      else if c < 0x80 ∨ (0xA1 ≤ c ∧ c ≤ 0xDF) then .success c.toNat 1
      else .failure 1
    | .eucjp =>
      if 0xA1 ≤ c ∧ c ≤ 0xFE then twoBytes gb2312Trail eucjpLead c rest
      else if c = 0x8E then twoBytes (fun next => 0xA1 ≤ next && next ≤ 0xDF) eucjpLead c rest
      else if c = 0x8F then eucjpThree c rest
      else if eucjpLead c then .success c.toNat 1
      else .failure 1
    | _ => .success c.toNat 1

/-! ### Document types and allowed characters -/

/-- The document types: `flags & ENT_HTML_DOC_TYPE_MASK`. -/
inductive DocumentType where
  /-- `ENT_HTML_DOC_HTML401`. -/
  | html401
  /-- `ENT_HTML_DOC_XML1`. -/
  | xml1
  /-- `ENT_HTML_DOC_XHTML`. -/
  | xhtml
  /-- `ENT_HTML_DOC_HTML5`. -/
  | html5
  deriving DecidableEq

/-- The document type of the flags. -/
def documentType (flags : ℕ) : DocumentType :=
  match flags &&& 48 with
  | 0 => .html401
  | 16 => .xml1
  | 32 => .xhtml
  | _ => .html5

/-- `unicode_cp_is_allowed(uni_cp, document_type)`. -/
def unicodeCpIsAllowed (cp : ℕ) : DocumentType → Bool
  | .html401 =>
    (0x20 ≤ cp && cp ≤ 0x7E) || (cp == 0x0A || cp == 0x09 || cp == 0x0D) || (0xA0 ≤ cp && cp ≤ 0xD7FF) ||
      (0xE000 ≤ cp && cp ≤ 0x10FFFF)
  | .html5 =>
    (0x20 ≤ cp && cp ≤ 0x7E) || (0x09 ≤ cp && cp ≤ 0x0D && cp != 0x0B) || (0xA0 ≤ cp && cp ≤ 0xD7FF) ||
      (0xE000 ≤ cp && cp ≤ 0x10FFFF && (cp &&& 0xFFFF) < 0xFFFE && (cp < 0xFDD0 || 0xFDEF < cp))
  | .xhtml | .xml1 =>
    (0x20 ≤ cp && cp ≤ 0xD7FF) || (cp == 0x0A || cp == 0x09 || cp == 0x0D) ||
      (0xE000 ≤ cp && cp ≤ 0x10FFFF && cp != 0xFFFE && cp != 0xFFFF)

/-- `numeric_entity_is_allowed(uni_cp, document_type)`. -/
def numericEntityIsAllowed (cp : ℕ) : DocumentType → Bool
  | .html401 => cp ≤ 0x10FFFF
  | .html5 =>
    (0x20 ≤ cp && cp ≤ 0x7E) || (0x09 ≤ cp && cp ≤ 0x0C && cp != 0x0B) ||
      (0xA0 ≤ cp && cp ≤ 0x10FFFF && (cp &&& 0xFFFF) < 0xFFFE && (cp < 0xFDD0 || 0xFDEF < cp))
  | .xhtml => unicodeCpIsAllowed cp .xhtml
  | .xml1 => unicodeCpIsAllowed cp .xml1

/-! ### References in the input -/

/-- `isdigit(c)`. -/
def isDigit : Bool := 48 ≤ c && c ≤ 57

/-- `isxdigit(c)`. -/
def isXdigit : Bool := isDigit c || (65 ≤ c && c ≤ 70) || (97 ≤ c && c ≤ 102)

/-- The value of a hexadecimal digit. -/
def digitValue : ℕ :=
  if isDigit c then c.toNat - 48 else if c ≤ 70 then c.toNat - 55 else c.toNat - 87

/-- The number the digits write. -/
def digitsValue (base : ℕ) (digits : Bytes) : ℕ := digits.foldl (fun n c => base * n + digitValue c) 0

/-- The bytes `x` and `X`. -/
def isX : Bool := c == 120 || c == 88

/-- `strtol(buf, &endptr, 16)` on a text that starts with a digit: the value, and how many bytes it is read from. It may
start with a `0x` of its own. -/
def strtolHex : Bytes → ℕ × ℕ
  | c₀ :: c₁ :: c₂ :: rest =>
    if c₀ = 48 ∧ isX c₁ ∧ isXdigit c₂ then
      let digits := (c₂ :: rest).takeWhile isXdigit
      (digitsValue 16 digits, digits.length + 2)
    else
      let digits := (c₀ :: c₁ :: c₂ :: rest).takeWhile isXdigit
      (digitsValue 16 digits, digits.length)
  | buf => (digitsValue 16 (buf.takeWhile isXdigit), (buf.takeWhile isXdigit).length)

variable (buf : Bytes)

/-- `strtol(buf, &endptr, 10)` on a text that starts with a digit. -/
def strtolDec : ℕ × ℕ := (digitsValue 10 (buf.takeWhile isDigit), (buf.takeWhile isDigit).length)

/-- The end of `process_numeric_entity`, with what `strtol` has read of `buf`. -/
def numericEnd (read : ℕ × ℕ) : Option (ℕ × Bytes) :=
  if (buf.drop read.2).head? = some semi ∧ read.1 ≤ 0x10FFFF then some (read.1, buf.take read.2) else none

/-- `process_numeric_entity(&buf, &code_point)`, where `buf` is what follows `#`: the code point and the bytes before
the `;`. A `long` that overflows is larger than any code point. -/
def processNumericEntity : Bytes → Option (ℕ × Bytes)
  | [] => none
  | c :: buf =>
    if isX c then
      if buf.head?.any isXdigit then (numericEnd buf (strtolHex buf)).map fun r => (r.1, c :: r.2) else none
    else if isDigit c then numericEnd (c :: buf) (strtolDec (c :: buf))
    else none

/-- `process_named_entity_html(&buf, &start, &length)`: the name before the `;`. -/
def processNamedEntityHtml : Option Bytes :=
  let name := buf.takeWhile isAlnum
  if (buf.drop name.length).head? = some semi ∧ name ≠ [] then some name else none

/-- `unescape_inverse_map(1, flags)` has the name. -/
def resolveNamedEntityHtml (name : Bytes) : DocumentType → Bool
  | .html401 | .xhtml => entHtHtml4.any fun names => names.any fun n => cstr n == name
  | .html5 => entHtHtml5.any fun names => names.any fun n => cstr n == name
  | .xml1 => entHtBeApos.any fun n => cstr n == name

/-! ### Escaping -/

/-- The arguments of `php_escape_html_entities_ex`. -/
structure EscapeOptions where
  /-- The charset found for the hint. -/
  charset : EntityCharset
  /-- Whether all named entities are wanted, not only the basic ones. -/
  all : Bool
  /-- The flags. -/
  flags : ℕ
  /-- Whether references in the input are escaped again. -/
  doubleEncode : Bool

open EscapeOptions

namespace EscapeOptions

variable (o : EscapeOptions)

/-- The document type. -/
def doctype : DocumentType := documentType o.flags

/-- `all` after `LIMIT_ALL(all, doctype, charset)`. -/
def limitAll : Bool := o.all && !o.charset.partialSupport && o.doctype != .xml1

/-- `to_uni_table`. -/
def toUniTable : Option (List ℕ) :=
  if o.limitAll && !o.charset.unicodeCompat then encToUniIndex o.charset else none

/-- `entity_table.ms_table`. -/
def msTable : EntityTable := if o.doctype = .html5 then entityMsTableHtml5 else entityMsTableHtml4

/-- `entity_table.table`. -/
def basicTable : List (ℕ × EntityRow) := if o.doctype = .html401 then beNoapos else beApos

/-- `replacement`. -/
def replacement : Bytes := if o.charset = .utf8 then [0xEF, 0xBF, 0xBD] else cstr "&#xFFFD;"

/-- A flag is set. -/
def has (flag : ℕ) : Bool := o.flags &&& flag != 0

/-- A character without an entity is not allowed in the document. -/
def isDisallowed (thisChar : ℕ) : Bool :=
  if o.charset.unicodeCompat then !unicodeCpIsAllowed thisChar o.doctype
  else
    match o.toUniTable with
    | some _ => !unicodeCpIsAllowed thisChar o.doctype
    | none => thisChar ≤ 0x7D && !unicodeCpIsAllowed thisChar o.doctype

end EscapeOptions

/-- `find_entity_for_char(k, …)`: the entity, and what is left of the string (the second character of a pair is
consumed with it). -/
def findEntityForChar (charset : EntityCharset) (table : EntityTable) (k : ℕ) (rest : Bytes) : Option String × Bytes :=
  if 0x1D < k / 4096 then (none, rest)
  else
    match stage1Row table k with
    | none => (none, rest)
    | some (.entity name) => (some name, rest)
    | some (.multicodepoint default rows) =>
      match getNextChar charset rest with
      | .failure _ => (default, rest)
      | .success next advance =>
        match rows.find? fun row => row.1 == next with
        | some row => (some row.2, rest.drop advance)
        | none => (default, rest)

/-- `find_entity_for_char_basic(k, table, …)`. -/
def findEntityForCharBasic (table : List (ℕ × EntityRow)) (k : ℕ) : Option String :=
  if 64 ≤ k then none
  else
    match stage3Row table k with
    | some (.entity name) => some name
    | _ => none

/-- A reference as it is written. -/
def reference (body : Bytes) : Bytes := amp :: (body ++ [semi])

variable (o : EscapeOptions)

/-- The entity that was found, or the character itself or its replacement. -/
def entityOrChar (thisChar : ℕ) (mbsequence : Bytes) : Option String × Bytes → Bytes × Bytes
  | (some rep, rest) => (reference (cstr rep), rest)
  | (none, rest) => (if o.has 128 && o.isDisallowed thisChar then o.replacement else mbsequence, rest)

/-- A character that is not `&`, of the bytes `mbsequence`. -/
def escapeChar (thisChar : ℕ) (mbsequence rest : Bytes) : Bytes × Bytes :=
  if (thisChar == 39 && !o.has 1) || (thisChar == 34 && !o.has 2) then (mbsequence, rest)
  else if o.limitAll then
    match o.toUniTable with
    | some table =>
      let uni := mapToUnicode thisChar table
      if uni = 0xFFFF then (mbsequence, rest)
      else entityOrChar o uni mbsequence (findEntityForChar o.charset o.msTable uni rest)
    | none => entityOrChar o thisChar mbsequence (findEntityForChar o.charset o.msTable thisChar rest)
  else entityOrChar o thisChar mbsequence (findEntityForCharBasic o.basicTable thisChar, rest)

/-- The reference that follows a `&` and is kept. -/
def keptReference : Bytes → Option Bytes
  | [] => none
  | c :: rest =>
    if c = hash then
      match processNumericEntity rest with
      | some (codePoint, digits) =>
        if o.has 128 && !numericEntityIsAllowed codePoint o.doctype then none else some (hash :: digits)
      | none => none
    else
      match processNamedEntityHtml (c :: rest) with
      | some name =>
        -- the names of HTML 4.01, which has no `apos`, are used for XHTML
        if resolveNamedEntityHtml name o.doctype || (o.doctype == .xhtml && name == cstr "apos") then some name
        else none
      | none => none

/-- The character `&`. -/
def escapeAmp (rest : Bytes) : Bytes × Bytes :=
  if o.doubleEncode then (reference (cstr "amp"), rest)
  else
    match keptReference o rest with
    | some ent => (reference ent, rest.drop (ent.length + 1))
    | none => (reference (cstr "amp"), rest)

/-- A turn of the loop: what is appended and what is left, or nothing when the result is the empty string. -/
def escapeStep (old : Bytes) : Option (Bytes × Bytes) :=
  match getNextChar o.charset old with
  | .failure advance =>
    if o.has 4 then some ([], old.drop advance)
    else if o.has 8 then some (o.replacement, old.drop advance)
    else none
  | .success thisChar advance =>
    if thisChar = 38 then some (escapeAmp o (old.drop advance))
    else some (escapeChar o thisChar (old.take advance) (old.drop advance))

/-! ### What is decoded -/

/-- No byte is below `0x40`, as all special bytes are. -/
def High (bs : Bytes) : Prop := ∀ x ∈ bs, 0x40 ≤ x.toNat

theorem High.nil : High [] := fun _ hx => absurd hx not_mem_nil

variable {c : UInt8}

theorem High.cons {bs : Bytes} (hc : 0x40 ≤ c.toNat) (h : High bs) : High (c :: bs) := forall_mem_cons.mpr ⟨hc, h⟩

/-- What is decoded at a place: a single byte, or a character that is no ASCII character and has high bytes only. -/
def Decoded.Ok (old : Bytes) : Decoded → Prop
  | .failure advance => 1 ≤ advance
  | .success thisChar advance =>
    (advance = 1 ∧ ∃ c rest, old = c :: rest ∧ thisChar = c.toNat) ∨
      (1 ≤ advance ∧ 0x80 ≤ thisChar ∧ High (old.take advance))

theorem Decoded.Ok.single (c : UInt8) (rest : Bytes) : (Decoded.success c.toNat 1).Ok (c :: rest) :=
  .inl ⟨rfl, c, rest, rfl, rfl⟩

theorem Decoded.Ok.one_le {old : Bytes} {d : Decoded} (h : d.Ok old) : 1 ≤ d.advance := by
  cases d with
  | failure advance => exact h
  | success thisChar advance => exact h.elim (fun h => h.1.ge) And.left

theorem le_shiftLeft_or {a : ℕ} (i b : ℕ) (ha : 0x80 ≤ a) : 0x80 ≤ a <<< i ||| b := by
  have hle : a ≤ a <<< i := by
    rw [Nat.shiftLeft_eq]
    exact Nat.le_mul_of_pos_right a (Nat.two_pow_pos i)
  exact ha.trans (hle.trans Nat.left_le_or)

section Decoding

variable {c : UInt8} {rest : Bytes}

theorem utf8Trail_toNat : ∀ c, utf8Trail c = true → 0x40 ≤ c.toNat := by
  intro c h
  simp [utf8Trail, UInt8.le_iff_toNat_le] at h
  omega

theorem gb2312Trail_toNat : ∀ c, gb2312Trail c = true → 0x40 ≤ c.toNat := by
  intro c h
  simp [gb2312Trail, UInt8.le_iff_toNat_le] at h
  omega

/-- How far the cursor moves over a broken character. -/
theorem one_le_ite {p : Prop} [Decidable p] {j k : ℕ} (hj : 1 ≤ j) (hk : 1 ≤ k) : 1 ≤ if p then j else k := by
  split
  · exact hj
  · exact hk

theorem ok_twoBytes {trail : UInt8 → Bool} (lead : UInt8 → Bool) (hc : 0x80 ≤ c.toNat)
    (htrail : ∀ x, trail x = true → 0x40 ≤ x.toNat) : (twoBytes trail lead c rest).Ok (c :: rest) := by
  have hc' : 0x40 ≤ c.toNat := Nat.le_trans (by decide) hc
  fun_cases twoBytes trail lead c rest with
  | case1 => exact le_rfl
  | case2 next rest ht =>
    exact .inr ⟨Nat.le_succ 1, le_shiftLeft_or 8 _ hc, .cons hc' (.cons (htrail next ht) .nil)⟩
  | case3 next rest ht =>
    exact one_le_ite le_rfl (by decide)

theorem ok_utf8Two (hc : 0x40 ≤ c.toNat) : (utf8Two c rest).Ok (c :: rest) := by
  fun_cases utf8Two c rest with
  | case1 => exact le_rfl
  | case2 => exact Nat.le_succ 1
  | case3 c₁ rest h₁ thisChar hshort =>
    exact .inr ⟨Nat.le_succ 1, Nat.le_of_not_lt hshort, .cons hc (.cons (utf8Trail_toNat _ h₁) .nil)⟩
  | case4 =>
    exact one_le_ite le_rfl (by decide)

theorem ok_utf8Three (hc : 0x40 ≤ c.toNat) : (utf8Three c rest).Ok (c :: rest) := by
  fun_cases utf8Three c rest with
  | case1 => exact le_rfl
  | case2 c₁ =>
    exact one_le_ite le_rfl (by decide)
  | case3 | case4 => exact Nat.le_add_left 1 2
  | case5 c₁ c₂ rest htrail thisChar hshort _ =>
    rw [Bool.and_eq_true] at htrail
    have hhigh := High.cons (utf8Trail_toNat _ htrail.1) (.cons (utf8Trail_toNat _ htrail.2) .nil)
    exact .inr ⟨Nat.le_add_left 1 2, Nat.le_trans (by decide) (Nat.le_of_not_lt hshort), .cons hc hhigh⟩
  | case6 =>
    exact one_le_ite le_rfl (one_le_ite (by decide) (by decide))

theorem ok_utf8Four (hc : 0x40 ≤ c.toNat) : (utf8Four c rest).Ok (c :: rest) := by
  fun_cases utf8Four c rest with
  | case1 => exact le_rfl
  | case2 c₁ =>
    exact one_le_ite le_rfl (by decide)
  | case3 c₁ c₂ =>
    exact one_le_ite le_rfl (one_le_ite (by decide) (by decide))
  | case4 => exact Nat.le_add_left 1 3
  | case5 c₁ c₂ c₃ rest htrail thisChar hrange =>
    rw [Bool.and_eq_true, Bool.and_eq_true] at htrail
    rw [not_or, Nat.not_lt] at hrange
    have hhigh := High.cons (utf8Trail_toNat _ htrail.1.1)
      (.cons (utf8Trail_toNat _ htrail.1.2) (.cons (utf8Trail_toNat _ htrail.2) .nil))
    exact .inr ⟨Nat.le_add_left 1 3, Nat.le_trans (by decide) hrange.1, .cons hc hhigh⟩
  | case6 =>
    exact one_le_ite le_rfl (one_le_ite (by decide) (one_le_ite (by decide) (by decide)))

theorem ok_eucjpThree (hc : 0x80 ≤ c.toNat) : (eucjpThree c rest).Ok (c :: rest) := by
  have hc' : 0x40 ≤ c.toNat := Nat.le_trans (by decide) hc
  fun_cases eucjpThree c rest with
  | case1 => exact le_rfl
  | case2 c₁ =>
    exact one_le_ite le_rfl (by decide)
  | case3 c₁ c₂ rest htrail =>
    rw [Bool.and_eq_true] at htrail
    have hhigh := High.cons (gb2312Trail_toNat _ htrail.1) (.cons (gb2312Trail_toNat _ htrail.2) .nil)
    exact .inr ⟨Nat.le_add_left 1 2, (le_shiftLeft_or 16 _ hc).trans Nat.left_le_or, .cons hc' hhigh⟩
  | case4 =>
    exact one_le_ite le_rfl (one_le_ite (by decide) (by decide))

theorem ok_getNextChar (charset : EntityCharset) (old : Bytes) : (getNextChar charset old).Ok old := by
  cases old with
  | nil => exact le_rfl
  | cons c rest =>
    have hge : ∀ {b : UInt8}, 0x80 ≤ b.toNat → b ≤ c → 0x80 ≤ c.toNat := fun hb hbc =>
      hb.trans (UInt8.le_iff_toNat_le.mp hbc)
    cases charset
    case utf8 =>
      simp only [getNextChar]
      split_ifs with h80 hc2
      · exact .single c rest
      · exact le_rfl
      all_goals have hc : 0x40 ≤ c.toNat := Nat.le_trans (by decide) (UInt8.le_iff_toNat_le.mp (UInt8.not_lt.mp hc2))
      · exact ok_utf8Two hc
      · exact ok_utf8Three hc
      · exact ok_utf8Four hc
      · exact le_rfl
    case big5 | big5hkscs =>
      simp only [getNextChar]
      split_ifs with h
      · exact ok_twoBytes _ (hge (by decide) h.1) (forall_uint8 (by decide +kernel))
      · exact .single c rest
    case gb2312 =>
      simp only [getNextChar]
      split_ifs with h
      · exact ok_twoBytes _ (hge (by decide) h.1) gb2312Trail_toNat
      · exact .single c rest
      · exact le_rfl
    case sjis =>
      simp only [getNextChar]
      split_ifs with h
      · have hc : 0x80 ≤ c.toNat := by
          rcases h with h | h <;> exact hge (by decide) h.1
        exact ok_twoBytes _ hc (forall_uint8 (by decide +kernel))
      · exact .single c rest
      · exact le_rfl
    case eucjp =>
      simp only [getNextChar]
      split_ifs with h h8e h8f
      · exact ok_twoBytes _ (hge (by decide) h.1) gb2312Trail_toNat
      · exact ok_twoBytes _ (by rw [h8e]; decide) (forall_uint8 (by decide +kernel))
      · exact ok_eucjpThree (by rw [h8f]; decide)
      · exact .single c rest
      · exact le_rfl
    all_goals exact .single c rest

end Decoding

/-! ### The loop -/

section Loop

variable {o : EscapeOptions} {old out rest : Bytes}

theorem length_findEntityForChar_le (charset : EntityCharset) (table : EntityTable) (k : ℕ) (rest : Bytes) :
    (findEntityForChar charset table k rest).2.length ≤ rest.length := by
  fun_cases findEntityForChar charset table k rest
  all_goals simp only [length_drop]
  all_goals omega

theorem entityOrChar_snd (o : EscapeOptions) (thisChar : ℕ) (mbsequence : Bytes) (found : Option String × Bytes) :
    (entityOrChar o thisChar mbsequence found).2 = found.2 := by
  obtain ⟨rep, rest⟩ := found
  cases rep with
  | none | some rep => rfl

theorem length_escapeChar_le (o : EscapeOptions) (thisChar : ℕ) (mbsequence rest : Bytes) :
    (escapeChar o thisChar mbsequence rest).2.length ≤ rest.length := by
  fun_cases escapeChar o thisChar mbsequence rest
  case case1 => exact le_rfl
  case case2 => exact le_rfl
  all_goals rw [entityOrChar_snd]
  all_goals exact length_findEntityForChar_le _ _ _ _

theorem length_escapeAmp_le (o : EscapeOptions) (rest : Bytes) : (escapeAmp o rest).2.length ≤ rest.length := by
  fun_cases escapeAmp o rest
  all_goals simp only [length_drop]
  all_goals omega

/-- A turn consumes a byte at least. -/
theorem length_escapeStep_lt (hne : old ≠ []) (h : escapeStep o old = some (out, rest)) : rest.length < old.length := by
  have hdrop : (old.drop (getNextChar o.charset old).advance).length < old.length := by
    have hpos := length_pos_iff.mpr hne
    have hle := (ok_getNextChar o.charset old).one_le
    rw [length_drop]
    omega
  unfold escapeStep at h
  split at h
  case h_1 advance hnext =>
    rw [hnext] at hdrop
    split_ifs at h <;> cases h <;> exact hdrop
  case h_2 thisChar advance hnext =>
    rw [hnext] at hdrop
    split_ifs at h
    · have := length_escapeAmp_le o (old.drop advance)
      rw [some.inj h] at this
      exact this.trans_lt hdrop
    · have := length_escapeChar_le o thisChar (old.take advance) (old.drop advance)
      rw [some.inj h] at this
      exact this.trans_lt hdrop

/-- The loop of `php_escape_html_entities_ex`; nothing when an invalid sequence ends it. -/
def escapeLoop (o : EscapeOptions) (old : Bytes) : Option Bytes :=
  if _hne : old = [] then some []
  else
    match _hs : escapeStep o old with
    | none => none
    | some (out, rest) => (escapeLoop o rest).map fun more => out ++ more
termination_by old.length
decreasing_by exact length_escapeStep_lt _hne _hs

/-- `php_escape_html_entities_ex(old, …)`. -/
def phpEscapeHtmlEntitiesEx (o : EscapeOptions) (old : Bytes) : Bytes := (escapeLoop o old).getD []

end Loop

/-! ### What is written -/

/-- The bytes that are markup. -/
def isSpecial (b : UInt8) : Bool := b == lt || b == gt || b == quot || b == apos || b == amp

/-- A text of bytes that are not special and of character references. -/
inductive Escaped : Bytes → Prop where
  /-- The empty text. -/
  | nil : Escaped []
  /-- A byte that is not special. -/
  | byte {b : UInt8} {rest : Bytes} (hb : isSpecial b = false) (h : Escaped rest) : Escaped (b :: rest)
  /-- A character reference. -/
  | ref {body rest : Bytes} (hbody : isReference body = true) (h : Escaped rest) : Escaped (reference body ++ rest)

theorem Escaped.append {a b : Bytes} (ha : Escaped a) (hb : Escaped b) : Escaped (a ++ b) := by
  induction ha with
  | nil => exact hb
  | byte hb' _ ih => exact .byte hb' ih
  | ref hbody _ ih =>
    rw [append_assoc]
    exact .ref hbody ih

theorem Escaped.reference {body : Bytes} (h : isReference body = true) : Escaped (reference body) := by
  rw [← append_nil (Html.reference body)]
  exact .ref h .nil

theorem isSpecial_of_high : ∀ b : UInt8, 0x40 ≤ b.toNat → isSpecial b = false := by
  intro b h
  simp [isSpecial, lt, gt, quot, apos, amp, ← UInt8.toNat_inj]
  omega

theorem Escaped.of_high {bs : Bytes} (h : High bs) : Escaped bs := by
  induction bs with
  | nil => exact .nil
  | cons b bs ih =>
    exact .byte (isSpecial_of_high b (h b mem_cons_self)) (ih fun x hx => h x (mem_cons_of_mem b hx))

theorem escaped_replacement (o : EscapeOptions) : Escaped o.replacement := by
  unfold replacement
  split
  · apply Escaped.of_high
    exact .cons (by decide) (.cons (by decide) (.cons (by decide) .nil))
  · have hbody : isReference (cstr "#xFFFD") = true := by decide
    exact .reference hbody

/-! ### Entities -/

section Entities

variable {o : EscapeOptions} {rest rest' : Bytes} {name : String} {k : ℕ} {charset : EntityCharset}

theorem isReference_of_findEntityForChar {table : EntityTable}
    (hok : (table.all fun block => block.2.all fun row => row.2.ok) = true)
    (h : findEntityForChar charset table k rest = (some name, rest')) : isReference (cstr name) = true := by
  unfold findEntityForChar at h
  split at h
  · cases h
  split at h
  · cases h
  · rename_i name' hrow
    obtain ⟨rfl⟩ := some.inj (congrArg Prod.fst h)
    exact ok_of_stage1Row hok hrow
  · rename_i default rows hrow
    have hrow := ok_of_stage1Row hok hrow
    rw [EntityRow.ok, Bool.and_eq_true, List.all_eq_true] at hrow
    have hdefault : default = some name → isReference (cstr name) = true := by
      rintro rfl
      exact hrow.1
    split at h
    · exact hdefault (congrArg Prod.fst h)
    split at h
    · rename_i row hfind
      obtain ⟨rfl⟩ := some.inj (congrArg Prod.fst h)
      exact hrow.2 row (mem_of_find?_eq_some hfind)
    · exact hdefault (congrArg Prod.fst h)

theorem isReference_of_findEntityForCharBasic {table : List (ℕ × EntityRow)}
    (hok : (table.all fun row => row.2.ok) = true) (h : findEntityForCharBasic table k = some name) :
    isReference (cstr name) = true := by
  unfold findEntityForCharBasic at h
  split_ifs at h
  split at h
  · rename_i name' hrow
    cases h
    exact ok_of_stage3Row hok hrow
  · cases h

theorem EscapeOptions.msTable_ok (o : EscapeOptions) :
    (o.msTable.all fun block => block.2.all fun row => row.2.ok) = true := by
  unfold msTable
  split
  · exact entityMsTableHtml5_ok
  · exact entityMsTableHtml4_ok

theorem EscapeOptions.basicTable_ok (o : EscapeOptions) : (o.basicTable.all fun row => row.2.ok) = true := by
  unfold basicTable
  split
  · exact beNoapos_ok
  · exact beApos_ok

/-- The code points of the special bytes but `&`. -/
def specials : List ℕ := [34, 39, 60, 62]

/-- There is an entity for the code point, whatever follows it. -/
def EntityRow.always : EntityRow → Bool
  | .entity _ => true
  | .multicodepoint default _ => default.isSome

/-- Every table has an entity for them. -/
theorem specials_ok : ∀ k ∈ specials,
    (∀ table ∈ [beNoapos, beApos], (findEntityForCharBasic table k).isSome = true) ∧
      ∀ table ∈ [entityMsTableHtml4, entityMsTableHtml5], (stage1Row table k).any EntityRow.always = true := by
  decide +kernel

theorem mapToUnicode_specials {table : List ℕ} (ht : encToUniIndex charset = some table)
    (hk : k ∈ specials) : mapToUnicode k table = k := by
  cases charset
  all_goals cases ht
  all_goals
    revert hk
    revert k
    decide +kernel

theorem specials_small : ∀ k ∈ specials, ¬ 0x1D < k / 4096 := by decide

theorem EscapeOptions.basicTable_specials (o : EscapeOptions) (hk : k ∈ specials) :
    findEntityForCharBasic o.basicTable k ≠ none := by
  apply isSome_iff_ne_none.mp
  unfold basicTable
  split <;> exact (specials_ok k hk).1 _ (by simp)

theorem EscapeOptions.msTable_specials (o : EscapeOptions) (hk : k ∈ specials) (rest : Bytes) :
    (findEntityForChar o.charset o.msTable k rest).1 ≠ none := by
  have hrow : (stage1Row o.msTable k).any EntityRow.always = true := by
    unfold msTable
    split <;> exact (specials_ok k hk).2 _ (by simp)
  unfold findEntityForChar
  split
  · exact absurd ‹_› (specials_small k hk)
  cases hfound : stage1Row o.msTable k with
  | none =>
    rw [hfound] at hrow
    cases hrow
  | some row =>
    rw [hfound, any_some] at hrow
    cases row with
    | entity name => exact some_ne_none name
    | multicodepoint default rows =>
      have hdefault : default ≠ none := isSome_iff_ne_none.mp hrow
      dsimp only
      split
      · exact hdefault
      · split
        · exact some_ne_none _
        · exact hdefault

variable {mbsequence : Bytes}

/-- A character that is passed through. -/
theorem escaped_mbsequence (hmb : (∃ c : UInt8, mbsequence = [c] ∧ k = c.toNat) ∨ High mbsequence) (hamp : k ≠ 38)
    (hk : k ∉ specials) :
    Escaped mbsequence := by
  have hspecial : ∀ c : UInt8, c.toNat ≠ 38 → c.toNat ∉ specials → isSpecial c = false := by
    intro c h hs
    simp [specials, isSpecial, lt, gt, quot, apos, amp, ← UInt8.toNat_inj] at hs ⊢
    omega
  rcases hmb with ⟨c, rfl, rfl⟩ | hhigh
  · exact .byte (hspecial c hamp hk) .nil
  · exact .of_high hhigh

theorem escaped_entityOrChar {found : Option String × Bytes}
    (hname : ∀ name, found.1 = some name → isReference (cstr name) = true) (hmb : found.1 = none → Escaped mbsequence) :
    Escaped (entityOrChar o k mbsequence found).1 := by
  obtain ⟨rep, rest⟩ := found
  cases rep with
  | some rep => exact .reference (hname rep rfl)
  | none =>
    unfold entityOrChar
    dsimp only
    split
    · exact escaped_replacement o
    · exact hmb rfl

/-- `ENT_QUOTES` is set. -/
def EscapeOptions.Quotes (o : EscapeOptions) : Prop := o.flags &&& 3 = 3

theorem EscapeOptions.Quotes.has (h : o.Quotes) {flag : ℕ} (hflag : 3 &&& flag ≠ 0) : o.has flag = true := by
  have hbits := congrArg (· &&& flag) h
  simp only [Nat.and_assoc] at hbits
  refine bne_iff_ne.mpr fun h0 => hflag ?_
  rw [← hbits, Nat.and_comm 3, ← Nat.and_assoc, h0, Nat.zero_and]

theorem escaped_escapeChar (hq : o.Quotes) (hmb : (∃ c : UInt8, mbsequence = [c] ∧ k = c.toNat) ∨ High mbsequence)
    (hamp : k ≠ 38) :
    Escaped (escapeChar o k mbsequence rest).1 := by
  have hfound : ∀ j, ∀ name, (findEntityForChar o.charset o.msTable j rest).1 = some name →
      isReference (cstr name) = true := by
    intro j name h
    exact isReference_of_findEntityForChar o.msTable_ok (Prod.ext h rfl)
  unfold escapeChar
  rw [hq.has (by decide : 3 &&& 1 ≠ 0), hq.has (by decide : 3 &&& 2 ≠ 0), Bool.not_true, Bool.and_false,
    Bool.and_false, Bool.or_false, if_neg Bool.false_ne_true]
  split_ifs with hall
  · cases htable : o.toUniTable with
    | none =>
      apply escaped_entityOrChar (hfound k)
      intro hnone
      exact escaped_mbsequence hmb hamp fun hk => o.msTable_specials hk rest hnone
    | some table =>
      have htable' : encToUniIndex o.charset = some table := by
        unfold toUniTable at htable
        split_ifs at htable
        exact htable
      dsimp only
      split_ifs with hnomap
      · apply escaped_mbsequence hmb hamp
        intro hk
        rw [mapToUnicode_specials htable' hk] at hnomap
        rw [hnomap] at hk
        revert hk
        decide
      · apply escaped_entityOrChar (hfound _)
        intro hnone
        apply escaped_mbsequence hmb hamp
        intro hk
        rw [mapToUnicode_specials htable' hk] at hnone
        exact o.msTable_specials hk rest hnone
  · apply escaped_entityOrChar
    · intro name h
      exact isReference_of_findEntityForCharBasic o.basicTable_ok h
    · intro hnone
      exact escaped_mbsequence hmb hamp fun hk => o.basicTable_specials hk hnone

end Entities

/-! ### References that are kept -/

section Kept

theorem isAlnum_of_isDigit : ∀ c, isDigit c = true → isAlnum c = true := by
  intro c h
  simp [isDigit, isAlnum] at h ⊢
  simp [h]

theorem isAlnum_of_isXdigit : ∀ c, isXdigit c = true → isAlnum c = true := by
  intro c h
  simp [isXdigit, isDigit, isAlnum, UInt8.le_iff_toNat_le] at h ⊢
  omega

theorem isAlnum_of_isX : ∀ c, isX c = true → isAlnum c = true := by
  intro c h
  simp [isX] at h
  rcases h with rfl | rfl <;> rfl

theorem isReference_hash {digits : Bytes} (hne : digits ≠ []) (h : ∀ c ∈ digits, isAlnum c = true) :
    isReference (hash :: digits) = true := by
  have hhead : (hash :: digits).head? = some 35 := rfl
  rw [isReference, if_pos hhead, tail_cons, Bool.and_eq_true, List.all_eq_true]
  exact ⟨by simpa using hne, h⟩

theorem take_length_takeWhile (p : UInt8 → Bool) (buf : Bytes) : buf.take (buf.takeWhile p).length = buf.takeWhile p :=
  (prefix_iff_eq_take.mp (List.takeWhile_prefix p)).symm

/-- What `strtol` reads in base 16 is letters and digits. -/
theorem isAlnum_strtolHex (buf : Bytes) : ∀ c ∈ buf.take (strtolHex buf).2, isAlnum c = true := by
  have hdigits : ∀ (bs : Bytes), ∀ c ∈ bs.take (bs.takeWhile isXdigit).length, isAlnum c = true := by
    intro bs c hc
    rw [take_length_takeWhile] at hc
    exact isAlnum_of_isXdigit c (mem_takeWhile_imp hc)
  fun_cases strtolHex buf with
  | case1 c₀ c₁ c₂ rest h digits =>
    intro c hc
    rw [show (digitsValue 16 digits, digits.length + 2).2 = digits.length + 2 from rfl, take_succ_cons,
      take_succ_cons] at hc
    rcases mem_cons.mp hc with rfl | hc
    · rw [h.1]
      decide
    · rcases mem_cons.mp hc with rfl | hc
      · exact isAlnum_of_isX _ h.2.1
      · exact hdigits _ c hc
  | case2 c₀ c₁ c₂ rest h digits | case3 => exact hdigits _

theorem numericEnd_eq_some {buf digits : Bytes} {read : ℕ × ℕ} {codePoint : ℕ}
    (h : numericEnd buf read = some (codePoint, digits)) : digits = buf.take read.2 := by
  unfold numericEnd at h
  split_ifs at h
  exact (Prod.mk.inj (some.inj h)).2.symm

theorem isReference_of_processNumericEntity {buf digits : Bytes} {codePoint : ℕ}
    (h : processNumericEntity buf = some (codePoint, digits)) : isReference (hash :: digits) = true := by
  cases buf with
  | nil => cases h
  | cons c buf =>
    unfold processNumericEntity at h
    dsimp only at h
    split_ifs at h with hx hxd hd
    · obtain ⟨⟨cp, ds⟩, hend, heq⟩ := map_eq_some_iff.mp h
      cases heq
      apply isReference_hash (cons_ne_nil _ _)
      intro x hmem
      rcases mem_cons.mp hmem with rfl | hmem
      · exact isAlnum_of_isX _ hx
      · rw [numericEnd_eq_some hend] at hmem
        exact isAlnum_strtolHex buf x hmem
    · have hdigits := numericEnd_eq_some h
      rw [strtolDec, take_length_takeWhile] at hdigits
      subst hdigits
      apply isReference_hash
      · rw [takeWhile_cons_of_pos hd]
        exact cons_ne_nil _ _
      · intro x hmem
        exact isAlnum_of_isDigit x (mem_takeWhile_imp hmem)

theorem isReference_of_processNamedEntityHtml {buf name : Bytes} (h : processNamedEntityHtml buf = some name) :
    isReference name = true := by
  unfold processNamedEntityHtml at h
  dsimp only at h
  split_ifs at h with hend
  cases h
  have hall : ∀ c ∈ buf.takeWhile isAlnum, isAlnum c = true := fun c hc => mem_takeWhile_imp hc
  have hhash : (buf.takeWhile isAlnum).head? ≠ some 35 := by
    intro hhead
    have := hall 35 (mem_of_mem_head? hhead)
    revert this
    decide
  rw [isReference, if_neg hhash, Bool.and_eq_true, List.all_eq_true]
  exact ⟨by simpa using hend.2, hall⟩

theorem isReference_of_keptReference {o : EscapeOptions} {rest ent : Bytes} (h : keptReference o rest = some ent) :
    isReference ent = true := by
  cases rest with
  | nil => cases h
  | cons c rest =>
    unfold keptReference at h
    dsimp only at h
    split_ifs at h
    · split at h
      · rename_i codePoint digits hnum
        split_ifs at h
        cases h
        exact isReference_of_processNumericEntity hnum
      · cases h
    · split at h
      · rename_i name hname
        split_ifs at h
        cases h
        exact isReference_of_processNamedEntityHtml hname
      · cases h

theorem escaped_escapeAmp (o : EscapeOptions) (rest : Bytes) : Escaped (escapeAmp o rest).1 := by
  have hamp : isReference (cstr "amp") = true := by decide
  unfold escapeAmp
  split_ifs
  · exact .reference hamp
  · split
    · exact .reference (isReference_of_keptReference ‹_›)
    · exact .reference hamp

end Kept

/-! ### The whole text -/

section Whole

variable {o : EscapeOptions} {old out rest : Bytes}

theorem escaped_escapeStep (hq : o.Quotes) (h : escapeStep o old = some (out, rest)) : Escaped out := by
  have hok := ok_getNextChar o.charset old
  unfold escapeStep at h
  split at h
  case h_1 advance hnext =>
    split_ifs at h
    · cases h
      exact .nil
    · cases h
      exact escaped_replacement o
  case h_2 thisChar advance hnext =>
    rw [hnext] at hok
    split_ifs at h with hamp
    · rw [← show (escapeAmp o (old.drop advance)).1 = out from congrArg Prod.fst (some.inj h)]
      exact escaped_escapeAmp o _
    rw [← show (escapeChar o thisChar (old.take advance) (old.drop advance)).1 = out from
      congrArg Prod.fst (some.inj h)]
    refine escaped_escapeChar hq ?_ hamp
    rcases hok with ⟨rfl, c, rest', rfl, rfl⟩ | ⟨-, -, hhigh⟩
    · exact .inl ⟨c, rfl, rfl⟩
    · exact .inr hhigh

theorem escaped_escapeLoop (hq : o.Quotes) (h : escapeLoop o old = some out) : Escaped out := by
  fun_induction escapeLoop o old generalizing out with
  | case1 =>
    cases h
    exact .nil
  | case2 old hne hs => cases h
  | case3 old hne piece rest hs ih =>
    obtain ⟨more, hmore, rfl⟩ := map_eq_some_iff.mp h
    exact (escaped_escapeStep hq hs).append (ih hmore)

/-- There is no markup in a text: no `<`, `>` or quote, and every `&` starts a character reference. -/
def NoMarkup (text : Bytes) : Prop :=
  lt ∉ text ∧ gt ∉ text ∧ quot ∉ text ∧ apos ∉ text ∧
    ∀ before after, text = before ++ amp :: after →
      ∃ body rest, after = body ++ semi :: rest ∧ isReference body = true

theorem isSpecial_of_isAlnum : ∀ c, isAlnum c = true → isSpecial c = false := by
  intro c h
  simp [isAlnum, isSpecial, lt, gt, quot, apos, amp, ← UInt8.toNat_inj, UInt8.le_iff_toNat_le] at h ⊢
  omega

theorem isSpecial_of_mem_reference {body : Bytes} (h : isReference body = true) (hc : c ∈ body ++ [semi]) :
    isSpecial c = false := by
  rcases mem_append.mp hc with hc | hc
  · rw [isReference, Bool.and_eq_true, List.all_eq_true] at h
    split_ifs at h with hhead
    · obtain ⟨digits, rfl⟩ := head?_eq_some_iff.mp hhead
      rcases mem_cons.mp hc with rfl | hc
      · decide
      · exact isSpecial_of_isAlnum c (h.2 c hc)
    · exact isSpecial_of_isAlnum c (h.2 c hc)
  · rw [mem_singleton.mp hc]
    decide

variable {text : Bytes}

theorem Escaped.notMem (h : Escaped text) {b : UInt8} (hb : isSpecial b = true) (hamp : b ≠ amp) : b ∉ text := by
  induction h with
  | nil => exact not_mem_nil
  | byte hc _ ih =>
    rw [mem_cons, not_or]
    refine ⟨?_, ih⟩
    rintro rfl
    rw [hb] at hc
    cases hc
  | @ref body rest hbody _ ih =>
    rw [Html.reference, cons_append, mem_cons, mem_append, not_or, not_or]
    refine ⟨hamp, ?_, ih⟩
    intro hmem
    rw [isSpecial_of_mem_reference hbody hmem] at hb
    cases hb

/-- A `&` of an escaped text is the first byte of one of its references. -/
theorem Escaped.reference_at_amp (h : Escaped text) :
    ∀ before after, text = before ++ amp :: after →
      ∃ body rest, after = body ++ semi :: rest ∧ isReference body = true := by
  induction h with
  | nil =>
    intro before after heq
    cases before <;> cases heq
  | byte hc _ ih =>
    intro before after heq
    cases before with
    | nil =>
      cases heq
      cases hc
    | cons x before => exact ih before after (List.cons.inj heq).2
  | @ref body rest hbody _ ih =>
    intro before after heq
    rw [Html.reference, cons_append] at heq
    cases before with
    | nil =>
      have hafter := (List.cons.inj heq).2
      refine ⟨body, rest, ?_, hbody⟩
      rw [← hafter, append_assoc, singleton_append]
    | cons x before =>
      rcases append_eq_append_iff.mp (List.cons.inj heq).2 with ⟨l, hbefore, hrest⟩ | ⟨l, hfront, hback⟩
      · exact ih l after hrest
      -- the `&` would have to be in the reference
      cases l with
      | nil => exact ih [] after hback.symm
      | cons y l =>
        cases hback
        have hmem : amp ∈ body ++ [semi] := by
          rw [hfront]
          exact mem_append_right _ mem_cons_self
        have := isSpecial_of_mem_reference hbody hmem
        cases this

theorem Escaped.noMarkup (h : Escaped text) : NoMarkup text :=
  ⟨h.notMem (by decide) (by decide), h.notMem (by decide) (by decide), h.notMem (by decide) (by decide),
    h.notMem (by decide) (by decide), h.reference_at_amp⟩

/-- With `ENT_QUOTES`, escaping lets no markup through: whatever the bytes, the charset, the document type and the other
flags are, and whether or not references of the input are kept. -/
theorem noMarkup_phpEscapeHtmlEntitiesEx (o : EscapeOptions) (hq : o.Quotes) (old : Bytes) :
    NoMarkup (phpEscapeHtmlEntitiesEx o old) := by
  apply Escaped.noMarkup
  unfold phpEscapeHtmlEntitiesEx
  cases hloop : escapeLoop o old with
  | none => exact .nil
  | some out => exact escaped_escapeLoop hq hloop

/-- Shift_JIS, HTML 5, `ENT_QUOTES | ENT_SUBSTITUTE`, and references kept: a lead byte does not swallow the `<`. -/
theorem noMarkup_phpEscapeHtmlEntitiesEx_sjis :
    let o : EscapeOptions := ⟨.sjis, true, 3 + 8 + 48, false⟩
    phpEscapeHtmlEntitiesEx o (0x81 :: cstr "<a>&lt;&") = cstr "&#xFFFD;&lt;a&gt;&lt;&amp;" ∧
      NoMarkup (phpEscapeHtmlEntitiesEx o (0x81 :: cstr "<a>&lt;&")) :=
  ⟨by decide +kernel, noMarkup_phpEscapeHtmlEntitiesEx _ (by unfold EscapeOptions.Quotes; decide) _⟩

end Whole

end PhpSandbox.Html
