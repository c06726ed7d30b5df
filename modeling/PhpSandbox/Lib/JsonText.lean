import Mathlib.Algebra.Field.Rat
import PhpSandbox.Lib.Decimal
import PhpSandbox.Lib.Utf8

/-!
# JSON texts

The grammar of RFC 8259 over bytes in UTF-8, as relations between a text and what it denotes.

The relations have a parameter `plain`: the code points that may stand in a string as they are, or behind a backslash
in the short form. All others have to be written with `\u`. The grammar of the RFC is the one where `plain` holds for
all code points; a smaller `plain` says more about the text.
-/

namespace PhpSandbox.Lib

/-- What a text denotes. A string is its code points, and the members of an object are in their order. -/
inductive Json where
  | null
  /-- `true` or `false`. -/
  | bool (b : Bool)
  /-- A number. -/
  | number (q : ℚ)
  /-- A string. -/
  | string (cps : List ℕ)
  /-- An array. -/
  | array (elements : List Json)
  /-- An object. -/
  | object (members : List (List ℕ × Json))

mutual

/-- How many commas a text has that are not in a string. -/
def Json.commas : Json → ℕ
  | .array elements => Json.items elements - 1
  | .object members => Json.memberItems members - 1
  | _ => 0

/-- The same for elements with a comma behind each. -/
def Json.items : List Json → ℕ
  | [] => 0
  | j :: js => j.commas + 1 + Json.items js

/-- The same for members. -/
def Json.memberItems : List (List ℕ × Json) → ℕ
  | [] => 0
  | m :: ms => m.2.commas + 1 + Json.memberItems ms

end

namespace JsonText

open List

/-! ### White space and numbers -/

/-- `ws`. -/
def IsWs (t : Bytes) : Prop := ∀ c ∈ t, c = 0x20 ∨ c = 0x09 ∨ c = 0x0A ∨ c = 0x0D

/-- `int`: no zero in front of other digits. -/
def IsIntPart (t : Bytes) : Prop := t = ascii "0" ∨ (t.all isDecimal ∧ ∃ c ∈ t.head?, c ≠ 48)

/-- `[ frac ]`. -/
inductive IsFrac : Bytes → ℚ → Prop
  /-- There is none. -/
  | none : IsFrac [] 0
  /-- A point and digits. -/
  | digits {ds : Bytes} (hne : ds ≠ []) (hds : ds.all isDecimal) : IsFrac (46 :: ds) (decimalValue ds / 10 ^ ds.length)

/-- `[ exp ]`. -/
inductive IsExp : Bytes → ℤ → Prop
  /-- There is none. -/
  | none : IsExp [] 0
  /-- Digits, maybe behind a plus. -/
  | plus {e : UInt8} {sign ds : Bytes} (he : e = 101 ∨ e = 69) (hsign : sign = [] ∨ sign = [43]) (hne : ds ≠ [])
      (hds : ds.all isDecimal) : IsExp (e :: sign ++ ds) (decimalValue ds)
  /-- Digits behind a minus. -/
  | minus {e : UInt8} {ds : Bytes} (he : e = 101 ∨ e = 69) (hne : ds ≠ []) (hds : ds.all isDecimal) :
      IsExp (e :: 45 :: ds) (-decimalValue ds)

/-- `number` without its sign. -/
inductive IsUnsigned : Bytes → ℚ → Prop
  /-- The three parts. -/
  | mk {i f e : Bytes} {q : ℚ} {k : ℤ} (hi : IsIntPart i) (hf : IsFrac f q) (he : IsExp e k) :
      IsUnsigned (i ++ f ++ e) ((decimalValue i + q) * 10 ^ k)

/-- `number`. -/
inductive IsNumber : Bytes → ℚ → Prop
  /-- Without a sign. -/
  | plain {t : Bytes} {q : ℚ} (h : IsUnsigned t q) : IsNumber t q
  /-- With a minus. -/
  | minus {t : Bytes} {q : ℚ} (h : IsUnsigned t q) : IsNumber (45 :: t) (-q)

/-! ### Strings -/

/-- `HEXDIG`, in either case. -/
def hexValue (c : UInt8) : Option ℕ :=
  if 48 ≤ c ∧ c ≤ 57 then some (c.toNat - 48)
  else if 65 ≤ c ∧ c ≤ 70 then some (c.toNat - 55)
  else if 97 ≤ c ∧ c ≤ 102 then some (c.toNat - 87)
  else none

/-- `%x75 4HEXDIG` behind its backslash. -/
inductive IsUnit : Bytes → ℕ → Prop
  /-- The four digits. -/
  | mk {a b c d : UInt8} {w x y z : ℕ} (ha : hexValue a = some w) (hb : hexValue b = some x)
      (hc : hexValue c = some y) (hd : hexValue d = some z) :
      IsUnit [92, 117, a, b, c, d] (((w * 16 + x) * 16 + y) * 16 + z)

/-- The escapes of one character, with what they stand for. -/
def shortEscapes : List (UInt8 × ℕ) :=
  [(34, 0x22), (92, 0x5C), (47, 0x2F), (98, 0x08), (102, 0x0C), (110, 0x0A), (114, 0x0D), (116, 0x09)]

/-- `char`. A code point that is not in the Basic Multilingual Plane is a pair of surrogates. -/
inductive IsChar (plain : ℕ → Prop) : Bytes → ℕ → Prop
  | unescaped {cp : ℕ} (hplain : plain cp) (hscalar : IsScalar cp) (hlow : 0x20 ≤ cp) (hquot : cp ≠ 0x22)
      (hback : cp ≠ 0x5C) : IsChar plain (utf8 cp) cp
  /-- A backslash and a character. -/
  | short {e : UInt8} {cp : ℕ} (hplain : plain cp) (h : (e, cp) ∈ shortEscapes) : IsChar plain [92, e] cp
  /-- `\uXXXX`. -/
  | unit {t : Bytes} {cp : ℕ} (h : IsUnit t cp) (hscalar : IsScalar cp) : IsChar plain t cp
  /-- `\uXXXX\uXXXX`. -/
  | pair {t u : Bytes} {cp high low : ℕ} (hcp : utf16 cp = [high, low]) (hscalar : IsScalar cp) (ht : IsUnit t high)
      (hu : IsUnit u low) : IsChar plain (t ++ u) cp

/-- `*char`. -/
inductive IsChars (plain : ℕ → Prop) : Bytes → List ℕ → Prop
  /-- No character. -/
  | nil : IsChars plain [] []
  /-- One more in front. -/
  | cons {t ts : Bytes} {cp : ℕ} {cps : List ℕ} (h : IsChar plain t cp) (hs : IsChars plain ts cps) :
      IsChars plain (t ++ ts) (cp :: cps)

/-- `string`. -/
inductive IsString (plain : ℕ → Prop) : Bytes → List ℕ → Prop
  /-- The quotes and what is between them. -/
  | mk {t : Bytes} {cps : List ℕ} (h : IsChars plain t cps) : IsString plain (34 :: t ++ [34]) cps

/-! ### Values -/

/-- What is between the brackets of an array or an object that is not empty: items with commas between them, and white
space around each. -/
inductive Separated {α : Type} (item : Bytes → α → Prop) : Bytes → List α → Prop
  /-- The last item. -/
  | one {w t w' : Bytes} {a : α} (hw : IsWs w) (ht : item t a) (hw' : IsWs w') : Separated item (w ++ t ++ w') [a]
  /-- An item in front of others. -/
  | cons {w t w' r : Bytes} {a : α} {as : List α} (hw : IsWs w) (ht : item t a) (hw' : IsWs w')
      (hr : Separated item r as) : Separated item (w ++ t ++ w' ++ 44 :: r) (a :: as)

/-- `member`. -/
inductive IsMember (plain : ℕ → Prop) (value : Bytes → Json → Prop) : Bytes → List ℕ × Json → Prop
  /-- The name, a colon and the value. -/
  | mk {k w w' t : Bytes} {cps : List ℕ} {j : Json} (hk : IsString plain k cps) (hw : IsWs w) (hw' : IsWs w')
      (ht : value t j) : IsMember plain value (k ++ w ++ 58 :: w' ++ t) (cps, j)

/-- `value`. -/
inductive IsValue (plain : ℕ → Prop) : Bytes → Json → Prop
  | null : IsValue plain (ascii "null") .null
  | true : IsValue plain (ascii "true") (.bool Bool.true)
  | false : IsValue plain (ascii "false") (.bool Bool.false)
  | number {t : Bytes} {q : ℚ} (h : IsNumber t q) : IsValue plain t (.number q)
  | string {t : Bytes} {cps : List ℕ} (h : IsString plain t cps) : IsValue plain t (.string cps)
  /-- An array without elements. -/
  | emptyArray {w : Bytes} (hw : IsWs w) : IsValue plain (91 :: w ++ [93]) (.array [])
  | array {t : Bytes} {js : List Json} (h : Separated (IsValue plain) t js) : IsValue plain (91 :: t ++ [93])
    (.array js)
  /-- An object without members. -/
  | emptyObject {w : Bytes} (hw : IsWs w) : IsValue plain (123 :: w ++ [125]) (.object [])
  | object {t : Bytes} {ms : List (List ℕ × Json)} (h : Separated (IsMember plain (IsValue plain)) t ms) :
      IsValue plain (123 :: t ++ [125]) (.object ms)

/-- `JSON-text`. -/
inductive IsText (plain : ℕ → Prop) : Bytes → Json → Prop
  /-- A value with white space around it. -/
  | mk {w t w' : Bytes} {j : Json} (hw : IsWs w) (ht : IsValue plain t j) (hw' : IsWs w') :
      IsText plain (w ++ t ++ w') j

/-! ### Building texts -/

theorem isWs_nil : IsWs [] := fun _ hc => absurd hc not_mem_nil

theorem IsWs.append {t u : Bytes} (ht : IsWs t) (hu : IsWs u) : IsWs (t ++ u) := by
  intro c hc
  rcases mem_append.1 hc with hc | hc
  · exact ht c hc
  · exact hu c hc

variable {plain : ℕ → Prop}

theorem IsValue.isText {t : Bytes} {j : Json} (h : IsValue plain t j) : IsText plain t j := by
  have htext := IsText.mk isWs_nil h isWs_nil
  rwa [nil_append, append_nil] at htext

/-- Characters that are written one by one. -/
theorem isChars_flatMap {write : ℕ → Bytes} {cps : List ℕ}
    (h : ∀ cp ∈ cps, IsChar plain (write cp) cp) : IsChars plain (cps.flatMap write) cps := by
  induction cps with
  | nil => exact .nil
  | cons cp cps ih =>
    obtain ⟨hcp, hcps⟩ := forall_mem_cons.1 h
    exact .cons hcp (ih hcps)

/-- ASCII characters that are written as they are. -/
theorem isChars_map_toNat {t : Bytes}
    (h : ∀ c ∈ t, 0x20 ≤ c.toNat ∧ c.toNat < 0x80 ∧ c.toNat ≠ 0x22 ∧ c.toNat ≠ 0x5C ∧ plain c.toNat) :
    IsChars plain t (t.map UInt8.toNat) := by
  induction t with
  | nil => exact .nil
  | cons c t ih =>
    obtain ⟨⟨hlow, hascii, hquot, hback, hplain⟩, ht⟩ := forall_mem_cons.1 h
    have hchar := IsChar.unescaped hplain (.inl (by omega)) hlow hquot hback
    rw [utf8, if_pos hascii, UInt8.ofNat_toNat] at hchar
    exact .cons hchar (ih ht)

/-- The digits of a number do not start with a zero, except for zero itself. -/
theorem isIntPart_decimal (n : ℕ) : IsIntPart (decimal n) := by
  rcases Nat.eq_zero_or_pos n with rfl | hpos
  · exact .inl (decimal_of_lt (by decide))
  obtain ⟨c, rest, hdec, -, hzero⟩ := head_decimal n
  refine .inr ⟨all_isDecimal_decimal n, c, ?_, fun hc => ?_⟩
  · rw [hdec]
    rfl
  · exact hpos.ne' (hzero hc)

/-- A number in decimal is a number of JSON. -/
theorem isUnsigned_decimal (n : ℕ) : IsUnsigned (decimal n) n := by
  have h := IsUnsigned.mk (isIntPart_decimal n) .none .none
  rwa [append_nil, append_nil, decimalValue_decimal, add_zero, zpow_zero, mul_one] at h

/-! ### Walking through a text -/

/-- The bytes of a text that are neither commas nor in strings. -/
def isMark (c : UInt8) : Bool := (ascii " \t\n\r[]\x7b\x7d:+-.0123456789aeflnrstuE").contains c

theorem isMark_of_isWs {t : Bytes} (h : IsWs t) : ∀ c ∈ t, isMark c = true := by
  intro c hc
  rcases h c hc with rfl | rfl | rfl | rfl <;> decide

theorem isMark_of_isNumber {t : Bytes} {q : ℚ} (h : IsNumber t q) : ∀ c ∈ t, isMark c = true := by
  have hdigit : ∀ c, isDecimal c = true → isMark c = true := forall_uint8 (by decide +kernel)
  have hdigits : ∀ {ds : Bytes}, ds.all isDecimal = true → ∀ c ∈ ds, isMark c = true :=
    fun h c hc => hdigit c (all_eq_true.1 h c hc)
  have hunsigned : ∀ {t : Bytes} {q : ℚ}, IsUnsigned t q → ∀ c ∈ t, isMark c = true := by
    rintro _ _ ⟨hi, hf, he⟩
    simp only [forall_mem_append]
    refine ⟨⟨?_, ?_⟩, ?_⟩
    · rcases hi with rfl | ⟨hi, -⟩
      · decide
      · exact hdigits hi
    · cases hf with
      | none => exact forall_mem_nil _
      | digits _ hds => exact forall_mem_cons.2 ⟨rfl, hdigits hds⟩
    · cases he with
      | none => exact forall_mem_nil _
      | plus he hsign _ hds =>
        refine forall_mem_append.2 ⟨forall_mem_cons.2 ⟨?_, ?_⟩, hdigits hds⟩
        · rcases he with rfl | rfl <;> rfl
        · rcases hsign with rfl | rfl <;> decide
      | minus he _ hds =>
        refine forall_mem_cons.2 ⟨?_, forall_mem_cons.2 ⟨rfl, hdigits hds⟩⟩
        rcases he with rfl | rfl <;> rfl
  cases h with
  | plain h => exact hunsigned h
  | minus h => exact forall_mem_cons.2 ⟨rfl, hunsigned h⟩

/-- What is said of a part of a text and the commas in it, if it is said of the parts of the part. -/
structure Walk (plain : ℕ → Prop) (Q : Bytes → ℕ → Prop) : Prop where
  nil : Q [] 0
  append : ∀ {t u : Bytes} {k l : ℕ}, Q t k → Q u l → Q (t ++ u) (k + l)
  comma : Q [44] 1
  mark : ∀ {c : UInt8}, isMark c = true → Q [c] 0
  string : ∀ {t : Bytes} {cps : List ℕ}, IsString plain t cps → Q t 0

namespace Walk

variable {Q : Bytes → ℕ → Prop}

theorem marks (h : Walk plain Q) {t : Bytes} (ht : ∀ c ∈ t, isMark c = true) : Q t 0 := by
  induction t with
  | nil => exact h.nil
  | cons c t ih =>
    obtain ⟨hc, ht⟩ := forall_mem_cons.1 ht
    exact h.append (h.mark hc) (ih ht)

/-- White space around a part. -/
theorem around (h : Walk plain Q) {w t w' : Bytes} {k : ℕ} (hw : IsWs w) (ht : Q t k) (hw' : IsWs w') :
    Q (w ++ t ++ w') k := by
  have hall := h.append (h.append (h.marks (isMark_of_isWs hw)) ht) (h.marks (isMark_of_isWs hw'))
  rwa [Nat.zero_add, Nat.add_zero] at hall

/-- An item with a comma and other items behind it. -/
theorem item (h : Walk plain Q) {t r : Bytes} {k l : ℕ} (ht : Q t k) (hr : Q r (l - 1)) (hl : 0 < l) :
    Q (t ++ 44 :: r) (k + 1 + l - 1) := by
  have hall := h.append ht (h.append h.comma hr)
  rwa [show k + (1 + (l - 1)) = k + 1 + l - 1 by omega] at hall

/-- Brackets around a part. -/
theorem brackets (h : Walk plain Q) {t : Bytes} {k : ℕ} (a b : UInt8) (ha : isMark a = true) (hb : isMark b = true)
    (ht : Q t k) : Q (a :: t ++ [b]) k := by
  have hall := h.append (h.append (h.mark ha) ht) (h.mark hb)
  rwa [Nat.zero_add, Nat.add_zero] at hall

/-- A name in front of a part. -/
theorem member (h : Walk plain Q) {n w w' t : Bytes} {cps : List ℕ} {k : ℕ} (hn : IsString plain n cps) (hw : IsWs w)
    (hw' : IsWs w') (ht : Q t k) : Q (n ++ w ++ 58 :: w' ++ t) k := by
  have hmarks : ∀ c ∈ w ++ 58 :: w', isMark c = true :=
    forall_mem_append.2 ⟨isMark_of_isWs hw, forall_mem_cons.2 ⟨by decide, isMark_of_isWs hw'⟩⟩
  have hall := h.append (h.append (h.string hn) (h.marks hmarks)) ht
  rwa [Nat.zero_add, ← append_assoc] at hall

end Walk

mutual

/-- The walk through a value. -/
theorem IsValue.walk {Q : Bytes → ℕ → Prop} (hQ : Walk plain Q) :
    ∀ {t : Bytes} {j : Json}, IsValue plain t j → Q t j.commas
  | _, _, .null | _, _, .true | _, _, .false => hQ.marks (by decide)
  | _, _, .number h => hQ.marks (isMark_of_isNumber h)
  | _, _, .string h => hQ.string h
  | _, _, .emptyArray hw | _, _, .emptyObject hw =>
    hQ.brackets _ _ (by decide) (by decide) (hQ.marks (isMark_of_isWs hw))
  | _, _, .array h => hQ.brackets _ _ (by decide) (by decide) (walk_elements hQ h).1
  | _, _, .object h => hQ.brackets _ _ (by decide) (by decide) (walk_members hQ h).1

/-- The walk through elements. -/
theorem walk_elements {Q : Bytes → ℕ → Prop} (hQ : Walk plain Q) :
    ∀ {t : Bytes} {js : List Json}, Separated (IsValue plain) t js → Q t (Json.items js - 1) ∧ 0 < Json.items js
  | _, _, .one hw ht hw' => ⟨hQ.around hw (ht.walk hQ) hw', Nat.succ_pos _⟩
  | _, _, .cons hw ht hw' hr => by
    obtain ⟨hrest, hpos⟩ := walk_elements hQ hr
    exact ⟨hQ.item (hQ.around hw (ht.walk hQ) hw') hrest hpos, by rw [Json.items]; omega⟩

/-- The walk through members. -/
theorem walk_members {Q : Bytes → ℕ → Prop} (hQ : Walk plain Q) : ∀ {t : Bytes} {ms : List (List ℕ × Json)},
    Separated (IsMember plain (IsValue plain)) t ms → Q t (Json.memberItems ms - 1) ∧ 0 < Json.memberItems ms
  | _, _, .one hw (.mk hn hv hv' ht) hw' => ⟨hQ.around hw (hQ.member hn hv hv' (ht.walk hQ)) hw', Nat.succ_pos _⟩
  | _, _, .cons hw (.mk hn hv hv' ht) hw' hr => by
    obtain ⟨hrest, hpos⟩ := walk_members hQ hr
    exact ⟨hQ.item (hQ.around hw (hQ.member hn hv hv' (ht.walk hQ)) hw') hrest hpos, by rw [Json.memberItems]; omega⟩

end

theorem IsText.walk {Q : Bytes → ℕ → Prop} (hQ : Walk plain Q) {t : Bytes} {j : Json} (h : IsText plain t j) :
    Q t j.commas := by
  obtain ⟨hw, ht, hw'⟩ := h
  exact hQ.around hw (ht.walk hQ) hw'

/-! ### Counting commas -/

/-- Where a byte of a text is. -/
inductive Place where
  | outside
  | inString
  /-- Behind a backslash. -/
  | escaped

/-- The commas outside of strings. -/
def commasFrom : Place → Bytes → ℕ
  | _, [] => 0
  | .outside, c :: t =>
    if c = 34 then commasFrom .inString t else (if c = 44 then 1 else 0) + commasFrom .outside t
  | .inString, c :: t =>
    if c = 34 then commasFrom .outside t
    else if c = 92 then commasFrom .escaped t
    else commasFrom .inString t
  | .escaped, _ :: t => commasFrom .inString t

theorem commasFrom_plain {t : Bytes} (h : ∀ c ∈ t, c ≠ 34 ∧ c ≠ 92) (r : Bytes) :
    commasFrom .inString (t ++ r) = commasFrom .inString r := by
  induction t with
  | nil => rfl
  | cons c t ih =>
    obtain ⟨hc, ht⟩ := forall_mem_cons.1 h
    rw [cons_append, commasFrom, if_neg hc.1, if_neg hc.2, ih ht]

theorem commasFrom_unit {t : Bytes} {n : ℕ} (h : IsUnit t n) (r : Bytes) :
    commasFrom .inString (t ++ r) = commasFrom .inString r := by
  have hhex : ∀ c, (hexValue c).isSome = true → c ≠ 34 ∧ c ≠ 92 := forall_uint8 (by decide +kernel)
  obtain ⟨ha, hb, hc, hd⟩ := h
  refine commasFrom_plain (t := [_, _, _, _]) ?_ r
  simp only [forall_mem_cons]
  exact ⟨hhex _ (by rw [ha]; rfl), hhex _ (by rw [hb]; rfl), hhex _ (by rw [hc]; rfl), hhex _ (by rw [hd]; rfl),
    forall_mem_nil _⟩

theorem commasFrom_char {t : Bytes} {cp : ℕ} (h : IsChar plain t cp) (r : Bytes) :
    commasFrom .inString (t ++ r) = commasFrom .inString r := by
  cases h with
  | unescaped _ hscalar _ hquot hback =>
    exact commasFrom_plain (fun c hc => ⟨ne_of_mem_utf8 hscalar.lt (by decide) hquot hc,
      ne_of_mem_utf8 hscalar.lt (by decide) hback hc⟩) r
  | short _ _ => rfl
  | unit h _ => exact commasFrom_unit h r
  | pair _ _ ht hu => rw [append_assoc, commasFrom_unit ht, commasFrom_unit hu]

theorem commasFrom_chars {t : Bytes} {cps : List ℕ} (h : IsChars plain t cps) (r : Bytes) :
    commasFrom .inString (t ++ r) = commasFrom .inString r := by
  induction h with
  | nil => rfl
  | cons hchar _ ih => rw [append_assoc, commasFrom_char hchar, ih]

/-- **A text has as many commas as what it denotes.** -/
theorem IsText.commasFrom_eq {t : Bytes} {j : Json} (h : IsText plain t j) : commasFrom .outside t = j.commas := by
  have hmark : ∀ c, isMark c = true → c ≠ 34 ∧ c ≠ 44 := forall_uint8 (by decide +kernel)
  have hwalk : Walk plain fun t k => ∀ r, commasFrom .outside (t ++ r) = k + commasFrom .outside r := by
    refine ⟨fun r => (Nat.zero_add _).symm, fun ht hu r => ?_, fun r => rfl, fun hc r => ?_, fun hs r => ?_⟩
    · rw [append_assoc, ht, hu, Nat.add_assoc]
    · rw [cons_append, commasFrom, if_neg (hmark _ hc).1, if_neg (hmark _ hc).2]
      rfl
    · obtain ⟨hchars⟩ := hs
      rw [append_assoc, cons_append, commasFrom, if_pos rfl, commasFrom_chars hchars]
      exact (Nat.zero_add _).symm
  have hall := h.walk hwalk []
  rwa [append_nil] at hall

end JsonText

end PhpSandbox.Lib
