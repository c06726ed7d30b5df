import PhpSandbox.Var.Zval
import Mathlib.Data.List.DropRight

/-!
# `ext/filter/logical_filters.c`: `FILTER_VALIDATE_INT`

## The model

The byte behind a trimmed string is white space or the closing NUL, so a test on it is one on the end of the list.

## What is proved

`phpFilterInt_eq_some_iff`: the result is the integer that the text denotes, if that is in the range asked for. An octal
or hexadecimal number may be as large as `ULONG_MAX`; it becomes a `long` then, and may be negative. The theorem is not
about `0x` alone, which is taken for 0.
-/

namespace PhpSandbox.Filter

open Lib Zend Var List

/-- The bytes that `PHP_FILTER_TRIM_DEFAULT` takes away. -/
def isWhite (c : UInt8) : Bool := c == 32 || c == 9 || c == 13 || c == 11 || c == 10

/-- `PHP_FILTER_TRIM_DEFAULT`. -/
def trim (s : Bytes) : Bytes := (s.dropWhile isWhite).rdropWhile isWhite

/-- The digits from `'0'` to `last`. -/
def digitTo (last c : UInt8) : Option ℕ := if 48 ≤ c ∧ c ≤ last then some (c.toNat - 48) else none

def hexDigit (c : UInt8) : Option ℕ :=
  if 48 ≤ c ∧ c ≤ 57 then some (c.toNat - 48)
  else if 97 ≤ c ∧ c ≤ 102 then some (c.toNat - 87)
  else if 65 ≤ c ∧ c ≤ 70 then some (c.toNat - 55)
  else none

/-- The loop of the three parsers: `push` is what one digit does to `ctx_value`. -/
def digitLoop {α : Type} (digit : UInt8 → Option ℕ) (push : α → ℕ → Option α) (s : Bytes) (ctx : α) : Option α :=
  s.foldlM (fun ctx c => (digit c).bind (push ctx)) ctx

/-- `((sign)?-1:1) * v`. -/
def signed (sign : Bool) (v : ℕ) : ℤ := (if sign then -1 else 1) * v

def pushInt (sign : Bool) (ctx : ℤ) (digit : ℕ) : Option ℤ :=
  if ¬sign ∧ ctx ≤ (longMax - digit : ℤ).tdiv 10 then some (ctx * 10 + digit)
  else if sign ∧ (-2 ^ 63 + digit : ℤ).tdiv 10 ≤ ctx then some (ctx * 10 - digit)
  else none

def pushUnsigned (base ctx n : ℕ) : Option ℕ :=
  if (2 ^ 64 - 1) / base < ctx ∨ 2 ^ 64 - 1 - n < ctx * base then none else some (ctx * base + n)

/-- `php_filter_parse_int` from behind the sign. For zero `*ret` is left as it was, which is zero. -/
def parseDigits (sign : Bool) : Bytes → Option ℤ
  | [] => none
  | c :: str =>
    if c = 48 ∧ str = [] then some 0
    else if ¬(49 ≤ c ∧ c ≤ 57) ∨ 19 < str.length then none
    else digitLoop (digitTo 57) (pushInt sign) str (signed sign (c.toNat - 48))

def phpFilterParseInt (str : Bytes) : Option ℤ :=
  parseDigits (str.head? = some 45) (if str.head? = some 45 ∨ str.head? = some 43 then str.tail else str)

/-- What `php_filter_parse_octal` and `php_filter_parse_hex` do with their digits. -/
def parseUnsigned (digit : UInt8 → Option ℕ) (base : ℕ) (s : Bytes) : Option ℤ :=
  (digitLoop digit (pushUnsigned base) s 0).map fun ctx : ℕ => toLong ctx

def phpFilterParseOctal : Bytes → Option ℤ := parseUnsigned (digitTo 55) 8

def phpFilterParseHex : Bytes → Option ℤ := parseUnsigned hexDigit 16

/-- `FILTER_FLAG_ALLOW_OCTAL` and `FILTER_FLAG_ALLOW_HEX`. -/
structure Flags where
  allowOctal : Bool
  allowHex : Bool

variable (flags : Flags)

/-- The parser that `php_filter_int` takes for a trimmed string. -/
def parse : Bytes → Option ℤ
  | [] => none
  | c :: p =>
    if c = 48 then
      if flags.allowHex ∧ (p.head? = some 120 ∨ p.head? = some 88) then phpFilterParseHex p.tail
      else if flags.allowOctal then phpFilterParseOctal p
      else if p = [] then some 0 else none
    else phpFilterParseInt (c :: p)

/-- `php_filter_int`; `none` where the validation fails. -/
def phpFilterInt (minRange maxRange : Option ℤ) (value : Bytes) : Option ℤ :=
  (parse flags (trim value)).filter fun ctx =>
    ¬((∃ m ∈ minRange, ctx < m) ∨ ∃ m ∈ maxRange, m < ctx)

/-- The number that digits denote, behind those of `n`. -/
def numeral (digit : UInt8 → Option ℕ) (base : ℕ) : Bytes → ℕ → Option ℕ
  | [], n => some n
  | c :: s, n => (digit c).bind fun d => numeral digit base s (n * base + d)

/-- A decimal number without leading zeros. -/
def Decimal (s : Bytes) (v : ℕ) : Prop :=
  s ≠ [] ∧ (s.head? = some 48 → s = [48]) ∧ numeral (digitTo 57) 10 s 0 = some v

/-- Octal or hexadecimal digits denote an `unsigned long`, and `n` is that as a `long`. -/
def DenotesUnsigned (digit : UInt8 → Option ℕ) (base : ℕ) (s : Bytes) (n : ℤ) : Prop :=
  ∃ v : ℕ, numeral digit base s 0 = some v ∧ v ≤ 2 ^ 64 - 1 ∧ n = toLong v

/-- The `long` that a text denotes. -/
def Denotes (s : Bytes) (n : ℤ) : Prop :=
  (((∃ v : ℕ, Decimal s v ∧ n = v) ∨ (∃ t, ∃ v : ℕ, s = 43 :: t ∧ Decimal t v ∧ n = v) ∨
    ∃ t, ∃ v : ℕ, s = 45 :: t ∧ Decimal t v ∧ n = -v) ∧ IsLong n) ∨
  (flags.allowOctal ∧ ∃ t, s = 48 :: t ∧ DenotesUnsigned (digitTo 55) 8 t n) ∨
  flags.allowHex ∧ ∃ x t, (x = 120 ∨ x = 88) ∧ s = 48 :: x :: t ∧ t ≠ [] ∧ DenotesUnsigned hexDigit 16 t n

section

variable {digit : UInt8 → Option ℕ} {base : ℕ}

theorem pow_le_numeral : ∀ {s : Bytes} {n v : ℕ}, numeral digit base s n = some v → n * base ^ s.length ≤ v := by
  intro s
  induction s with
  | nil => simp [numeral]
  | cons c s ih =>
    intro n v h
    rcases hc : digit c with _ | d
    · simp [numeral, hc] at h
    rw [numeral, hc] at h
    calc n * base ^ (c :: s).length = n * base * base ^ s.length := by rw [length_cons, pow_succ', mul_assoc]
      _ ≤ (n * base + d) * base ^ s.length := Nat.mul_le_mul_right _ (by omega)
      _ ≤ v := ih h

/-- A loop that stops exactly where the number passes its bound gives the number if it is within the bound. -/
theorem digitLoop_eq_some_iff {α : Type} {push : α → ℕ → Option α} {bound : ℕ} (rep : ℕ → α) (hbase : 0 < base)
    (hpush : ∀ n c d, digit c = some d →
      push (rep n) d = if n * base + d ≤ bound then some (rep (n * base + d)) else none) {x : α} (s : Bytes) :
    ∀ n ≤ bound,
      digitLoop digit push s (rep n) = some x ↔ ∃ v, numeral digit base s n = some v ∧ v ≤ bound ∧ x = rep v := by
  induction s with
  | nil => simp +contextual [digitLoop, numeral, eq_comm]
  | cons c s ih =>
    intro n hn
    rcases hc : digit c with _ | d
    · simp [digitLoop, numeral, hc]
    have hloop : digitLoop digit push (c :: s) (rep n) = (push (rep n) d).bind (digitLoop digit push s) := by
      simp only [digitLoop, foldlM_cons, hc]
      rfl
    rw [hloop, numeral, hc, hpush n c d hc, Option.bind_some]
    split_ifs with h
    · exact ih _ h
    refine iff_of_false (by simp) ?_
    rintro ⟨v, hv, hle, -⟩
    have := pow_le_numeral hv
    have := Nat.le_mul_of_pos_right (n * base + d) (Nat.pow_pos (n := s.length) hbase)
    omega

theorem parseUnsigned_eq_some_iff (hbase : 0 < base) (hdigit : ∀ c d, digit c = some d → d < 256) {s : Bytes} {n : ℤ} :
    parseUnsigned digit base s = some n ↔ DenotesUnsigned digit base s n := by
  have hpush n c d (hc : digit c = some d) : pushUnsigned base n d =
      if n * base + d ≤ 2 ^ 64 - 1 then some (n * base + d) else none := by
    have := hdigit c d hc
    have := Nat.div_lt_iff_lt_mul hbase (x := 2 ^ 64 - 1) (y := n)
    rw [pushUnsigned, ← ite_not]
    congr 1
    grind
  simp only [parseUnsigned, Option.map_eq_some_iff, digitLoop_eq_some_iff (fun n => n) hbase hpush s 0 (by omega),
    DenotesUnsigned]
  grind

end

theorem isLong_signed (sign : Bool) (v : ℕ) : IsLong (signed sign v) ↔ v ≤ if sign then 2 ^ 63 else longMax := by
  cases sign <;> simp [IsLong, signed, longMax] <;> omega

theorem pushInt_signed {c : UInt8} {d : ℕ} (sign : Bool) (v : ℕ) (hc : digitTo 57 c = some d) :
    pushInt sign (signed sign v) d =
      if v * 10 + d ≤ (if sign then 2 ^ 63 else longMax) then some (signed sign (v * 10 + d)) else none := by
  have hd : d ≤ 9 := by grind [digitTo, UInt8.le_iff_toNat_le]
  cases sign <;> simp only [pushInt, signed, longMax] <;> grind

theorem parseDigits_eq_some_iff {sign : Bool} {s : Bytes} {n : ℤ} :
    parseDigits sign s = some n ↔ ∃ v : ℕ, Decimal s v ∧ n = signed sign v ∧ IsLong n := by
  match s with
  | [] => simp [parseDigits, Decimal]
  | c :: s =>
    by_cases hc : 49 ≤ c ∧ c ≤ 57
    · have hd : digitTo 57 c = some (c.toNat - 48) := if_pos ⟨UInt8.le_trans (by decide) hc.1, hc.2⟩
      have hpos : 0 < c.toNat - 48 := Nat.sub_pos_of_lt (UInt8.le_iff_toNat_le.1 hc.1)
      have hne : c ≠ 48 := by grind
      have hdec v : Decimal (c :: s) v ↔ numeral (digitTo 57) 10 s (c.toNat - 48) = some v := by
        simp [Decimal, numeral, hd, hne]
      simp only [parseDigits, hne, hc, hdec, and_self, not_true, false_and, false_or, if_false]
      split_ifs with hlen
      · refine iff_of_false (by simp) ?_
        rintro ⟨v, hv, rfl, hlong⟩
        have hbig := Nat.le_mul_of_pos_left (10 ^ s.length) hpos
        have hpow : 10 ^ 20 ≤ 10 ^ s.length := Nat.pow_le_pow_right (by omega) (by omega)
        have := pow_le_numeral hv
        have := (isLong_signed sign v).1 hlong
        grind [longMax]
      · have hle : c.toNat - 48 ≤ if sign then 2 ^ 63 else longMax := by grind [longMax, c.toNat_lt]
        rw [digitLoop_eq_some_iff (signed sign) (by omega) (fun v _ _ => pushInt_signed sign v) s _ hle]
        grind [isLong_signed]
    · by_cases h0 : c = 48 ∧ s = []
      · obtain ⟨rfl, rfl⟩ := h0
        simp [parseDigits, Decimal, numeral, digitTo, signed, IsLong]
        grind
      · simp only [parseDigits, h0, hc, not_false_eq_true, true_or, if_true, if_false]
        refine iff_of_false (by simp) ?_
        rintro ⟨v, ⟨-, hz, hv⟩, -, -⟩
        have h48 : c ≠ 48 := by grind
        have hd : digitTo 57 c = none := if_neg (by grind)
        simp [numeral, hd] at hv

variable {flags}

theorem parse_eq_some_iff {s : Bytes} {n : ℤ} (hx : flags.allowHex → s ≠ ascii "0x" ∧ s ≠ ascii "0X") :
    parse flags s = some n ↔ Denotes flags s n := by
  match s with
  | [] => simp [parse, Denotes, Decimal]
  | c :: p =>
    by_cases hc : c = 48
    · subst hc
      have hden : Denotes flags (48 :: p) n ↔ p = [] ∧ n = 0 ∨
          (flags.allowOctal ∧ DenotesUnsigned (digitTo 55) 8 p n) ∨ flags.allowHex ∧ ∃ x t,
            (x = 120 ∨ x = 88) ∧ p = x :: t ∧ t ≠ [] ∧ DenotesUnsigned hexDigit 16 t n := by
        have hzero : IsLong 0 := by decide
        cases p <;> simp [Denotes, Decimal, numeral, digitTo]
        grind
      rw [hden, parse, if_pos rfl]
      split_ifs with h1 h2 h3
      · obtain ⟨x, t, rfl⟩ := exists_cons_of_ne_nil (show p ≠ [] by grind)
        have hxs : x = 120 ∨ x = 88 := by simpa using h1.2
        have ht : t ≠ [] := by
          rintro rfl
          rcases hxs with rfl | rfl
          exacts [(hx h1.1).1 rfl, (hx h1.1).2 rfl]
        have hoct : digitTo 55 x = none := by rcases hxs with rfl | rfl <;> rfl
        refine (parseUnsigned_eq_some_iff (by omega) ?_).trans ?_
        · grind [hexDigit, UInt8.toNat_lt]
        · simp [DenotesUnsigned, numeral, hoct, h1.1, ht]
          grind
      · refine (parseUnsigned_eq_some_iff (by omega) ?_).trans ?_
        · grind [digitTo, UInt8.toNat_lt]
        · have hzero : toLong 0 = 0 := rfl
          grind [numeral, DenotesUnsigned]
      all_goals grind
    · have hhead : Denotes flags (c :: p) n ↔
          ((∃ v : ℕ, Decimal (c :: p) v ∧ n = v) ∨ (c = 43 ∧ ∃ v : ℕ, Decimal p v ∧ n = v) ∨
            c = 45 ∧ ∃ v : ℕ, Decimal p v ∧ n = -v) ∧ IsLong n := by
        simp [Denotes, hc]
      have hsign v (h : Decimal (c :: p) v) : c ≠ 43 ∧ c ≠ 45 := by
        constructor <;> rintro rfl <;> simp [Decimal, numeral, digitTo] at h
      rw [parse, if_neg hc, hhead]
      simp only [phpFilterParseInt, parseDigits_eq_some_iff, signed, head?_cons, tail_cons]
      grind

/-- **The filter is exact**: a decimal number has to be a `long`, an octal or hexadecimal one an `unsigned long`. The
prefix of a hexadecimal number alone is no number, but the filter takes it for zero. -/
theorem phpFilterInt_eq_some_iff {minRange maxRange : Option ℤ} {value : Bytes} {n : ℤ}
    (hx : flags.allowHex → trim value ≠ ascii "0x" ∧ trim value ≠ ascii "0X") :
    phpFilterInt flags minRange maxRange value = some n ↔
      Denotes flags (trim value) n ∧ (∀ m ∈ minRange, m ≤ n) ∧ ∀ m ∈ maxRange, n ≤ m := by
  simp [phpFilterInt, Option.filter_eq_some_iff, parse_eq_some_iff hx]

/-- The least `long`, and the least hexadecimal number that wraps. -/
theorem phpFilterInt_least :
    phpFilterInt ⟨true, true⟩ none (some 0) (ascii " -9223372036854775808\n") = some (-2 ^ 63) ∧
      phpFilterInt ⟨true, true⟩ none (some 0) (ascii "0X8000000000000000") = some (-2 ^ 63) := by
  refine ⟨(phpFilterInt_eq_some_iff (by decide)).2 ⟨.inl ⟨.inr (.inr ?_), by decide⟩, by simp, by simp⟩,
    (phpFilterInt_eq_some_iff (by decide)).2 ⟨.inr (.inr ⟨rfl, ?_⟩), by simp, by simp⟩⟩
  · exact ⟨ascii "9223372036854775808", 2 ^ 63, rfl, ⟨by decide, by decide, rfl⟩, rfl⟩
  · exact ⟨88, ascii "8000000000000000", by decide, rfl, by decide, 2 ^ 63, rfl, by decide, by decide⟩

/-- The largest `unsigned long` is accepted and is `-1`. -/
theorem phpFilterInt_hex :
    phpFilterInt ⟨false, true⟩ none none (ascii "0xFFFFFFFFFFFFFFFF") = some (-1) ∧
      numeral hexDigit 16 (ascii "FFFFFFFFFFFFFFFF") 0 = some (2 ^ 64 - 1) ∧ ¬IsLong (2 ^ 64 - 1) := by
  decide

end PhpSandbox.Filter
