import PhpSandbox.Json.Encode
import Mathlib.Tactic.Linarith

/-!
# Operators

`pow_function` and `is_identical_function` of `Zend/zend_operators.c`: the power of two
longs and `===`.

## The model

A `long` is a number in its range, and what a `double` is, with its operations, is a
parameter. The overflow test of `ZEND_SIGNED_MULTIPLY_LONG` is taken to be exact. Values
without references are trees, so that the comparison of the addresses of two arrays and
the protection against recursion make no difference. Operands of other types are left out.

## What is proved

`powFunction_exact`: the result is a `long` exactly if the power fits one.
`isIdenticalFunction_eq_true`: of integer keys the low 32 bits are compared.
-/

namespace PhpSandbox.Zend.Operators

open Lib Var

/-! ### `pow_function` -/

section Pow

/-- The operations on doubles that `pow_function` uses. -/
structure DoubleOps (D : Type) where
  /-- `(double)`. -/
  ofLong : ℤ → D
  /-- `*`. -/
  mul : D → D → D
  pow : D → D → D

/-- A number in a variable. -/
inductive Number (D : Type) where
  /-- `IS_LONG`. -/
  | long (lval : ℤ)
  /-- `IS_DOUBLE`. -/
  | double (dval : D)

variable {D : Type} (ops : DoubleOps D)

/-- `ZEND_SIGNED_MULTIPLY_LONG`: a double if there is an overflow. -/
def zendSignedMultiplyLong (a b : ℤ) : Number D :=
  if IsLong (a * b) then .long (a * b) else .double (ops.mul (ops.ofLong a) (ops.ofLong b))

/-- The loop of `pow_function`. -/
def powLoop (l1 l2 : ℤ) (i : ℕ) : Number D :=
  if 1 ≤ i then
    if i % 2 = 1 then
      match zendSignedMultiplyLong ops l1 l2 with
      | .long l1 => powLoop l1 l2 (i - 1)
      | .double dval => .double (ops.mul dval (ops.pow (ops.ofLong l2) (ops.ofLong (i - 1 : ℕ))))
    else
      match zendSignedMultiplyLong ops l2 l2 with
      | .long l2 => powLoop l1 l2 (i / 2)
      | .double dval => .double (ops.mul (ops.ofLong l1) (ops.pow dval (ops.ofLong (i / 2 : ℕ))))
  else .long l1
termination_by i
decreasing_by all_goals omega

/-- `pow_function` of two numbers. -/
def powFunction : Number D → Number D → Number D
  | .long a, .long b =>
    if 0 ≤ b then
      if b = 0 then .long 1
      else if a = 0 then .long 0
      else powLoop ops 1 a b.toNat
    else .double (ops.pow (ops.ofLong a) (ops.ofLong b))
  | .long a, .double b => .double (ops.pow (ops.ofLong a) b)
  | .double a, .long b => .double (ops.pow a (ops.ofLong b))
  | .double a, .double b => .double (ops.pow a b)

/-- The number is `n` if that is a `long`, and a double otherwise. -/
def Number.Exact (r : Number D) (n : ℤ) : Prop := if IsLong n then r = .long n else ∃ d, r = .double d

theorem not_isLong_mul {x c : ℤ} (hx : ¬ IsLong x) (hc : 1 ≤ c) : ¬ IsLong (x * c) := by
  rintro ⟨hlow, hhigh⟩
  refine hx ⟨?_, ?_⟩
  · nlinarith
  · nlinarith

/-- A square that is no `long` is above `2 ^ 63`, which is no square. -/
theorem lt_of_not_isLong_sq {x : ℤ} (hx : ¬ IsLong (x * x)) : 2 ^ 63 < x * x := by
  have hle : 2 ^ 63 ≤ x * x := by
    by_contra hlt
    exact hx ⟨by nlinarith, not_le.mp hlt⟩
  refine lt_of_le_of_ne hle fun heq => ?_
  have habs : (x.natAbs : ℤ) * x.natAbs = 2 ^ 63 := by rw [Int.natAbs_mul_self', heq]
  rcases le_or_gt (x.natAbs : ℤ) 3037000499 with h | h <;> nlinarith

/-- After the overflow of a square the power does not fit, whatever was multiplied before. -/
theorem not_isLong_mul_sq_pow {l1 x : ℤ} (hl1 : l1 ≠ 0) (hx : ¬ IsLong (x * x)) {k : ℕ} (hk : k ≠ 0) :
    ¬ IsLong (l1 * (x * x) ^ k) := by
  have hsq := lt_of_not_isLong_sq hx
  have hpow : x * x ≤ (x * x) ^ k := le_self_pow₀ (by omega) hk
  rintro ⟨hlow, hhigh⟩
  rcases lt_or_gt_of_ne hl1 with h | h <;> nlinarith

/-- **The loop** multiplies `l1` by the `i`-th power of `l2`. -/
theorem powLoop_spec (l1 l2 : ℤ) (i : ℕ) (hl1 : l1 ≠ 0) (hl2 : l2 ≠ 0) (hlong : IsLong l1) :
    (powLoop ops l1 l2 i).Exact (l1 * l2 ^ i) := by
  induction i using Nat.strong_induction_on generalizing l1 l2 with
  | _ i ih =>
    rw [powLoop]
    split_ifs with hi hodd
    · -- one factor goes to `l1`; what is left is an even power, so it is positive
      have hpow : l1 * l2 ^ i = l1 * l2 * l2 ^ (i - 1) := by
        rw [mul_assoc, mul_pow_sub_one (by omega)]
      rw [hpow, zendSignedMultiplyLong]
      by_cases hfits : IsLong (l1 * l2)
      · rw [if_pos hfits]
        exact ih (i - 1) (by omega) _ _ (mul_ne_zero hl1 hl2) hl2 hfits
      · have heven : Even (i - 1) := ⟨(i - 1) / 2, by omega⟩
        have hpos : 0 < l2 ^ (i - 1) := heven.pow_pos hl2
        rw [if_neg hfits, Number.Exact, if_neg (not_isLong_mul hfits hpos)]
        exact ⟨_, rfl⟩
    · have hpow : l1 * l2 ^ i = l1 * (l2 * l2) ^ (i / 2) := by
        rw [← pow_two, ← pow_mul, Nat.mul_div_cancel' (Nat.dvd_of_mod_eq_zero (by omega))]
      rw [hpow, zendSignedMultiplyLong]
      by_cases hfits : IsLong (l2 * l2)
      · rw [if_pos hfits]
        exact ih (i / 2) (by omega) _ _ hl1 (mul_ne_zero hl2 hl2) hlong
      · rw [if_neg hfits, Number.Exact, if_neg (not_isLong_mul_sq_pow hl1 hfits (by omega))]
        exact ⟨_, rfl⟩
    · obtain rfl : i = 0 := by omega
      rw [pow_zero, mul_one, Number.Exact, if_pos hlong]

theorem exact_powFunction {a b : ℤ} (hb : 0 ≤ b) : (powFunction ops (.long a) (.long b)).Exact (a ^ b.toNat) := by
  rw [powFunction, if_pos hb]
  split_ifs with hzero ha
  · rw [hzero, Int.toNat_zero, pow_zero]
    rfl
  · rw [ha, zero_pow (by omega)]
    rfl
  · have := powLoop_spec ops 1 a b.toNat one_ne_zero ha (by decide)
    rwa [one_mul] at this

/-- **The power of two longs**: a `long` exactly if the power fits one, and then it is the power. -/
theorem powFunction_exact {a b : ℤ} (hb : 0 ≤ b) :
    ((∃ n, powFunction ops (.long a) (.long b) = .long n) ↔ IsLong (a ^ b.toNat)) ∧
      (∀ n, powFunction ops (.long a) (.long b) = .long n → n = a ^ b.toNat) ∧
      (¬ IsLong (a ^ b.toNat) → ∃ d, powFunction ops (.long a) (.long b) = .double d) := by
  have hexact := exact_powFunction ops hb (a := a)
  by_cases hfits : IsLong (a ^ b.toNat)
  · rw [Number.Exact, if_pos hfits] at hexact
    refine ⟨⟨fun _ => hfits, fun _ => ⟨_, hexact⟩⟩, fun n hn => ?_, fun hno => absurd hfits hno⟩
    rw [hexact] at hn
    exact (Number.long.inj hn).symm
  · rw [Number.Exact, if_neg hfits] at hexact
    obtain ⟨d, hd⟩ := hexact
    refine ⟨⟨?_, fun h => absurd h hfits⟩, fun n hn => ?_, fun _ => ⟨d, hd⟩⟩
    · rintro ⟨n, hn⟩
      rw [hd] at hn
      cases hn
    · rw [hd] at hn
      cases hn

/-- Integers in the place of doubles. -/
def integerOps : DoubleOps ℤ := ⟨id, (· * ·), fun x y => x ^ y.toNat⟩

/-- `(-2) ** 63` is the least `long`. -/
theorem powFunction_exact_longMin : powFunction integerOps (.long (-2)) (.long 63) = .long (-2 ^ 63) := by
  obtain ⟨n, hn⟩ := (powFunction_exact integerOps (a := -2) (b := 63) (by decide)).1.mpr (by decide)
  rw [hn, (powFunction_exact integerOps (by decide)).2.1 n hn]
  rfl

end Pow

/-! ### `is_identical_function` -/

section Identical

open Json (Value Elems)

/-- `memcmp` of texts of one length. -/
def memcmp : Bytes → Bytes → ℤ
  | c :: s, d :: t => if c = d then memcmp s t else (c.toNat : ℤ) - d.toNat
  | _, _ => 0

/-- `nKeyLength`: zero for an index; the NUL of a name counts. -/
def nKeyLength : ArrayKey → ℕ
  | .index _ => 0
  | .name arKey => arKey.length + 1

/-- The comparison of two keys in `zend_hash_compare`. Each difference is stored in an `int`. -/
def compareKeys : ArrayKey → ArrayKey → ℤ
  | .index h1, .index h2 => toInt (h1 - h2)
  | .name s, .name t =>
    let result := toInt ((nKeyLength (.name s) : ℤ) - nKeyLength (.name t))
    if result ≠ 0 then result else memcmp s t
  | k1, k2 => toInt ((nKeyLength k1 : ℤ) - nKeyLength k2)

/-- `nNumOfElements`. -/
def numOfElements : Elems → ℕ
  | .nil => 0
  | .cons _ _ rest => numOfElements rest + 1

mutual

/-- `is_identical_function`. For arrays it is `zend_hash_compare` with `ordered`, which begins with the counts. -/
def isIdenticalFunction : Value → Value → Bool
  | .null, .null => true
  | .bool a, .bool b => a = b
  | .long a, .long b => a = b
  | .string s, .string t => s.length = t.length ∧ memcmp s t = 0
  | .array ht1, .array ht2 =>
    toInt ((numOfElements ht1 : ℤ) - numOfElements ht2) = 0 ∧ hashCompareLoop ht1 ht2 = 0
  | _, _ => false

/-- The loop of `zend_hash_compare`, with `hash_zval_identical_function`. -/
def hashCompareLoop : Elems → Elems → ℤ
  | .nil, _ => 0
  | .cons _ _ _, .nil => 1
  | .cons k1 v1 rest1, .cons k2 v2 rest2 =>
    if compareKeys k1 k2 ≠ 0 then compareKeys k1 k2
    else if isIdenticalFunction v1 v2 then hashCompareLoop rest1 rest2
    else 1

end

/-- The part of a key that an `int` can tell apart. -/
def lowKey : ArrayKey → ArrayKey
  | .index h => .index (h % 2 ^ 32)
  | .name arKey => .name arKey

mutual

/-- A value with the low 32 bits of its integer keys. -/
def lowKeys : Value → Value
  | .array ht => .array (lowKeysElems ht)
  | v => v

/-- The same for the elements of an array. -/
def lowKeysElems : Elems → Elems
  | .nil => .nil
  | .cons key data rest => .cons (lowKey key) (lowKeys data) (lowKeysElems rest)

/-- All counts and the lengths of all keys are `uint`s. -/
def Fits : Value → Prop
  | .array ht => numOfElements ht < 2 ^ 32 ∧ FitsElems ht
  | _ => True

/-- The same for the elements of an array. -/
def FitsElems : Elems → Prop
  | .nil => True
  | .cons key data rest => nKeyLength key < 2 ^ 32 ∧ Fits data ∧ FitsElems rest

end

theorem memcmp_eq_zero {s t : Bytes} (h : s.length = t.length) : memcmp s t = 0 ↔ s = t := by
  induction s generalizing t with
  | nil => simp [memcmp, (List.length_eq_zero_iff.mp h.symm)]
  | cons c s ih =>
    obtain ⟨d, t, rfl⟩ := List.exists_cons_of_ne_nil (l := t) (by rintro rfl; cases h)
    rw [memcmp, List.cons.injEq, ← ih (Nat.succ.inj h)]
    by_cases hcd : c = d
    · rw [if_pos hcd]
      exact ⟨fun h => ⟨hcd, h⟩, And.right⟩
    · have : c.toNat ≠ d.toNat := fun h => hcd (UInt8.toNat_inj.mp h)
      rw [if_neg hcd]
      exact ⟨fun h => by omega, fun h => absurd h.1 hcd⟩

theorem toInt_sub_eq_zero (m n : ℤ) : toInt (m - n) = 0 ↔ m % 2 ^ 32 = n % 2 ^ 32 := by
  rw [toInt]
  simp only [Int.bmod_def]
  split_ifs <;> omega

theorem compareKeys_eq_zero {k1 k2 : ArrayKey} (h1 : nKeyLength k1 < 2 ^ 32) (h2 : nKeyLength k2 < 2 ^ 32) :
    compareKeys k1 k2 = 0 ↔ lowKey k1 = lowKey k2 := by
  cases k1 with
  | index m =>
    cases k2 with
    | index n => rw [compareKeys, toInt_sub_eq_zero, lowKey, lowKey, ArrayKey.index.injEq]
    | name t =>
      simp only [compareKeys, toInt_sub_eq_zero, lowKey, nKeyLength, reduceCtorEq, iff_false] at h2 ⊢
      omega
  | name s =>
    cases k2 with
    | index n =>
      simp only [compareKeys, toInt_sub_eq_zero, lowKey, nKeyLength, reduceCtorEq, iff_false] at h1 ⊢
      omega
    | name t =>
      have hresult : toInt ((nKeyLength (.name s) : ℤ) - nKeyLength (.name t)) = 0 ↔ s.length = t.length := by
        rw [toInt_sub_eq_zero]
        simp only [nKeyLength] at h1 h2 ⊢
        omega
      rw [compareKeys, lowKey, lowKey, ArrayKey.name.injEq]
      by_cases hlen : s.length = t.length
      · rw [if_neg (not_not.mpr (hresult.mpr hlen)), memcmp_eq_zero hlen]
      · rw [if_pos (mt hresult.mp hlen), hresult]
        exact ⟨fun h => absurd h hlen, fun h => absurd (congrArg _ h) hlen⟩

mutual

/-- **Identity** looks at the low 32 bits of integer keys only. -/
theorem isIdenticalFunction_eq_true (v w : Value) (hv : Fits v) (hw : Fits w) :
    isIdenticalFunction v w = true ↔ lowKeys v = lowKeys w := by
  cases v <;> cases w
  case string.string s t =>
    simp only [isIdenticalFunction, lowKeys, decide_eq_true_eq, Value.string.injEq]
    exact ⟨fun h => (memcmp_eq_zero h.1).mp h.2, fun h => h ▸ ⟨rfl, (memcmp_eq_zero rfl).mpr rfl⟩⟩
  case array.array ht1 ht2 =>
    obtain ⟨hcount1, hfit1⟩ := hv
    obtain ⟨hcount2, hfit2⟩ := hw
    simp only [isIdenticalFunction, lowKeys, decide_eq_true_eq, Value.array.injEq, toInt_sub_eq_zero]
    rw [← hashCompareLoop_eq_zero ht1 ht2 hfit1 hfit2, and_congr_left_iff]
    omega
  all_goals simp [isIdenticalFunction, lowKeys]

theorem hashCompareLoop_eq_zero (ht1 ht2 : Elems) (h1 : FitsElems ht1) (h2 : FitsElems ht2) :
    numOfElements ht1 = numOfElements ht2 ∧ hashCompareLoop ht1 ht2 = 0 ↔ lowKeysElems ht1 = lowKeysElems ht2 := by
  cases ht1 with
  | nil => cases ht2 <;> simp [numOfElements, hashCompareLoop, lowKeysElems]
  | cons k1 v1 rest1 =>
    cases ht2 with
    | nil => simp [numOfElements, hashCompareLoop, lowKeysElems]
    | cons k2 v2 rest2 =>
      obtain ⟨hk1, hv1, hr1⟩ := h1
      obtain ⟨hk2, hv2, hr2⟩ := h2
      have hkeys := compareKeys_eq_zero hk1 hk2
      have hdata := isIdenticalFunction_eq_true v1 v2 hv1 hv2
      have hrest := hashCompareLoop_eq_zero rest1 rest2 hr1 hr2
      simp only [numOfElements, hashCompareLoop, lowKeysElems, Elems.cons.injEq, Nat.add_right_cancel_iff, ← hkeys,
        ← hdata, ← hrest]
      by_cases hkey : compareKeys k1 k2 = 0
      · rw [if_neg (not_not.mpr hkey)]
        by_cases hval : isIdenticalFunction v1 v2 = true
        · rw [if_pos hval]
          exact ⟨fun h => ⟨hkey, hval, h⟩, fun h => h.2.2⟩
        · rw [if_neg hval]
          exact ⟨fun h => absurd h.2 (by decide), fun h => absurd h.2.1 hval⟩
      · rw [if_pos hkey]
        exact ⟨fun h => absurd h.2 hkey, fun h => absurd h.1 hkey⟩

end

/-- **Array identity is exact** for two values if and only if no two different ones are left with the same keys by
the low 32 bits of the integer keys. -/
theorem isIdenticalFunction_exact_iff {v w : Value} (hv : Fits v) (hw : Fits w) :
    (isIdenticalFunction v w = true ↔ v = w) ↔ (lowKeys v = lowKeys w → v = w) := by
  rw [isIdenticalFunction_eq_true v w hv hw]
  exact ⟨Iff.mp, fun h => ⟨h, congrArg lowKeys⟩⟩

/-- An array of one element. -/
def single (key : ℤ) (v : Value) : Value := .array (.cons (.index key) v .nil)

/-- The array `["a" => [4294967296 => n, 0 => "x"], 1 => true]`. -/
def nested (n : ℤ) : Value :=
  .array (.cons (.name (ascii "a")) (.array (.cons (.index (2 ^ 32)) (.long n) (.cons (.index 0) (.string (ascii "x"))
    .nil))) (.cons (.index 1) (.bool true) .nil))

theorem fits_nested (n : ℤ) : Fits (nested n) := by
  simp [nested, Fits, FitsElems, numOfElements, nKeyLength, ascii]

/-- Nested arrays with the same keys are identical if their elements are, and only then. -/
theorem isIdenticalFunction_nested :
    isIdenticalFunction (nested 5) (nested 5) = true ∧ ¬ isIdenticalFunction (nested 5) (nested 6) = true := by
  constructor
  · exact ((isIdenticalFunction_exact_iff (fits_nested 5) (fits_nested 5)).mpr fun _ => rfl).mpr rfl
  · rw [(isIdenticalFunction_exact_iff (fits_nested 5) (fits_nested 6)).mpr (by intro h; cases h)]
    intro h
    cases h

/-- Arrays with the keys `0` and `2 ^ 32` are not. -/
theorem isIdenticalFunction_low_keys :
    isIdenticalFunction (single 0 (.long 5)) (single (2 ^ 32) (.long 5)) = true ∧
      single 0 (.long 5) ≠ single (2 ^ 32) (.long 5) := by
  refine ⟨by decide, ?_⟩
  intro h
  cases h

end Identical

end PhpSandbox.Zend.Operators
