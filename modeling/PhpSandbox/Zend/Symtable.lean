import PhpSandbox.Lib.Decimal

/-!
# Array keys

`zend_symtable_update` (`Zend/zend_hash.h`) stores under an integer index when the
key is the decimal text of one (`ZEND_HANDLE_NUMERIC_EX`), and under the text
otherwise. `long` has 64 bits.

`zendHandleNumeric_eq_some_iff`: the texts of indices are the longs in decimal.
`symtableKey_injective`: two texts never meet in one slot.
`zendHandleNumeric_exact`: both, for two keys.
-/

namespace PhpSandbox.Zend

open Lib

/-- A key of a PHP array. -/
inductive ArrayKey where
  /-- An integer index. -/
  | index (h : ℤ)
  /-- A string key. -/
  | name (arKey : Bytes)
  deriving DecidableEq

/-- `*tmp >= '0' && *tmp <= '9'`. -/
def isDigit (c : UInt8) : Bool := 48 ≤ c && c ≤ 57

/-- `MAX_LENGTH_OF_LONG`. -/
def maxLengthOfLong : ℕ := 20

/-- `LONG_MAX`. -/
def longMax : ℕ := 2 ^ 63 - 1

/-- `idx = (idx * 10) + (*tmp - '0')` over the digits, in `ulong`. -/
def digitsValue (ds : Bytes) : ℕ := ds.foldl (fun idx c => (idx * 10 + (c.toNat - 48)) % 2 ^ 64) 0

variable (key : Bytes)

/-- The digits of a key: `tmp` after the sign. -/
def afterSign : Bytes := if key.head? = some 45 then key.tail else key

/-- `ZEND_HANDLE_NUMERIC_EX`: the index that `key` is the text of. The length the macro is
given counts the terminating NUL. -/
def zendHandleNumeric : Option ℤ :=
  match afterSign key with
  | [] => none
  | d :: ds =>
    if !isDigit d then none
    else if d = 48 ∧ 2 < key.length + 1 then none
    else if maxLengthOfLong - 1 < (d :: ds).length then none
    else if !ds.all isDigit then none
    else
      let idx := digitsValue (d :: ds)
      if key.head? = some 45 then
        if longMax < (idx + (2 ^ 64 - 1)) % 2 ^ 64 then none else some (-idx)
      else if longMax < idx then none
      else some idx

/-- The key `zend_symtable_update` stores under. -/
def symtableKey : ArrayKey :=
  match zendHandleNumeric key with
  | some h => .index h
  | none => .name key

/-! ### The texts of indices -/

theorem isDigit_eq_isDecimal : isDigit = isDecimal := rfl

theorem digitsValue_eq {ds : Bytes} (hds : ∀ c ∈ ds, isDecimal c) (hlen : ds.length ≤ 19) :
    digitsValue ds = decimalValue ds ∧ decimalValue ds < 2 ^ 64 := by
  have hlt : decimalValue ds < 2 ^ 64 :=
    (decimalValue_lt hds).trans ((Nat.pow_le_pow_right (by decide) hlen).trans_lt (by decide))
  exact ⟨(foldl_mod ds 0).trans (Nat.mod_eq_of_lt hlt), hlt⟩

/-- **The texts of indices** are the longs in decimal. -/
theorem zendHandleNumeric_eq_some_iff {key : Bytes} {n : ℤ} :
    zendHandleNumeric key = some n ↔
      (-2 ^ 63 ≤ n ∧ n < 2 ^ 63) ∧ key = if n < 0 then 45 :: decimal n.natAbs else decimal n.natAbs := by
  constructor
  · intro hk
    unfold zendHandleNumeric at hk
    match htmp : afterSign key with
    | [] => rw [htmp] at hk; cases hk
    | d :: ds =>
      simp only [htmp] at hk
      split_ifs at hk with hdig hzero hlong hall hneg hover hover
      all_goals
        rw [isDigit_eq_isDecimal] at hdig hall
        have hd : isDecimal d := by simpa using hdig
        have hds : ∀ c ∈ ds, isDecimal c := by simpa using hall
        obtain ⟨hval, hlt⟩ := digitsValue_eq (List.forall_mem_cons.mpr ⟨hd, hds⟩)
          (by simpa [maxLengthOfLong] using hlong)
        rw [hval] at hk hover
        cases hk
        simp only [longMax] at hover
      · -- after a sign no leading zero is admitted at all
        have hkey : key = 45 :: d :: ds := by
          rw [afterSign, if_pos hneg] at htmp
          rw [← htmp]
          exact (List.cons_head?_tail hneg).symm
        have hne : d ≠ 48 := fun hd => hzero ⟨hd, by rw [hkey]; simp⟩
        obtain ⟨htext, hpos⟩ := decimal_decimalValue hd hds (.inl hne)
        refine ⟨by omega, ?_⟩
        rw [if_pos (by omega), Int.natAbs_neg, Int.natAbs_natCast, htext, hkey]
      · have hkey : key = d :: ds := by rwa [afterSign, if_neg hneg] at htmp
        have hfirst : d ≠ 48 ∨ ds = [] := by
          refine or_iff_not_imp_left.mpr fun h48 => ?_
          have : ¬ 2 < key.length + 1 := fun h => hzero ⟨not_not.mp h48, h⟩
          rw [hkey, List.length_cons] at this
          exact List.length_eq_zero_iff.mp (by omega)
        refine ⟨by omega, ?_⟩
        rw [if_neg (by omega), Int.natAbs_natCast, (decimal_decimalValue hd hds hfirst).1, hkey]
  · rintro ⟨⟨hlow, hhigh⟩, rfl⟩
    obtain ⟨d, ds, htext, hd, hzero⟩ := head_decimal n.natAbs
    have hall : ∀ c ∈ d :: ds, isDecimal c := by
      rw [← htext]
      exact fun _ => isDecimal_of_mem_decimal
    have hlen : (d :: ds).length ≤ 19 := by
      rw [← htext]
      exact length_decimal_le (show n.natAbs < 10 ^ (18 + 1) by omega)
    have hval := (digitsValue_eq hall hlen).1
    rw [← htext, decimalValue_decimal, htext] at hval
    have hdig : ¬ (!isDigit d) = true := by simpa [isDigit_eq_isDecimal] using hd
    have hshort : ¬ maxLengthOfLong - 1 < (d :: ds).length := by simpa [maxLengthOfLong] using hlen
    have hds : ¬ (!ds.all isDigit) = true := by
      simpa [isDigit_eq_isDecimal] using fun c hc => hall c (List.mem_cons_of_mem _ hc)
    by_cases hneg : n < 0
    · have hne : d ≠ 48 := fun h => by have := hzero h; omega
      rw [if_pos hneg, htext, zendHandleNumeric]
      simp only [afterSign, List.head?_cons, if_true, List.tail_cons]
      rw [if_neg hdig, if_neg (fun h => hne h.1), if_neg hshort, if_neg hds, hval,
        if_neg (by simp only [longMax]; omega)]
      exact congrArg some (by omega)
    · have hsign : ¬ (d :: ds).head? = some 45 := by
        intro h
        rw [Option.some.inj h] at hd
        cases hd
      have hlead : ¬ (d = 48 ∧ 2 < (d :: ds).length + 1) := by
        rintro ⟨h48, hlong⟩
        rw [hzero h48, decimal_of_lt (by decide)] at htext
        rw [← htext] at hlong
        exact absurd hlong (by decide)
      rw [if_neg hneg, htext, zendHandleNumeric]
      simp only [afterSign, if_neg hsign]
      rw [if_neg hdig, if_neg hlead, if_neg hshort, if_neg hds, hval, if_neg (by simp only [longMax]; omega)]
      exact congrArg some (by omega)

/-- A text is determined by the index it is the text of. -/
theorem zendHandleNumeric_inj {k k' : Bytes} {h : ℤ} (hk : zendHandleNumeric k = some h)
    (hk' : zendHandleNumeric k' = some h) : k = k' :=
  (zendHandleNumeric_eq_some_iff.mp hk).2.trans (zendHandleNumeric_eq_some_iff.mp hk').2.symm

/-- **Two texts never meet in one slot.** -/
theorem symtableKey_injective : Function.Injective symtableKey := by
  intro k k' h
  unfold symtableKey at h
  cases hk : zendHandleNumeric k with
  | none =>
    cases hk' : zendHandleNumeric k' with
    | none => simpa [hk, hk'] using h
    | some n => simp [hk, hk'] at h
  | some n =>
    cases hk' : zendHandleNumeric k' with
    | none => simp [hk, hk'] at h
    | some n' =>
      obtain rfl : n = n' := by simpa [hk, hk'] using h
      exact zendHandleNumeric_inj hk hk'

/-- **The numeric keys** are the longs in decimal, and two keys are the same slot only if they are the same text or the
text of one integer. -/
theorem zendHandleNumeric_exact (s t : Bytes) :
    (∀ n, zendHandleNumeric s = some n ↔
      (-2 ^ 63 ≤ n ∧ n < 2 ^ 63) ∧ s = if n < 0 then 45 :: decimal n.natAbs else decimal n.natAbs) ∧
      (symtableKey s = symtableKey t ↔ s = t ∨ ∃ n, zendHandleNumeric s = some n ∧ zendHandleNumeric t = some n) := by
  refine ⟨fun n => zendHandleNumeric_eq_some_iff, fun h => .inl (symtableKey_injective h), ?_⟩
  rintro (rfl | ⟨n, hs, ht⟩)
  · rfl
  · rw [symtableKey, symtableKey, hs, ht]

end PhpSandbox.Zend
