import PhpSandbox.Var.Zval
import Mathlib.Data.Nat.Digits.Defs

/-!
# `ext/standard/math.c`: numbers in another base

What a `double` is, and the operations on it, are parameters: a number that no `long` holds goes on as one.
-/

namespace PhpSandbox.Math

open Lib Zend Var List

/-- The digit that a character is. -/
def digitOf (c : UInt8) : Option ℕ :=
  if 48 ≤ c ∧ c ≤ 57 then some (c.toNat - 48)
  else if 65 ≤ c ∧ c ≤ 90 then some (c.toNat - 55)
  else if 97 ≤ c ∧ c ≤ 122 then some (c.toNat - 87)
  else none

/-- `digits[d]`. -/
def digit (d : ℕ) : UInt8 := (ascii "0123456789abcdefghijklmnopqrstuvwxyz").getD d 0

variable {D : Type} (ofLong : ℤ → D) (mulAdd : D → ℕ → ℕ → D) (base : ℕ)

/-- One turn of the loop over the string: `num` while `mode` is 0, and `fnum` from then on. -/
def turn (acc : ℤ ⊕ D) (c : UInt8) : ℤ ⊕ D :=
  match digitOf c with
  | none => acc
  | some d =>
    if base ≤ d then acc
    else match acc with
      | .inl num =>
        if num < longMax / base ∨ num = longMax / base ∧ d ≤ longMax % base then .inl (toLong (num * base + d))
        else .inr (mulAdd (ofLong num) base d)
      | .inr fnum => .inr (mulAdd fnum base d)

/-- `_php_math_basetozval`; `none` for `FAILURE`. -/
def phpMathBasetozval : Content D → Option (Scalar D)
  | .scalar (.string s) =>
    if base < 2 ∨ 36 < base then none
    else match s.foldl (turn ofLong mulAdd base) (.inl 0) with
      | .inl num => some (.long num)
      | .inr fnum => some (.double fnum)
  | _ => none

/-- The loop of `_php_math_longtobase`: `room` is `ptr - buf`. -/
def longtobaseLoop : ℕ → ℕ → Bytes → Bytes
  | 0, _, out => out
  | room + 1, value, out =>
    let out := digit (value % base) :: out
    if value / base = 0 then out else longtobaseLoop room (value / base) out

/-- `_php_math_longtobase`. -/
def phpMathLongtobase : Content D → Bytes
  | .scalar (.long n) => if base < 2 ∨ 36 < base then [] else longtobaseLoop base 64 (n % 2 ^ 64).toNat []
  | _ => []

variable (s : Bytes)

/-- The digits of a string that are valid in a base. -/
def validDigits : List ℕ := (s.filterMap digitOf).filter (· < base)

/-- The number that they denote. -/
def denoted : ℕ := Nat.ofDigits base (validDigits base s).reverse

theorem digitOf_digit : ∀ d < 36, digitOf (digit d) = some d := by decide

theorem validDigits_digit {d : ℕ} (hd : d < base) (hbase : base ≤ 36) (s : Bytes) :
    validDigits base (digit d :: s) = d :: validDigits base s := by
  simp [validDigits, digitOf_digit d (by omega), hd]

/-- The test before a digit is exact. -/
theorem cutoff_iff {base d m : ℕ} (hd : d < base) (num : ℕ) :
    (num < m / base ∨ num = m / base ∧ d ≤ m % base) ↔ num * base + d ≤ m := by
  have hm := Nat.div_add_mod m base
  have hr := Nat.mod_lt m (show base > 0 by omega)
  obtain h | rfl | h := lt_trichotomy num (m / base)
  · have := Nat.mul_le_mul_left base h
    grind
  · grind
  · have := Nat.mul_le_mul_left base h
    grind

/-- The loop holds the number as long as it fits, and a `double` from then on. -/
theorem foldl_turn :
    (denoted base s ≤ longMax → s.foldl (turn ofLong mulAdd base) (.inl 0) = .inl (denoted base s : ℤ)) ∧
    (longMax < denoted base s → ∃ d, s.foldl (turn ofLong mulAdd base) (.inl 0) = .inr d) := by
  induction s using List.reverseRecOn with
  | nil => simp [denoted, validDigits]
  | append_singleton s c ih =>
    simp only [foldl_append, foldl_cons, foldl_nil, turn]
    rcases hc : digitOf c with _ | d
    · simpa [denoted, validDigits, hc] using ih
    by_cases hd : base ≤ d
    · simpa [denoted, validDigits, hc, hd] using ih
    have hnext : denoted base (s ++ [c]) = denoted base s * base + d := by
      simp [denoted, validDigits, hc, not_le.1 hd, Nat.ofDigits_cons, add_comm, mul_comm]
    have hle : denoted base s ≤ denoted base s * base := Nat.le_mul_of_pos_right _ (by omega)
    have hcut : ((denoted base s : ℤ) < longMax / base ∨ (denoted base s : ℤ) = longMax / base ∧
        d ≤ longMax % base) ↔ denoted base s * base + d ≤ longMax := by
      exact_mod_cast cutoff_iff (not_le.1 hd) (denoted base s)
    simp only [if_neg hd, hnext]
    by_cases hs : denoted base s ≤ longMax
    · simp only [ih.1 hs, hcut]
      refine ⟨fun h => ?_, fun h => ⟨_, if_neg (by omega)⟩⟩
      have hlong : IsLong (denoted base s * base + d : ℕ) := by simp only [IsLong, longMax] at h ⊢; omega
      rw [if_pos h, ← Nat.cast_mul, ← Nat.cast_add, toLong_eq hlong]
    · obtain ⟨f, hf⟩ := ih.2 (by omega)
      exact ⟨fun h => by omega, fun _ => ⟨mulAdd f base d, by rw [hf]⟩⟩

/-- The digits that are written denote the value, and the room is enough for them. -/
theorem validDigits_longtobaseLoop (hbase : 2 ≤ base ∧ base ≤ 36) (room : ℕ) :
    ∀ value out, value < base ^ (room + 1) → ∃ ds, Nat.ofDigits base ds.reverse = value ∧
      validDigits base (longtobaseLoop base (room + 1) value out) = ds ++ validDigits base out := by
  induction room with
  | zero =>
    intro value out hv
    rw [zero_add, pow_one] at hv
    refine ⟨[value], by simp, ?_⟩
    simp [longtobaseLoop, Nat.div_eq_of_lt hv, Nat.mod_eq_of_lt hv, validDigits_digit base hv hbase.2]
  | succ room ih =>
    intro value out hv
    have hmod := Nat.mod_lt value (show base > 0 by omega)
    rw [longtobaseLoop]
    split_ifs with hq
    · refine ⟨[value % base], ?_, by simp [validDigits_digit base hmod hbase.2]⟩
      simpa [hq] using Nat.mod_add_div value base
    · obtain ⟨ds, hds, heq⟩ := ih (value / base) (digit (value % base) :: out)
        (Nat.div_lt_of_lt_mul (by rwa [pow_succ'] at hv))
      refine ⟨ds ++ [value % base], ?_, by simp [heq, validDigits_digit base hmod hbase.2]⟩
      simpa [Nat.ofDigits_cons, hds] using Nat.mod_add_div value base

/-- Reading gives a `long` if and only if the number fits one, and then the number; and it gives back what was
written. -/
theorem phpMathBasetozval_exact (hbase : 2 ≤ base ∧ base ≤ 36) :
    (∀ s, ((∃ n, phpMathBasetozval ofLong mulAdd base (.scalar (.string s)) = some (.long n)) ↔
        denoted base s ≤ longMax) ∧
      (denoted base s ≤ longMax →
        phpMathBasetozval ofLong mulAdd base (.scalar (.string s)) = some (.long (denoted base s)))) ∧
    ∀ n : ℤ, 0 ≤ n → n ≤ longMax →
      phpMathBasetozval ofLong mulAdd base
        (.scalar (.string (phpMathLongtobase base (.scalar (.long n) : Content D)))) = some (.long n) := by
  have hrange : ¬(base < 2 ∨ 36 < base) := by omega
  have hfit (s : Bytes) (h : denoted base s ≤ longMax) :
      phpMathBasetozval ofLong mulAdd base (.scalar (.string s)) = some (.long (denoted base s)) := by
    rw [phpMathBasetozval, if_neg hrange, (foldl_turn ofLong mulAdd base s).1 h]
  refine ⟨fun s => ⟨⟨?_, fun h => ⟨_, hfit s h⟩⟩, hfit s⟩, fun n hn hle => ?_⟩
  · rintro ⟨n, h⟩
    by_contra hgt
    obtain ⟨d, hd⟩ := (foldl_turn ofLong mulAdd base s).2 (by omega)
    rw [phpMathBasetozval, if_neg hrange, hd] at h
    cases h
  · obtain ⟨value, rfl⟩ := Int.eq_ofNat_of_zero_le hn
    have hv : value < 2 ^ 63 := by simp only [longMax] at hle; omega
    have hpow : 2 ^ (63 + 1) ≤ base ^ (63 + 1) := Nat.pow_le_pow_left hbase.1 _
    obtain ⟨ds, hds, heq⟩ := validDigits_longtobaseLoop base hbase 63 value [] (by omega)
    have hwrite : phpMathLongtobase base (.scalar (.long value) : Content D) = longtobaseLoop base 64 value [] := by
      rw [phpMathLongtobase, if_neg hrange]
      congr 1
      omega
    have hden : denoted base (longtobaseLoop base 64 value []) = value := by
      rw [denoted, heq]
      simpa [validDigits] using hds
    rw [hwrite, hfit _ (by rw [hden]; exact_mod_cast hle), hden]

theorem phpMathBasetozval_exact_hex :
    phpMathBasetozval (fun _ => ()) (fun _ _ _ => ()) 16 (.scalar (.string (ascii "f-F"))) = some (.long 255) :=
  ((phpMathBasetozval_exact (fun _ => ()) (fun _ _ _ => ()) 16 (by decide)).1 (ascii "f-F")).2 (by decide)

end PhpSandbox.Math
