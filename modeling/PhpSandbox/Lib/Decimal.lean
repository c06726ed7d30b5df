import PhpSandbox.Lib.CString

/-!
# Numbers in decimal

How C code prints a number, digit by digit from the last one, and how it reads the
digits at the beginning of a text.
-/

namespace PhpSandbox.Lib

open List

/-- The characters of digits. -/
def isDecimal (c : UInt8) : Bool := 48 ≤ c && c ≤ 57

/-- The digits of a number. -/
def decimal (n : ℕ) : Bytes :=
  if n < 10 then [UInt8.ofNat (48 + n)] else decimal (n / 10) ++ [UInt8.ofNat (48 + n % 10)]
decreasing_by omega

/-- The number with these digits. -/
def decimalValue (s : Bytes) : ℕ := s.foldl (fun n c => n * 10 + (c.toNat - 48)) 0

theorem decimal_of_lt {n : ℕ} (hn : n < 10) : decimal n = [UInt8.ofNat (48 + n)] := by rw [decimal, if_pos hn]

theorem toNat_digit {d : ℕ} (hd : d < 10) : (UInt8.ofNat (48 + d)).toNat = 48 + d :=
  UInt8.toNat_ofNat_of_lt' (by simp only [UInt8.size]; omega)

theorem isDecimal_iff (c : UInt8) : isDecimal c ↔ 48 ≤ c.toNat ∧ c.toNat ≤ 57 := by
  simp [isDecimal, UInt8.le_iff_toNat_le]

theorem isDecimal_digit {d : ℕ} (hd : d < 10) : isDecimal (UInt8.ofNat (48 + d)) := by
  rw [isDecimal_iff, toNat_digit hd]
  omega

variable (s : Bytes)

theorem decimalValue_append_digit {d : ℕ} (hd : d < 10) :
    decimalValue (s ++ [UInt8.ofNat (48 + d)]) = decimalValue s * 10 + d := by
  rw [decimalValue, foldl_append, foldl_cons, foldl_nil, toNat_digit hd, Nat.add_sub_cancel_left]
  rfl

variable (n : ℕ)

theorem all_isDecimal_decimal : (decimal n).all isDecimal := by
  induction n using decimal.induct with
  | case1 n h =>
    rw [decimal, if_pos h, all_cons, isDecimal_digit h]
    rfl
  | case2 n h ih =>
    rw [decimal, if_neg h, all_append, ih, all_cons, isDecimal_digit (Nat.mod_lt n (by decide))]
    rfl

theorem isDecimal_of_mem_decimal {c : UInt8} {n : ℕ} (hc : c ∈ decimal n) : isDecimal c :=
  all_eq_true.mp (all_isDecimal_decimal n) c hc

theorem decimalValue_decimal : decimalValue (decimal n) = n := by
  induction n using decimal.induct with
  | case1 n h =>
    rw [decimal, if_pos h]
    exact (decimalValue_append_digit [] h).trans (Nat.zero_add n)
  | case2 n h ih =>
    rw [decimal, if_neg h, decimalValue_append_digit _ (Nat.mod_lt n (by decide)), ih]
    omega

theorem length_decimal_le {n k : ℕ} (h : n < 10 ^ (k + 1)) : (decimal n).length ≤ k + 1 := by
  induction k generalizing n with
  | zero =>
    rw [decimal_of_lt h]
    rfl
  | succ k ih =>
    rw [decimal]
    split_ifs
    · exact Nat.succ_le_succ (Nat.zero_le _)
    · have hdiv : n / 10 < 10 ^ (k + 1) := Nat.div_lt_of_lt_mul (by rw [← Nat.pow_succ']; exact h)
      rw [length_append]
      exact Nat.succ_le_succ (ih hdiv)

/-- A smaller number has no more digits. -/
theorem length_decimal_mono {m n : ℕ} (h : m ≤ n) : (decimal m).length ≤ (decimal n).length := by
  induction n using decimal.induct generalizing m with
  | case1 n hn =>
    rw [decimal_of_lt hn, decimal_of_lt (by omega)]
    exact le_rfl
  | case2 n hn ih =>
    have hstep (k : ℕ) (hk : ¬ k < 10) : (decimal k).length = (decimal (k / 10)).length + 1 := by
      rw [decimal, if_neg hk, length_append, length_singleton]
    rw [hstep n hn]
    by_cases hm : m < 10
    · rw [decimal_of_lt hm, length_singleton]
      omega
    · rw [hstep m hm]
      exact Nat.add_le_add_right (ih (Nat.div_le_div_right h)) 1

theorem decimal_ne_nil : decimal n ≠ [] := by
  rw [decimal]
  split_ifs <;> simp

/-- The first digit is a zero for zero only. -/
theorem head_decimal : ∃ c s, decimal n = c :: s ∧ isDecimal c ∧ (c = 48 → n = 0) := by
  induction n using decimal.induct with
  | case1 n h =>
    refine ⟨_, [], decimal_of_lt h, isDecimal_digit h, fun hc => ?_⟩
    have := toNat_digit h
    rw [hc] at this
    exact Nat.left_eq_add.mp this
  | case2 n h ih =>
    obtain ⟨c, s, hs, hdec, hzero⟩ := ih
    refine ⟨c, s ++ [UInt8.ofNat (48 + n % 10)], by rw [decimal, if_neg h, hs, cons_append], hdec, fun hc => ?_⟩
    have := hzero hc
    omega

/-- Wrapping on the way does not matter. -/
theorem foldl_mod (r : ℕ) :
    s.foldl (fun r c => (r * 10 + (c.toNat - 48)) % 2 ^ 64) (r % 2 ^ 64) =
      s.foldl (fun n c => n * 10 + (c.toNat - 48)) r % 2 ^ 64 := by
  induction s generalizing r with
  | nil => rw [foldl_nil, foldl_nil]
  | cons c s ih =>
    rw [foldl_cons, foldl_cons, ← ih, Nat.add_mod, Nat.mod_mul_mod, ← Nat.add_mod]

theorem decimalValue_append_singleton (c : UInt8) :
    decimalValue (s ++ [c]) = decimalValue s * 10 + (c.toNat - 48) := foldl_append ..

theorem decimalValue_lt {s : Bytes} (hs : ∀ c ∈ s, isDecimal c) : decimalValue s < 10 ^ s.length := by
  induction s using reverseRecOn with
  | nil => decide
  | append_singleton s c ih =>
    obtain ⟨hs, hc⟩ := forall_mem_append.mp hs
    have := ih hs
    have := (isDecimal_iff c).mp (hc c (mem_singleton_self c))
    rw [decimalValue_append_singleton, length_append, length_singleton, Nat.pow_succ]
    omega

/-- Digits without a zero before them are those of their number. -/
theorem decimal_decimalValue {d : UInt8} {ds : Bytes} (hd : isDecimal d) (hds : ∀ c ∈ ds, isDecimal c)
    (hfirst : d ≠ 48 ∨ ds = []) :
    decimal (decimalValue (d :: ds)) = d :: ds ∧ (d ≠ 48 → 0 < decimalValue (d :: ds)) := by
  have htext {c : UInt8} (hc : isDecimal c) : UInt8.ofNat (48 + (c.toNat - 48)) = c := by
    have := (isDecimal_iff c).mp hc
    rw [Nat.add_sub_cancel' this.1, UInt8.ofNat_toNat]
  induction ds using reverseRecOn with
  | nil =>
    have hval : decimalValue [d] = d.toNat - 48 := Nat.zero_add _
    have := (isDecimal_iff d).mp hd
    rw [hval, decimal_of_lt (by omega), htext hd]
    refine ⟨rfl, fun hne => ?_⟩
    have : d.toNat ≠ 48 := fun h => hne (UInt8.toNat_inj.mp h)
    omega
  | append_singleton ds c ih =>
    obtain ⟨hds, hc⟩ := forall_mem_append.mp hds
    have hc := hc c (mem_singleton_self c)
    have hne : d ≠ 48 := hfirst.resolve_right (by simp)
    obtain ⟨htail, hpos⟩ := ih hds (.inl hne)
    have hpos := hpos hne
    have := (isDecimal_iff c).mp hc
    rw [← cons_append, decimalValue_append_singleton]
    refine ⟨?_, fun _ => by omega⟩
    have hdiv (n : ℕ) : (n * 10 + (c.toNat - 48)) / 10 = n := by omega
    have hmod (n : ℕ) : (n * 10 + (c.toNat - 48)) % 10 = c.toNat - 48 := by omega
    rw [decimal, if_neg (by omega), hdiv, hmod, htail, htext hc]

/-- The digits at the beginning of a text. -/
theorem takeWhile_isDecimal_decimal {rest : Bytes} (hrest : ∀ c ∈ rest.head?, ¬ isDecimal c) :
    (decimal n ++ rest).takeWhile isDecimal = decimal n := by
  rw [takeWhile_append_of_pos fun _ => isDecimal_of_mem_decimal]
  cases rest with
  | nil => simp
  | cons c rest => simp [hrest c rfl]

end PhpSandbox.Lib
