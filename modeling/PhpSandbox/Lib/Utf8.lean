import PhpSandbox.Lib.CString

/-!
# UTF-8 and UTF-16

The bytes of a Unicode code point in UTF-8 and its code units in UTF-16, by arithmetic, and the facts that code which
computes them with shifts and masks needs.
-/

namespace PhpSandbox.Lib

/-- A Unicode scalar value: a code point that is not a surrogate. -/
def IsScalar (cp : ℕ) : Prop := cp < 0xD800 ∨ (0xE000 ≤ cp ∧ cp < 0x110000)

/-- The bytes of a code point in UTF-8. -/
def utf8 (cp : ℕ) : Bytes :=
  if cp < 0x80 then [UInt8.ofNat cp]
  else if cp < 0x800 then [UInt8.ofNat (0xC0 + cp / 64), UInt8.ofNat (0x80 + cp % 64)]
  else if cp < 0x10000 then
    [UInt8.ofNat (0xE0 + cp / 4096), UInt8.ofNat (0x80 + cp / 64 % 64), UInt8.ofNat (0x80 + cp % 64)]
  else
    [UInt8.ofNat (0xF0 + cp / 262144), UInt8.ofNat (0x80 + cp / 4096 % 64), UInt8.ofNat (0x80 + cp / 64 % 64),
      UInt8.ofNat (0x80 + cp % 64)]

/-- The code units of a code point in UTF-16. -/
def utf16 (cp : ℕ) : List ℕ :=
  if cp < 0x10000 then [cp] else [0xD800 + (cp - 0x10000) / 1024, 0xDC00 + (cp - 0x10000) % 1024]

/-- Bytes that are the UTF-8 of some code points. -/
def IsUtf8 (s : Bytes) (cps : List ℕ) : Prop := s = cps.flatMap utf8 ∧ ∀ cp ∈ cps, IsScalar cp

theorem toNat_ofNat_of_lt {n : ℕ} (h : n < 256) : (UInt8.ofNat n).toNat = n := UInt8.toNat_ofNat_of_lt' h

theorem eq_ofNat_of_toNat {c : UInt8} {n : ℕ} (h : c.toNat = n) : c = UInt8.ofNat n := by
  rw [← h, UInt8.ofNat_toNat]

/-- A character that is not ASCII has no ASCII bytes. -/
theorem le_toNat_of_mem_utf8 {cp : ℕ} (hcp : 0x80 ≤ cp) (hlt : cp < 0x110000) {c : UInt8} (hc : c ∈ utf8 cp) :
    0x80 ≤ c.toNat := by
  have hbyte : ∀ n, 0x80 ≤ n → n < 256 → 0x80 ≤ (UInt8.ofNat n).toNat := by
    intro n hle hn
    rw [toNat_ofNat_of_lt hn]
    exact hle
  rw [utf8] at hc
  split_ifs at hc with h1 h2 h3
  · omega
  all_goals simp only [List.mem_cons, List.not_mem_nil, or_false] at hc
  · rcases hc with rfl | rfl <;> exact hbyte _ (by omega) (by omega)
  · rcases hc with rfl | rfl | rfl <;> exact hbyte _ (by omega) (by omega)
  · rcases hc with rfl | rfl | rfl | rfl <;> exact hbyte _ (by omega) (by omega)

theorem IsScalar.lt {cp : ℕ} (h : IsScalar cp) : cp < 0x110000 := by
  rcases h with h | h
  · omega
  · exact h.2

/-! ### Shifts and masks -/

/-- Bits that are put behind others. -/
theorem shiftLeft_or {a b i : ℕ} (h : b < 2 ^ i) : a <<< i ||| b = a * 2 ^ i + b := by
  rw [← Nat.shiftLeft_add_eq_or_of_lt h, Nat.shiftLeft_eq]

/-- Some bits in the middle. -/
theorem and_shiftLeft_shiftRight (n i k : ℕ) : (n &&& (2 ^ k - 1) <<< i) >>> i = n / 2 ^ i % 2 ^ k := by
  rw [Nat.shiftRight_and_distrib, Nat.shiftLeft_shiftRight, Nat.and_two_pow_sub_one_eq_mod, Nat.shiftRight_eq_div_pow]

theorem utf8_two {a b : ℕ} (ha : 2 ≤ a) (ha' : a < 32) (hb : b < 64) :
    utf8 (a * 64 + b) = [UInt8.ofNat (0xC0 + a), UInt8.ofNat (0x80 + b)] := by
  have hdiv : (a * 64 + b) / 64 = a := by omega
  have hmod : (a * 64 + b) % 64 = b := by omega
  rw [utf8, if_neg (by omega), if_pos (by omega), hdiv, hmod]

theorem utf8_three {a b c : ℕ} (hb : b < 64) (hc : c < 64) (hlow : 0x800 ≤ (a * 64 + b) * 64 + c) (ha : a < 16) :
    utf8 ((a * 64 + b) * 64 + c) = [UInt8.ofNat (0xE0 + a), UInt8.ofNat (0x80 + b), UInt8.ofNat (0x80 + c)] := by
  have h₁ : ((a * 64 + b) * 64 + c) / 4096 = a := by omega
  have h₂ : ((a * 64 + b) * 64 + c) / 64 % 64 = b := by omega
  have h₃ : ((a * 64 + b) * 64 + c) % 64 = c := by omega
  rw [utf8, if_neg (by omega), if_neg (by omega), if_pos (by omega), h₁, h₂, h₃]

theorem utf8_four {a b c d : ℕ} (hb : b < 64) (hc : c < 64) (hd : d < 64)
    (hlow : 0x10000 ≤ ((a * 64 + b) * 64 + c) * 64 + d) :
    utf8 (((a * 64 + b) * 64 + c) * 64 + d) =
      [UInt8.ofNat (0xF0 + a), UInt8.ofNat (0x80 + b), UInt8.ofNat (0x80 + c), UInt8.ofNat (0x80 + d)] := by
  have h₁ : (((a * 64 + b) * 64 + c) * 64 + d) / 262144 = a := by omega
  have h₂ : (((a * 64 + b) * 64 + c) * 64 + d) / 4096 % 64 = b := by omega
  have h₃ : (((a * 64 + b) * 64 + c) * 64 + d) / 64 % 64 = c := by omega
  have h₄ : (((a * 64 + b) * 64 + c) * 64 + d) % 64 = d := by omega
  rw [utf8, if_neg (by omega), if_neg (by omega), if_neg (by omega), h₁, h₂, h₃, h₄]

/-- A character other than an ASCII one does not have its byte. -/
theorem ne_of_mem_utf8 {cp : ℕ} (hlt : cp < 0x110000) {c d : UInt8} (hd : d.toNat < 0x80) (hne : cp ≠ d.toNat)
    (hc : c ∈ utf8 cp) : c ≠ d := by
  rintro rfl
  by_cases hascii : cp < 0x80
  · rw [utf8, if_pos hascii] at hc
    refine hne ?_
    rw [List.mem_singleton.1 hc, toNat_ofNat_of_lt (by omega)]
  · exact absurd (le_toNat_of_mem_utf8 (Nat.le_of_not_lt hascii) hlt hc) (by omega)

end PhpSandbox.Lib
