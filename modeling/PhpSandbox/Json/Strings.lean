import PhpSandbox.Json.Encode

/-!
# The strings of `json_encode`

What `json_escape_string` writes, and the keys of objects.

The decoder accepts a string exactly if it is in UTF-8 (`jsonUtf8ToUtf16_eq_some`, `jsonUtf8ToUtf16_isUtf8`). Each of
its characters is then written as one character of the grammar, from its code units in UTF-16 (`isChar_utf16`) or from
its bytes (`isChar_utf8`), so that what is between the quotes is the string (`isString_jsonEscapeString`).

The decoder itself is strict (`getNextChar_strict`): it reads just the UTF-8 of scalar values, and what it skips at an
error contains the start of none.
-/

namespace PhpSandbox.Json

open Lib Lib.JsonText IsUnit List
open Zend (ArrayKey)
open Var (printLong)
open Html (Decoded getNextChar utf8Two utf8Three utf8Four utf8Lead utf8Trail)

/-! ### Decoding -/

variable {c : UInt8} {cp advance : ℕ}

theorem utf8Trail_eq_true_iff : utf8Trail c = true ↔ ∃ b < 64, c = UInt8.ofNat (0x80 + b) := by
  simp only [utf8Trail, Bool.and_eq_true, decide_eq_true_eq, UInt8.le_iff_toNat_le, UInt8.reduceToNat]
  constructor
  · rintro ⟨hlow, hhigh⟩
    exact ⟨c.toNat - 0x80, by omega, eq_ofNat_of_toNat (by omega)⟩
  · rintro ⟨b, hb, rfl⟩
    rw [toNat_ofNat_of_lt (by omega)]
    omega

theorem utf8Trail_ofNat {b : ℕ} (hb : b < 64) : utf8Trail (UInt8.ofNat (0x80 + b)) = true :=
  utf8Trail_eq_true_iff.2 ⟨b, hb, rfl⟩

theorem mask_trail {b : ℕ} (hb : b < 64) : (UInt8.ofNat (0x80 + b)).toNat &&& 0x3f = b := by
  rw [toNat_ofNat_of_lt (by omega), Nat.and_two_pow_sub_one_eq_mod _ 6]
  omega

theorem shiftLeft_six_or {a b : ℕ} (h : b < 64) : a <<< 6 ||| b = a * 64 + b := shiftLeft_or (i := 6) h

theorem utf8Two_eq {a b : ℕ} (ha : 2 ≤ a) (ha' : a < 32) (hb : b < 64) (rest : Bytes) :
    utf8Two (UInt8.ofNat (0xC0 + a)) (UInt8.ofNat (0x80 + b) :: rest) = .success (a * 64 + b) 2 := by
  have hlead : (UInt8.ofNat (0xC0 + a)).toNat &&& 0x1f = a := by
    rw [toNat_ofNat_of_lt (by omega), Nat.and_two_pow_sub_one_eq_mod _ 5]
    omega
  rw [utf8Two, if_pos (utf8Trail_ofNat hb)]
  simp only [hlead, mask_trail hb, shiftLeft_six_or hb]
  rw [if_neg (by omega)]

theorem utf8Three_eq {a b c : ℕ} (ha : a < 16) (hb : b < 64) (hc : c < 64) (rest : Bytes) :
    utf8Three (UInt8.ofNat (0xE0 + a)) (UInt8.ofNat (0x80 + b) :: UInt8.ofNat (0x80 + c) :: rest) =
      if (a * 64 + b) * 64 + c < 0x800 then .failure 3
      else if 0xd800 ≤ (a * 64 + b) * 64 + c ∧ (a * 64 + b) * 64 + c ≤ 0xdfff then .failure 3
      else .success ((a * 64 + b) * 64 + c) 3 := by
  have hlead : (UInt8.ofNat (0xE0 + a)).toNat &&& 0x0f = a := by
    rw [toNat_ofNat_of_lt (by omega), Nat.and_two_pow_sub_one_eq_mod _ 4]
    omega
  have hchar : a <<< 12 ||| b <<< 6 ||| c = (a * 64 + b) * 64 + c := by
    have hshift : a <<< 12 ||| b <<< 6 = (a * 64 + b) <<< 6 := by
      rw [← shiftLeft_six_or hb, Nat.shiftLeft_or_distrib, ← Nat.shiftLeft_add]
    rw [hshift]
    exact shiftLeft_six_or hc
  rw [utf8Three, if_pos (by rw [utf8Trail_ofNat hb, utf8Trail_ofNat hc]; rfl)]
  simp only [hlead, mask_trail hb, mask_trail hc, hchar]

theorem utf8Four_eq {a b c d : ℕ} (ha : a < 8) (hb : b < 64) (hc : c < 64) (hd : d < 64) (rest : Bytes) :
    utf8Four (UInt8.ofNat (0xF0 + a))
        (UInt8.ofNat (0x80 + b) :: UInt8.ofNat (0x80 + c) :: UInt8.ofNat (0x80 + d) :: rest) =
      if ((a * 64 + b) * 64 + c) * 64 + d < 0x10000 ∨ 0x10FFFF < ((a * 64 + b) * 64 + c) * 64 + d then .failure 4
      else .success (((a * 64 + b) * 64 + c) * 64 + d) 4 := by
  have hlead : (UInt8.ofNat (0xF0 + a)).toNat &&& 0x07 = a := by
    rw [toNat_ofNat_of_lt (by omega), Nat.and_two_pow_sub_one_eq_mod _ 3]
    omega
  have hchar : a <<< 18 ||| b <<< 12 ||| c <<< 6 ||| d = ((a * 64 + b) * 64 + c) * 64 + d := by
    have hfirst : a <<< 18 ||| b <<< 12 = (a * 64 + b) <<< 12 := by
      rw [← shiftLeft_six_or hb, Nat.shiftLeft_or_distrib, ← Nat.shiftLeft_add]
    have hsecond : (a * 64 + b) <<< 12 ||| c <<< 6 = ((a * 64 + b) * 64 + c) <<< 6 := by
      rw [← shiftLeft_six_or (a := a * 64 + b) hc, Nat.shiftLeft_or_distrib, ← Nat.shiftLeft_add]
    rw [hfirst, hsecond]
    exact shiftLeft_six_or hd
  rw [utf8Four, if_pos (by rw [utf8Trail_ofNat hb, utf8Trail_ofNat hc, utf8Trail_ofNat hd]; rfl)]
  simp only [hlead, mask_trail hb, mask_trail hc, mask_trail hd, hchar]

variable {rest : Bytes}

theorem utf8Two_success (hlow : 0xC2 ≤ c.toNat) (hhigh : c.toNat < 0xE0)
    (h : utf8Two c rest = .success cp advance) : IsScalar cp ∧ c :: rest = utf8 cp ++ (c :: rest).drop advance := by
  obtain ⟨a, ha, rfl⟩ : ∃ a, (2 ≤ a ∧ a < 32) ∧ c = UInt8.ofNat (0xC0 + a) :=
    ⟨c.toNat - 0xC0, by omega, eq_ofNat_of_toNat (by omega)⟩
  cases rest with
  | nil => cases h
  | cons c₁ rest =>
    by_cases htrail : utf8Trail c₁
    · obtain ⟨b, hb, rfl⟩ := utf8Trail_eq_true_iff.1 htrail
      rw [utf8Two_eq ha.1 ha.2 hb] at h
      cases h
      exact ⟨.inl (by omega), by rw [utf8_two ha.1 ha.2 hb]; rfl⟩
    · rw [utf8Two, if_neg htrail] at h
      cases h

theorem utf8Three_success (hlow : 0xE0 ≤ c.toNat) (hhigh : c.toNat < 0xF0)
    (h : utf8Three c rest = .success cp advance) : IsScalar cp ∧ c :: rest = utf8 cp ++ (c :: rest).drop advance := by
  obtain ⟨a, ha, rfl⟩ : ∃ a < 16, c = UInt8.ofNat (0xE0 + a) :=
    ⟨c.toNat - 0xE0, by omega, eq_ofNat_of_toNat (by omega)⟩
  match rest, h with
  | c₁ :: c₂ :: rest, h =>
    by_cases htrail : (utf8Trail c₁ && utf8Trail c₂) = true
    · obtain ⟨h₁, h₂⟩ := Bool.and_eq_true_iff.1 htrail
      obtain ⟨b, hb, rfl⟩ := utf8Trail_eq_true_iff.1 h₁
      obtain ⟨d, hd, rfl⟩ := utf8Trail_eq_true_iff.1 h₂
      rw [utf8Three_eq ha hb hd] at h
      split_ifs at h with hshort hsurrogate
      cases h
      refine ⟨?_, by rw [utf8_three hb hd (by omega) ha]; rfl⟩
      rw [IsScalar]
      omega
    · rw [utf8Three, if_neg htrail] at h
      exact nomatch h

theorem utf8Four_success (hlow : 0xF0 ≤ c.toNat) (hhigh : c.toNat < 0xF5)
    (h : utf8Four c rest = .success cp advance) : IsScalar cp ∧ c :: rest = utf8 cp ++ (c :: rest).drop advance := by
  obtain ⟨a, ha, rfl⟩ : ∃ a < 8, c = UInt8.ofNat (0xF0 + a) :=
    ⟨c.toNat - 0xF0, by omega, eq_ofNat_of_toNat (by omega)⟩
  match rest, h with
  | c₁ :: c₂ :: c₃ :: rest, h =>
    by_cases htrail : (utf8Trail c₁ && utf8Trail c₂ && utf8Trail c₃) = true
    · obtain ⟨h₁₂, h₃⟩ := Bool.and_eq_true_iff.1 htrail
      obtain ⟨h₁, h₂⟩ := Bool.and_eq_true_iff.1 h₁₂
      obtain ⟨b, hb, rfl⟩ := utf8Trail_eq_true_iff.1 h₁
      obtain ⟨d, hd, rfl⟩ := utf8Trail_eq_true_iff.1 h₂
      obtain ⟨e, he, rfl⟩ := utf8Trail_eq_true_iff.1 h₃
      rw [utf8Four_eq ha hb hd he] at h
      split_ifs at h with hrange
      cases h
      exact ⟨.inr (by omega), by rw [utf8_four hb hd he (by omega)]; rfl⟩
    · rw [utf8Four, if_neg htrail] at h
      exact nomatch h

variable {s : Bytes}

/-- The decoder accepts the bytes of scalar values only. -/
theorem getNextChar_success (h : getNextChar .utf8 s = .success cp advance) :
    IsScalar cp ∧ s = utf8 cp ++ s.drop advance := by
  cases s with
  | nil => exact nomatch h
  | cons c rest =>
    simp only [getNextChar, UInt8.lt_iff_toNat_lt, UInt8.reduceToNat] at h
    split_ifs at h with h1 h2 h3 h4 h5
    · cases h
      refine ⟨.inl (by omega), ?_⟩
      rw [utf8, if_pos h1, UInt8.ofNat_toNat]
      rfl
    · exact utf8Two_success (by omega) h3 h
    · exact utf8Three_success (by omega) h4 h
    · exact utf8Four_success (by omega) h5 h

/-- The decoder reads the bytes of a scalar value back. -/
theorem getNextChar_utf8 (hcp : IsScalar cp) (rest : Bytes) :
    getNextChar .utf8 (utf8 cp ++ rest) = .success cp (utf8 cp).length := by
  have hlt := hcp.lt
  rw [utf8]
  split_ifs with h1 h2 h3
  · have hc : (UInt8.ofNat cp).toNat = cp := toNat_ofNat_of_lt (by omega)
    simp only [cons_append, nil_append, getNextChar, UInt8.lt_iff_toNat_lt, UInt8.reduceToNat, hc, if_pos h1]
    rfl
  · have hc : (UInt8.ofNat (0xC0 + cp / 64)).toNat = 0xC0 + cp / 64 := toNat_ofNat_of_lt (by omega)
    simp only [cons_append, nil_append, getNextChar, UInt8.lt_iff_toNat_lt, UInt8.reduceToNat, hc]
    rw [if_neg (by omega), if_neg (by omega), if_pos (by omega), utf8Two_eq (by omega) (by omega) (by omega)]
    congr 1
    omega
  · have hc : (UInt8.ofNat (0xE0 + cp / 4096)).toNat = 0xE0 + cp / 4096 := toNat_ofNat_of_lt (by omega)
    have heq : (cp / 4096 * 64 + cp / 64 % 64) * 64 + cp % 64 = cp := by omega
    simp only [cons_append, nil_append, getNextChar, UInt8.lt_iff_toNat_lt, UInt8.reduceToNat, hc]
    rw [if_neg (by omega), if_neg (by omega), if_neg (by omega), if_pos (by omega),
      utf8Three_eq (by omega) (by omega) (by omega), heq, if_neg h2, if_neg]
    · rfl
    · rcases hcp with hcp | hcp <;> omega
  · have hc : (UInt8.ofNat (0xF0 + cp / 262144)).toNat = 0xF0 + cp / 262144 := toNat_ofNat_of_lt (by omega)
    have heq : ((cp / 262144 * 64 + cp / 4096 % 64) * 64 + cp / 64 % 64) * 64 + cp % 64 = cp := by omega
    simp only [cons_append, nil_append, getNextChar, UInt8.lt_iff_toNat_lt, UInt8.reduceToNat, hc]
    rw [if_neg (by omega), if_neg (by omega), if_neg (by omega), if_neg (by omega), if_pos (by omega),
      utf8Four_eq (by omega) (by omega) (by omega) (by omega), heq, if_neg (by omega)]
    rfl

/-! ### Broken characters -/

/-- The bytes behind the first one that a failure skips start no character. -/
def Skips (rest : Bytes) : Decoded → Prop
  | .failure advance => 1 ≤ advance ∧ advance ≤ rest.length + 1 ∧ ∀ c ∈ rest.take (advance - 1), utf8Lead c = false
  | .success _ _ => True

theorem utf8Lead_eq_false_iff : utf8Lead c = false ↔ 0x80 ≤ c.toNat ∧ (c.toNat < 0xC2 ∨ 0xF4 < c.toNat) := by
  simp [utf8Lead, UInt8.le_iff_toNat_le, UInt8.lt_iff_toNat_lt]
  omega

theorem utf8Lead_of_utf8Trail : ∀ c, utf8Trail c = true → utf8Lead c = false := forall_uint8 (by decide +kernel)

theorem skips_utf8Two (c : UInt8) (rest : Bytes) : Skips rest (utf8Two c rest) := by
  fun_cases utf8Two c rest with
  | case1 => simp [Skips]
  | case2 c₁ rest h => simp [Skips, utf8Lead_of_utf8Trail _ h]
  | case3 => trivial
  | case4 c₁ rest h =>
    cases hlead : utf8Lead c₁ <;> simp [Skips, hlead]

theorem skips_utf8Three (c : UInt8) (rest : Bytes) : Skips rest (utf8Three c rest) := by
  fun_cases utf8Three c rest with
  | case1 => simp [Skips]
  | case2 c₁ => cases hlead : utf8Lead c₁ <;> simp [Skips, hlead]
  | case3 c₁ c₂ rest h | case4 c₁ c₂ rest h =>
    rw [Bool.and_eq_true] at h
    simp [Skips, utf8Lead_of_utf8Trail _ h.1, utf8Lead_of_utf8Trail _ h.2]
  | case5 => trivial
  | case6 c₁ c₂ rest h =>
    cases h₁ : utf8Lead c₁ <;> cases h₂ : utf8Lead c₂ <;> simp [Skips, h₁, h₂]

theorem skips_utf8Four (c : UInt8) (rest : Bytes) : Skips rest (utf8Four c rest) := by
  fun_cases utf8Four c rest with
  | case1 => simp [Skips]
  | case2 c₁ => cases hlead : utf8Lead c₁ <;> simp [Skips, hlead]
  | case3 c₁ c₂ => cases h₁ : utf8Lead c₁ <;> cases h₂ : utf8Lead c₂ <;> simp [Skips, h₁, h₂]
  | case4 c₁ c₂ c₃ rest h =>
    rw [Bool.and_eq_true, Bool.and_eq_true] at h
    simp [Skips, utf8Lead_of_utf8Trail _ h.1.1, utf8Lead_of_utf8Trail _ h.1.2, utf8Lead_of_utf8Trail _ h.2]
  | case5 => trivial
  | case6 c₁ c₂ c₃ rest h =>
    cases h₁ : utf8Lead c₁ <;> cases h₂ : utf8Lead c₂ <;> cases h₃ : utf8Lead c₃ <;>
      simp [Skips, h₁, h₂, h₃]

theorem skips_getNextChar (c : UInt8) (rest : Bytes) : Skips rest (getNextChar .utf8 (c :: rest)) := by
  simp only [getNextChar]
  split_ifs
  · trivial
  · simp [Skips]
  · exact skips_utf8Two c rest
  · exact skips_utf8Three c rest
  · exact skips_utf8Four c rest
  · simp [Skips]

/-- A byte that does not start a character is an error. -/
theorem getNextChar_of_not_lead (rest : Bytes) (h : utf8Lead c = false) :
    getNextChar .utf8 (c :: rest) = .failure 1 := by
  rw [utf8Lead_eq_false_iff] at h
  simp only [getNextChar, UInt8.lt_iff_toNat_lt, UInt8.reduceToNat]
  split_ifs <;> first | rfl | omega

/-- The UTF-8 of a scalar value starts here. -/
def StartsUtf8 (s : Bytes) (cp : ℕ) : Prop := IsScalar cp ∧ utf8 cp <+: s

theorem getNextChar_eq_success_iff :
    getNextChar .utf8 s = .success cp advance ↔ StartsUtf8 s cp ∧ advance = (utf8 cp).length := by
  constructor
  · intro h
    obtain ⟨hcp, hs⟩ := getNextChar_success h
    have hread := getNextChar_utf8 hcp (s.drop advance)
    rw [← hs, h] at hread
    cases hread
    exact ⟨⟨hcp, _, hs.symm⟩, rfl⟩
  · rintro ⟨⟨hcp, rest, rfl⟩, rfl⟩
    exact getNextChar_utf8 hcp rest

theorem getNextChar_strict (s : Bytes) (pos : ℕ) (hpos : pos < s.length) :
    (∀ cp advance, getNextChar .utf8 (s.drop pos) = .success cp advance ↔
      StartsUtf8 (s.drop pos) cp ∧ advance = (utf8 cp).length) ∧
    ∀ advance, getNextChar .utf8 (s.drop pos) = .failure advance →
      1 ≤ advance ∧ pos + advance ≤ s.length ∧
        ∀ q, pos < q → q < pos + advance → ¬ ∃ cp, StartsUtf8 (s.drop q) cp := by
  refine ⟨fun cp advance => getNextChar_eq_success_iff, fun advance h => ?_⟩
  have hskips := skips_getNextChar s[pos] (s.drop (pos + 1))
  rw [← drop_eq_getElem_cons hpos, h] at hskips
  obtain ⟨hpositive, hle, hskip⟩ := hskips
  rw [length_drop] at hle
  refine ⟨hpositive, by omega, fun q hq hlt => ?_⟩
  rintro ⟨cp, hstart⟩
  have hq' : q < s.length := by omega
  have hmem : s[q] ∈ (s.drop (pos + 1)).take (advance - 1) := by
    refine List.mem_take_iff_getElem.mpr ⟨q - (pos + 1), by rw [length_drop]; omega, ?_⟩
    simp only [getElem_drop]
    congr 1
    omega
  have hsuccess := getNextChar_eq_success_iff.mpr ⟨hstart, rfl⟩
  rw [drop_eq_getElem_cons hq', getNextChar_of_not_lead _ (hskip _ hmem)] at hsuccess
  cases hsuccess

theorem getNextChar_strict_truncated :
    getNextChar .utf8 (([0x78, 0xE2, 0x82, 0x41] : Bytes).drop 1) = .failure 2 ∧
      ¬ ∃ cp, StartsUtf8 (([0x78, 0xE2, 0x82, 0x41] : Bytes).drop 2) cp :=
  ⟨rfl, ((getNextChar_strict [0x78, 0xE2, 0x82, 0x41] 1 (by decide)).2 2 rfl).2.2 2 (by decide) (by decide)⟩

/-! ### Code units -/

theorem utf16Units_eq (hcp : IsScalar cp) : utf16Units cp = utf16 cp := by
  have hlt := hcp.lt
  rw [utf16Units, utf16]
  by_cases h : cp < 0x10000
  · rw [if_pos h, if_neg (by omega)]
  have hhigh : (cp - 0x10000) >>> 10 ||| 0xd800 = 0xD800 + (cp - 0x10000) / 1024 := by
    rw [Nat.shiftRight_eq_div_pow, Nat.or_comm]
    exact shiftLeft_or (a := 54) (i := 10) (by omega)
  have hlow : (cp - 0x10000) &&& 0x3ff ||| 0xdc00 = 0xDC00 + (cp - 0x10000) % 1024 := by
    rw [Nat.and_two_pow_sub_one_eq_mod _ 10, Nat.or_comm]
    exact shiftLeft_or (a := 55) (i := 10) (Nat.mod_lt _ (by decide))
  rw [if_neg h, if_pos (by omega), hhigh, hlow]

theorem utf8_ne_nil (cp : ℕ) : utf8 cp ≠ [] := by
  rw [utf8]
  split_ifs <;> exact cons_ne_nil _ _

theorem isUtf8_nil : IsUtf8 [] [] := ⟨rfl, fun _ hcp => absurd hcp not_mem_nil⟩

/-- A string is converted only if it is in UTF-8, and then to its code units. -/
theorem jsonUtf8ToUtf16_eq_some {fuel : ℕ} {us : List ℕ} (h : jsonUtf8ToUtf16 fuel s = some us) :
    ∃ cps, IsUtf8 s cps ∧ us = cps.flatMap utf16 := by
  fun_induction jsonUtf8ToUtf16 fuel s generalizing us with
  | case1 => exact ⟨[], isUtf8_nil, (Option.some.inj h).symm⟩
  | case2 | case3 => cases h
  | case4 fuel c rest cp advance hnext ih =>
    obtain ⟨hscalar, hs⟩ := getNextChar_success hnext
    obtain ⟨us', hus', rfl⟩ := Option.map_eq_some_iff.1 h
    obtain ⟨cps, ⟨hbytes, hcps⟩, rfl⟩ := ih hus'
    refine ⟨cp :: cps, ⟨?_, forall_mem_cons.2 ⟨hscalar, hcps⟩⟩, ?_⟩
    · rw [flatMap_cons, ← hbytes]
      exact hs
    · rw [flatMap_cons, utf16Units_eq hscalar]

/-- A string in UTF-8 is converted. -/
theorem jsonUtf8ToUtf16_isUtf8 {fuel : ℕ} {cps : List ℕ} (hs : IsUtf8 s cps) (hfuel : s.length ≤ fuel) :
    jsonUtf8ToUtf16 fuel s = some (cps.flatMap utf16) := by
  obtain ⟨rfl, hcps⟩ := hs
  induction cps generalizing fuel with
  | nil => cases fuel <;> rfl
  | cons cp cps ih =>
    obtain ⟨hscalar, hcps⟩ := forall_mem_cons.1 hcps
    have hnext := getNextChar_utf8 hscalar (cps.flatMap utf8)
    obtain ⟨c, rest, hc⟩ := exists_cons_of_ne_nil (utf8_ne_nil cp)
    rw [flatMap_cons, hc] at hfuel ⊢
    rw [hc] at hnext
    cases fuel with
    | zero => exact absurd hfuel (by simp)
    | succ fuel =>
      have hdrop : (c :: rest ++ cps.flatMap utf8).drop (c :: rest).length = cps.flatMap utf8 := drop_left
      rw [cons_append] at hnext hdrop ⊢
      rw [jsonUtf8ToUtf16, hnext]
      simp only [hdrop]
      rw [ih hcps (by simp only [cons_append, length_cons, length_append] at hfuel; omega), utf16Units_eq hscalar]
      rfl

/-! ### Strings of the text -/

theorem hexValue_hexDigit {n : ℕ} (hn : n < 16) : hexValue (hexDigit n) = some n := by
  have h : ∀ n < 16, hexValue (hexDigit n) = some n := by decide +kernel
  exact h n hn

variable {us : ℕ}

/-- The `\u` escape of a code unit. -/
theorem isUnit_hexDigits (hus : us < 0x10000) :
    IsUnit [92, 117, hexDigit ((us &&& 0xf000) >>> 12), hexDigit ((us &&& 0xf00) >>> 8), hexDigit ((us &&& 0xf0) >>> 4),
      hexDigit (us &&& 0xf)] us := by
  have h₁ : (us &&& 0xf000) >>> 12 = us / 4096 % 16 := and_shiftLeft_shiftRight us 12 4
  have h₂ : (us &&& 0xf00) >>> 8 = us / 256 % 16 := and_shiftLeft_shiftRight us 8 4
  have h₃ : (us &&& 0xf0) >>> 4 = us / 16 % 16 := and_shiftLeft_shiftRight us 4 4
  have h₄ : us &&& 0xf = us % 16 := Nat.and_two_pow_sub_one_eq_mod us 4
  have hvalue : ((us / 4096 % 16 * 16 + us / 256 % 16) * 16 + us / 16 % 16) * 16 + us % 16 = us := by omega
  have hunit := mk (hexValue_hexDigit (Nat.mod_lt (us / 4096) (by decide)))
    (hexValue_hexDigit (Nat.mod_lt (us / 256) (by decide))) (hexValue_hexDigit (Nat.mod_lt (us / 16) (by decide)))
    (hexValue_hexDigit (Nat.mod_lt us (by decide)))
  rw [hvalue] at hunit
  rw [h₁, h₂, h₃, h₄]
  exact hunit

theorem and_127_eq_iff : us &&& 127 = us ↔ us < 128 := by
  rw [Nat.and_two_pow_sub_one_eq_mod us 7]
  omega

section Chars

variable {o : Options} {plain : ℕ → Prop} (hplain : ∀ cp, Allowed o cp → plain cp)

include hplain

theorem isChar_raw (hlt : cp < 128) (hlow : 0x20 ≤ cp) (hquot : cp ≠ 34) (hback : cp ≠ 92) (hallowed : Allowed o cp) :
    IsChar plain [UInt8.ofNat cp] cp := by
  have hchar := IsChar.unescaped (hplain cp hallowed) (.inl (by omega)) hlow hquot hback
  rwa [utf8, if_pos hlt] at hchar

/-- A character that an option is about. -/
theorem isChar_option (cp : ℕ) (option : Bool) {escape : Bytes} (hlt : cp < 128) (hlow : 0x20 ≤ cp) (hquot : cp ≠ 34)
    (hback : cp ≠ 92) (hunit : IsUnit escape cp) (hallowed : ¬ option → Allowed o cp) :
    IsChar plain (if option then escape else [UInt8.ofNat cp]) cp := by
  split_ifs with hoption
  · exact .unit hunit (.inl (by omega))
  · exact isChar_raw hplain hlt hlow hquot hback (hallowed hoption)

theorem isChar_escapeDefault (hlt : cp < 128) (hquot : cp ≠ 34) (hback : cp ≠ 92) (hallowed : Allowed o cp) :
    IsChar plain (escapeDefault o cp) cp := by
  rw [escapeDefault]
  split_ifs with h
  · exact isChar_raw hplain hlt h.1 hquot hback hallowed
  · exact .unit (isUnit_hexDigits (by omega)) (.inl (by omega))

/-- What is written for an ASCII character. -/
theorem isChar_escapeUnit (hlt : cp < 128) : IsChar plain (escapeUnit o cp) cp := by
  -- The escapes that no option is about.
  have hshort : ∀ {e : UInt8} {cp : ℕ}, (e, cp) ∈ shortEscapes → cp ≠ 34 → IsChar plain [92, e] cp := by
    intro e cp hmem hquot
    have hcp : cp < 128 ∧ (cp ≠ 60 ∧ cp ≠ 62) ∧ cp ≠ 38 ∧ cp ≠ 39 := by
      have hall : ∀ p ∈ shortEscapes, p.2 < 128 ∧ (p.2 ≠ 60 ∧ p.2 ≠ 62) ∧ p.2 ≠ 38 ∧ p.2 ≠ 39 := by decide
      exact hall _ hmem
    exact .short (hplain cp ⟨fun _ => hcp.2.1, fun _ => hcp.2.2.1, fun _ => hcp.2.2.2, fun _ => hquot, fun _ => hcp.1⟩)
      hmem
  by_cases h34 : cp = 34
  · subst h34
    change IsChar plain (if o.hexQuot then ascii "\\u0022" else ascii "\\\"") 34
    split_ifs with hopt
    · exact .unit (@mk 48 48 50 50 0 0 2 2 rfl rfl rfl rfl) (.inl (by decide))
    · exact .short (hplain _ (by constructor <;> simp [hopt])) (by decide)
  by_cases h92 : cp = 92
  · subst h92
    exact hshort (e := 92) (by decide) h34
  by_cases h47 : cp = 47
  · subst h47
    change IsChar plain (if o.unescapedSlashes then ascii "/" else ascii "\\/") 47
    split_ifs
    · exact isChar_raw hplain hlt (by decide) h34 h92 (by constructor <;> intro _ <;> decide)
    · exact hshort (e := 47) (by decide) h34
  by_cases h8 : cp = 8
  · subst h8
    exact hshort (e := 98) (by decide) h34
  by_cases h12 : cp = 12
  · subst h12
    exact hshort (e := 102) (by decide) h34
  by_cases h10 : cp = 10
  · subst h10
    exact hshort (e := 110) (by decide) h34
  by_cases h13 : cp = 13
  · subst h13
    exact hshort (e := 114) (by decide) h34
  by_cases h9 : cp = 9
  · subst h9
    exact hshort (e := 116) (by decide) h34
  by_cases h60 : cp = 60
  · subst h60
    exact isChar_option hplain 60 o.hexTag hlt (by decide) h34 h92 (@mk 48 48 51 67 0 0 3 12 rfl rfl rfl rfl)
      fun hopt => by constructor <;> simp [hopt]
  by_cases h62 : cp = 62
  · subst h62
    exact isChar_option hplain 62 o.hexTag hlt (by decide) h34 h92 (@mk 48 48 51 69 0 0 3 14 rfl rfl rfl rfl)
      fun hopt => by constructor <;> simp [hopt]
  by_cases h38 : cp = 38
  · subst h38
    exact isChar_option hplain 38 o.hexAmp hlt (by decide) h34 h92 (@mk 48 48 50 54 0 0 2 6 rfl rfl rfl rfl)
      fun hopt => by constructor <;> simp [hopt]
  by_cases h39 : cp = 39
  · subst h39
    exact isChar_option hplain 39 o.hexApos hlt (by decide) h34 h92 (@mk 48 48 50 55 0 0 2 7 rfl rfl rfl rfl)
      fun hopt => by constructor <;> simp [hopt]
  rw [escapeUnit, if_neg h34, if_neg h92, if_neg h47, if_neg h8, if_neg h12, if_neg h10, if_neg h13, if_neg h9,
    if_neg h60, if_neg h62, if_neg h38, if_neg h39]
  exact isChar_escapeDefault hplain hlt h34 h92
    ⟨fun _ => ⟨h60, h62⟩, fun _ => h38, fun _ => h39, fun _ => h34, fun _ => hlt⟩

end Chars

variable {o : Options}

/-- Code units that are not ASCII have no case of the switch. -/
theorem escapeUnit_of_le (h : 128 ≤ us) : escapeUnit o us = escapeDefault o us := by
  simp (disch := omega) only [escapeUnit, if_neg]

/-- Without `JSON_UNESCAPED_UNICODE` they are escaped. -/
theorem isUnit_escapeUnit (ho : o.unescapedUnicode = false) (h : 128 ≤ us) (hus : us < 0x10000) :
    IsUnit (escapeUnit o us) us := by
  rw [escapeUnit_of_le h, escapeDefault, if_neg]
  · exact isUnit_hexDigits hus
  · rintro ⟨-, hraw | hraw⟩
    · rw [ho] at hraw
      exact nomatch hraw
    · exact absurd (and_127_eq_iff.1 hraw) (by omega)

/-- With `JSON_UNESCAPED_UNICODE` a byte that is not ASCII is copied. -/
theorem escapeUnit_unitOfByte (ho : o.unescapedUnicode = true) (hc : 0x80 ≤ c.toNat) :
    escapeUnit o (unitOfByte c) = [c] := by
  have hunit : unitOfByte c = c.toNat + 0xff00 := by
    rw [unitOfByte, if_neg]
    rw [UInt8.lt_iff_toNat_lt]
    exact Nat.not_lt.2 hc
  rw [hunit, escapeUnit_of_le (by omega), escapeDefault, if_pos ⟨by omega, .inl ho⟩]
  congr 1
  apply UInt8.toNat_inj.1
  rw [UInt8.toNat_ofNat']
  have := c.toNat_lt
  omega

variable {plain : ℕ → Prop}

/-- The code units of a character are written as a character. -/
theorem isChar_utf16 (hplain : ∀ cp, Allowed o cp → plain cp) (ho : o.unescapedUnicode = false)
    (hscalar : IsScalar cp) :
    IsChar plain ((utf16 cp).flatMap (escapeUnit o)) cp := by
  have hlt := hscalar.lt
  by_cases hbmp : cp < 0x10000
  · rw [utf16, if_pos hbmp, flatMap_singleton]
    by_cases hascii : cp < 128
    · exact isChar_escapeUnit hplain hascii
    · exact .unit (isUnit_escapeUnit ho (by omega) hbmp) hscalar
  · have hcp : utf16 cp = [0xD800 + (cp - 0x10000) / 1024, 0xDC00 + (cp - 0x10000) % 1024] := by
      rw [utf16, if_neg hbmp]
    rw [hcp, flatMap_cons, flatMap_singleton]
    exact .pair hcp hscalar (isUnit_escapeUnit ho (by omega) (by omega)) (isUnit_escapeUnit ho (by omega) (by omega))

/-- The bytes of a character are written as a character. -/
theorem isChar_utf8 (hplain : ∀ cp, Allowed o cp → plain cp) (ho : o.unescapedUnicode = true) (hscalar : IsScalar cp) :
    IsChar plain ((utf8 cp).flatMap fun c => escapeUnit o (unitOfByte c)) cp := by
  by_cases hascii : cp < 128
  · have hc : (UInt8.ofNat cp).toNat = cp := toNat_ofNat_of_lt (by omega)
    have hunit : unitOfByte (UInt8.ofNat cp) = cp := by
      rw [unitOfByte, if_pos, hc]
      rw [UInt8.lt_iff_toNat_lt, hc]
      exact hascii
    rw [utf8, if_pos hascii, flatMap_singleton, hunit]
    exact isChar_escapeUnit hplain hascii
  · have hcopy : ((utf8 cp).flatMap fun c => escapeUnit o (unitOfByte c)) = utf8 cp := by
      have hbytes := flatMap_congr (l := utf8 cp) (g := fun c => [c]) fun c hc =>
        escapeUnit_unitOfByte ho (le_toNat_of_mem_utf8 (by omega) hscalar.lt hc)
      rw [hbytes, flatMap_singleton']
    have hallowed : Allowed o cp := by
      have hunicode : o.unescapedUnicode ≠ false := by rw [ho]; decide
      refine ⟨fun _ => ?_, fun _ => ?_, fun _ => ?_, fun _ => ?_, fun h => absurd h hunicode⟩ <;> omega
    rw [hcopy]
    exact .unescaped (hplain cp hallowed) hscalar (by omega) (by omega) (by omega)

/-- Strings are written as strings, or set the error code. -/
theorem isString_jsonEscapeString (h : (jsonEscapeString o s).errorCode = none) :
    ∃ cps, IsUtf8 s cps ∧
      ∀ plain : ℕ → Prop, (∀ cp, Allowed o cp → plain cp) → IsString plain (jsonEscapeString o s).text cps := by
  by_cases hs : s = []
  · subst hs
    exact ⟨[], isUtf8_nil, fun _ _ => .mk .nil⟩
  rw [jsonEscapeString, if_neg hs] at h ⊢
  cases hunits : jsonUtf8ToUtf16 s.length s with
  | none =>
    rw [hunits] at h
    exact nomatch h
  | some units =>
    obtain ⟨cps, hcps, rfl⟩ := jsonUtf8ToUtf16_eq_some hunits
    refine ⟨cps, hcps, fun plain hplain => .mk ?_⟩
    by_cases ho : o.unescapedUnicode
    · rw [if_pos ho, hcps.1, map_flatMap, flatMap_assoc]
      refine isChars_flatMap fun cp hcp => ?_
      rw [flatMap_map]
      exact isChar_utf8 hplain ho (hcps.2 cp hcp)
    · rw [if_neg ho, flatMap_assoc]
      exact isChars_flatMap fun cp hcp => isChar_utf16 hplain (Bool.not_eq_true _ ▸ ho) (hcps.2 cp hcp)

/-- A string sets the error code exactly if it is not in UTF-8. -/
theorem errorCode_jsonEscapeString : (jsonEscapeString o s).errorCode = none ↔ ∃ cps, IsUtf8 s cps := by
  constructor
  · intro h
    obtain ⟨cps, hcps, -⟩ := isString_jsonEscapeString h
    exact ⟨cps, hcps⟩
  · rintro ⟨cps, hcps⟩
    by_cases hs : s = []
    · rw [jsonEscapeString, if_pos hs]
      rfl
    · rw [jsonEscapeString, if_neg hs, jsonUtf8ToUtf16_isUtf8 hcps le_rfl]
      rfl

/-! ### Numbers and keys -/

theorem isNumber_printLong (n : ℤ) : IsNumber (printLong n) n := by
  have habs := isUnsigned_decimal n.natAbs
  rw [printLong]
  split_ifs with hneg
  · have hcast : (n : ℚ) = -(n.natAbs : ℚ) := by
      rw [← Int.cast_natCast, ← Int.cast_neg]
      congr 1
      omega
    rw [hcast]
    exact .minus habs
  · have hcast : (n : ℚ) = (n.natAbs : ℚ) := by
      rw [← Int.cast_natCast]
      congr 1
      omega
    rw [hcast]
    exact .plain habs

theorem isString_keyText {key : ArrayKey} (h : (keyText o key).errorCode = none) :
    ∃ cps, KeyDenotes key cps ∧
      ∀ plain : ℕ → Prop, (∀ cp, Allowed o cp → plain cp) → IsString plain (keyText o key).text cps := by
  cases key with
  | name s =>
    obtain ⟨cps, hcps, htext⟩ := isString_jsonEscapeString h
    exact ⟨cps, .name hcps, htext⟩
  | index n =>
    refine ⟨_, .index n, fun plain hplain => .mk (isChars_map_toNat fun c hc => ?_)⟩
    have hrange : 45 ≤ c.toNat ∧ c.toNat ≤ 57 ∧ c.toNat ≠ 47 := by
      rcases Var.mem_printLong hc with rfl | hdigit
      · decide
      · have := (isDecimal_iff c).1 hdigit
        omega
    refine ⟨by omega, by omega, by omega, by omega, hplain _ ⟨?_, ?_, ?_, ?_, ?_⟩⟩ <;>
      intro _ <;> omega

theorem errorCode_keyText {key : ArrayKey} : (keyText o key).errorCode = none ↔ ∃ cps, KeyDenotes key cps := by
  constructor
  · intro h
    obtain ⟨cps, hcps, -⟩ := isString_keyText h
    exact ⟨cps, hcps⟩
  · rintro ⟨cps, hcps⟩
    cases hcps with
    | index => rfl
    | name hs => exact errorCode_jsonEscapeString.2 ⟨cps, hs⟩

end PhpSandbox.Json
