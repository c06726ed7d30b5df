import PhpSandbox.Lib.CString
import Mathlib.Data.Nat.Bitwise

/-!
# Base64

`php_base64_encode` and `php_base64_decode_ex` of `ext/standard/base64.c`. The
decoder reads a C string from a cursor, at most `length` bytes of it, skips what
is not of the alphabet, and packs six bits at a time into the byte under
construction; the byte after the last one it may read decides, with the pads,
whether the end is well formed.

`phpBase64Decode_encode`: what the encoder writes is read back, whatever bytes
follow it that are no pad.
-/

namespace PhpSandbox.Codec

open Lib List

/-- `base64_table`. -/
def base64Table : Bytes := ascii "ABCDEFGHIJKLMNOPQRSTUVWXYZabcdefghijklmnopqrstuvwxyz0123456789+/"

/-- `base64_table[i]`. -/
def base64Char (i : ℕ) : UInt8 := base64Table.getD i 0

/-- `php_base64_encode`. -/
def phpBase64Encode : Bytes → Bytes
  | a :: b :: c :: rest =>
    base64Char (a.toNat >>> 2) ::
    base64Char (((a.toNat &&& 0x03) <<< 4) + (b.toNat >>> 4)) ::
    base64Char (((b.toNat &&& 0x0f) <<< 2) + (c.toNat >>> 6)) ::
    base64Char (c.toNat &&& 0x3f) :: phpBase64Encode rest
  | [a, b] =>
    [base64Char (a.toNat >>> 2), base64Char (((a.toNat &&& 0x03) <<< 4) + (b.toNat >>> 4)),
      base64Char ((b.toNat &&& 0x0f) <<< 2), 61]
  | [a] => [base64Char (a.toNat >>> 2), base64Char ((a.toNat &&& 0x03) <<< 4), 61, 61]
  | [] => []

/-- `base64_reverse_table`: `-1` for white space, `-2` for other bytes outside the alphabet. -/
def base64ReverseTable : List ℤ :=
  [-2, -2, -2, -2, -2, -2, -2, -2, -2, -1, -1, -2, -2, -1, -2, -2,
   -2, -2, -2, -2, -2, -2, -2, -2, -2, -2, -2, -2, -2, -2, -2, -2,
   -1, -2, -2, -2, -2, -2, -2, -2, -2, -2, -2, 62, -2, -2, -2, 63,
   52, 53, 54, 55, 56, 57, 58, 59, 60, 61, -2, -2, -2, -2, -2, -2,
   -2,  0,  1,  2,  3,  4,  5,  6,  7,  8,  9, 10, 11, 12, 13, 14,
   15, 16, 17, 18, 19, 20, 21, 22, 23, 24, 25, -2, -2, -2, -2, -2,
   -2, 26, 27, 28, 29, 30, 31, 32, 33, 34, 35, 36, 37, 38, 39, 40,
   41, 42, 43, 44, 45, 46, 47, 48, 49, 50, 51, -2, -2, -2, -2, -2]

/-- `base64_reverse_table[ch]`; the upper half of the table is `-2` throughout. -/
def base64Reverse (ch : UInt8) : ℤ := base64ReverseTable.getD ch.toNat (-2)

variable (c : UInt8)

/-- `isspace` in the C locale. -/
def isSpace : Bool := c == 32 || (9 ≤ c && c ≤ 13)

/-- Where the decoder's loop stands: `i` digits read, and `result[j]` under construction. -/
structure DecodeState where
  /-- The number of base64 digits read. -/
  i : ℕ
  /-- The byte `result[j]`. -/
  cur : UInt8

/-- The `switch (i % 4)` of the loop: the bytes finished by digit `v`, and the new state. -/
def pushDigit (st : DecodeState) (v : ℕ) : Bytes × DecodeState :=
  match st.i % 4 with
  | 0 => ([], ⟨st.i + 1, UInt8.ofNat (v <<< 2)⟩)
  | 1 => ([st.cur ||| UInt8.ofNat (v >>> 4)], ⟨st.i + 1, UInt8.ofNat ((v &&& 0x0f) <<< 4)⟩)
  | 2 => ([st.cur ||| UInt8.ofNat (v >>> 2)], ⟨st.i + 1, UInt8.ofNat ((v &&& 0x03) <<< 6)⟩)
  | _ => ([st.cur ||| UInt8.ofNat v], ⟨st.i + 1, st.cur⟩)

/-- The loop: the bytes it finishes, the last `ch` read and the digits read, or `none` for
`return NULL`. The text is what `current` points at, up to the terminating NUL. -/
def decodeLoop (strict : Bool) : Bytes → ℕ → DecodeState → Option (Bytes × UInt8 × ℕ)
  | [], _, st => some ([], 0, st.i)
  | ch :: _, 0, st => some ([], ch, st.i)
  | ch :: rest, length + 1, st =>
    if ch = 0 then some ([], 0, st.i)
    else if ch = 61 then
      if rest.head? ≠ some 61 ∧ (st.i % 4 = 1 ∨ (strict ∧ 0 < length)) then
        if st.i % 4 ≠ 1 then
          match (rest.drop 1).dropWhile isSpace with
          | [] => some ([], 0, st.i)
          | _ :: _ => none
        else none
      else decodeLoop strict rest length st
    else if (!strict && base64Reverse ch < 0) || base64Reverse ch == -1 then
      decodeLoop strict rest length st
    else if base64Reverse ch = -2 then none
    else
      let (bytes, st') := pushDigit st (base64Reverse ch).toNat
      (decodeLoop strict rest length st').map fun r => (bytes ++ r.1, r.2)

/-- `php_base64_decode_ex`: the first `length` bytes of the text at `str`. -/
def phpBase64DecodeEx (str : Bytes) (length : ℕ) (strict : Bool) : Option Bytes :=
  match decodeLoop strict str length ⟨0, 0⟩ with
  | none => none
  | some (bytes, ch, i) => if ch = 61 ∧ i % 4 = 1 then none else some bytes

/-- `php_base64_decode`. -/
def phpBase64Decode (str : Bytes) (length : ℕ) : Option Bytes := phpBase64DecodeEx str length false

/-! ### One digit -/

theorem base64Char_ne : ∀ v < 64, base64Char v ≠ 0 ∧ base64Char v ≠ 61 := by decide +kernel

theorem base64Reverse_char : ∀ v < 64, base64Reverse (base64Char v) = v := by decide +kernel

/-- A digit of the alphabet is packed. -/
theorem decodeLoop_digit {v : ℕ} (hv : v < 64) (rest : Bytes) (length : ℕ) (st : DecodeState) :
    decodeLoop false (base64Char v :: rest) (length + 1) st =
      (decodeLoop false rest length (pushDigit st v).2).map fun r => ((pushDigit st v).1 ++ r.1, r.2) := by
  obtain ⟨h0, hpad⟩ := base64Char_ne v hv
  have hr := base64Reverse_char v hv
  have hneg : ¬ ((v : ℤ) < 0) := by omega
  have h1 : ((v : ℤ) == -1) = false := by simp
  have h2 : ¬ ((v : ℤ) = -2) := by omega
  simp only [decodeLoop, h0, hpad, hr, hneg, h1, h2, if_false, decide_false, Bool.and_false,
    Bool.or_false, Bool.false_eq_true, Int.toNat_natCast]

/-- Two groups of bits that do not overlap. -/
theorem ofNat_or {x y i : ℕ} (hy : y < 2 ^ i) (hx : x <<< i + y < 256) :
    UInt8.ofNat (x <<< i) ||| UInt8.ofNat y = UInt8.ofNat (x <<< i + y) := by
  have hx' : x <<< i < 256 := by omega
  have hy' : y < 256 := lt_of_le_of_lt (Nat.le_add_left y (x <<< i)) hx
  apply UInt8.toNat_inj.mp
  rw [UInt8.toNat_or, UInt8.toNat_ofNat_of_lt' (by omega), UInt8.toNat_ofNat_of_lt' (by omega),
    UInt8.toNat_ofNat_of_lt' (by omega), Nat.shiftLeft_add_eq_or_of_lt hy]

theorem and_three (n : ℕ) : n &&& 0x03 = n % 4 := Nat.and_two_pow_sub_one_eq_mod n 2

theorem and_fifteen (n : ℕ) : n &&& 0x0f = n % 16 := Nat.and_two_pow_sub_one_eq_mod n 4

theorem and_sixtythree (n : ℕ) : n &&& 0x3f = n % 64 := Nat.and_two_pow_sub_one_eq_mod n 6

/-- A byte is its high bits and its low bits. -/
theorem or_low_bits (i : ℕ) (a : UInt8) :
    UInt8.ofNat ((a.toNat / 2 ^ i) <<< i) ||| UInt8.ofNat (a.toNat % 2 ^ i) = a := by
  have hsum : (a.toNat / 2 ^ i) <<< i + a.toNat % 2 ^ i = a.toNat := by
    rw [Nat.shiftLeft_eq, Nat.div_add_mod']
  rw [ofNat_or (Nat.mod_lt _ (Nat.two_pow_pos i)) (hsum.trans_lt a.toNat_lt), hsum, UInt8.ofNat_toNat]

theorem or_six (a : UInt8) : UInt8.ofNat ((a.toNat / 4) <<< 2) ||| UInt8.ofNat (a.toNat % 4) = a :=
  or_low_bits 2 a

theorem or_four (b : UInt8) : UInt8.ofNat ((b.toNat / 16) <<< 4) ||| UInt8.ofNat (b.toNat % 16) = b :=
  or_low_bits 4 b

theorem or_two : UInt8.ofNat ((c.toNat / 64) <<< 6) ||| UInt8.ofNat (c.toNat % 64) = c :=
  or_low_bits 6 c

/-! ### The four digits of a group

The high bits of each byte come from one digit, the low bits from the next. -/

section Group

variable (a : UInt8) (rest : Bytes) (length : ℕ) {i : ℕ}

theorem decodeLoop_first {st : DecodeState} (hst : st.i % 4 = 0) :
    decodeLoop false (base64Char (a.toNat >>> 2) :: rest) (length + 1) st =
      decodeLoop false rest length ⟨st.i + 1, UInt8.ofNat ((a.toNat / 4) <<< 2)⟩ := by
  have ha := a.toNat_lt
  have hv : a.toNat >>> 2 = a.toNat / 4 := Nat.shiftRight_eq_div_pow _ 2
  rw [hv, decodeLoop_digit (by omega)]
  simp [pushDigit, hst]

theorem decodeLoop_second {x : ℕ} (hx : x < 16) (hi : i % 4 = 1) :
    decodeLoop false (base64Char (((a.toNat &&& 0x03) <<< 4) + x) :: rest) (length + 1)
        ⟨i, UInt8.ofNat ((a.toNat / 4) <<< 2)⟩ =
      (decodeLoop false rest length ⟨i + 1, UInt8.ofNat (x <<< 4)⟩).map fun r => (a :: r.1, r.2) := by
  have hv : (a.toNat &&& 0x03) <<< 4 + x = a.toNat % 4 * 16 + x := by rw [and_three, Nat.shiftLeft_eq]
  have hhigh : (a.toNat % 4 * 16 + x) >>> 4 = a.toNat % 4 := by rw [Nat.shiftRight_eq_div_pow]; omega
  have hlow : (a.toNat % 4 * 16 + x) &&& 0x0f = x := by rw [and_fifteen]; omega
  rw [hv, decodeLoop_digit (by omega)]
  simp only [pushDigit, hi, hhigh, hlow, or_six, singleton_append]

theorem decodeLoop_third {y : ℕ} (hy : y < 4) (hi : i % 4 = 2) :
    decodeLoop false (base64Char (((a.toNat &&& 0x0f) <<< 2) + y) :: rest) (length + 1)
        ⟨i, UInt8.ofNat ((a.toNat / 16) <<< 4)⟩ =
      (decodeLoop false rest length ⟨i + 1, UInt8.ofNat (y <<< 6)⟩).map fun r => (a :: r.1, r.2) := by
  have hv : (a.toNat &&& 0x0f) <<< 2 + y = a.toNat % 16 * 4 + y := by rw [and_fifteen, Nat.shiftLeft_eq]
  have hhigh : (a.toNat % 16 * 4 + y) >>> 2 = a.toNat % 16 := by rw [Nat.shiftRight_eq_div_pow]; omega
  have hlow : (a.toNat % 16 * 4 + y) &&& 0x03 = y := by rw [and_three]; omega
  rw [hv, decodeLoop_digit (by omega)]
  simp only [pushDigit, hi, hhigh, hlow, or_four, singleton_append]

theorem decodeLoop_fourth (hi : i % 4 = 3) :
    decodeLoop false (base64Char (a.toNat &&& 0x3f) :: rest) (length + 1) ⟨i, UInt8.ofNat ((a.toNat / 64) <<< 6)⟩ =
      (decodeLoop false rest length ⟨i + 1, UInt8.ofNat ((a.toNat / 64) <<< 6)⟩).map fun r => (a :: r.1, r.2) := by
  rw [and_sixtythree, decodeLoop_digit (by omega)]
  simp only [pushDigit, hi, or_two, singleton_append]

end Group

/-! ### The round trip -/

theorem shiftRight_four_lt (b : UInt8) : b.toNat >>> 4 < 16 := by
  have hb := b.toNat_lt
  rw [Nat.shiftRight_eq_div_pow]
  omega

theorem shiftRight_six_lt : c.toNat >>> 6 < 4 := by
  have hc := c.toNat_lt
  rw [Nat.shiftRight_eq_div_pow]
  omega

/-- Four digits give back three bytes. -/
theorem decodeLoop_group (a b c : UInt8) (rest : Bytes) (length : ℕ) {st : DecodeState} (hst : st.i % 4 = 0) :
    ∃ st' : DecodeState, st'.i % 4 = 0 ∧
      decodeLoop false (base64Char (a.toNat >>> 2) ::
          base64Char (((a.toNat &&& 0x03) <<< 4) + (b.toNat >>> 4)) ::
          base64Char (((b.toNat &&& 0x0f) <<< 2) + (c.toNat >>> 6)) ::
          base64Char (c.toNat &&& 0x3f) :: rest) (length + 4) st =
        (decodeLoop false rest length st').map fun r => (a :: b :: c :: r.1, r.2) := by
  have hb : b.toNat >>> 4 = b.toNat / 16 := Nat.shiftRight_eq_div_pow _ 4
  have hc : c.toNat >>> 6 = c.toNat / 64 := Nat.shiftRight_eq_div_pow _ 6
  refine ⟨⟨st.i + 4, UInt8.ofNat ((c.toNat / 64) <<< 6)⟩, by simp [hst], ?_⟩
  rw [decodeLoop_first a _ _ hst, decodeLoop_second a _ _ (shiftRight_four_lt b) (by omega), hb,
    decodeLoop_third b _ _ (shiftRight_six_lt c) (by omega), hc, decodeLoop_fourth c _ _ (by omega)]
  simp only [Option.map_map, Function.comp_def]

/-- The pads at the end are passed over, whatever the state, if no pad follows in the text. -/
theorem decodeLoop_pads {n : ℕ} {rest : Bytes} (hrest : rest.head? ≠ some 61) (st : DecodeState) (hst : st.i % 4 ≠ 1) :
    decodeLoop false (replicate n 61 ++ rest) n st = some ([], rest.headD 0, st.i) := by
  induction n with
  | zero => cases rest <;> rfl
  | succ n ih =>
    rw [replicate_succ, cons_append, decodeLoop, if_neg (by decide), if_pos rfl, if_neg (by simp [hst]), ih]

variable (s : Bytes)

/-- The loop over an encoding, from a state between two groups. -/
theorem decodeLoop_encode {rest : Bytes} (hrest : rest.head? ≠ some 61) (st : DecodeState)
    (hst : st.i % 4 = 0) : ∃ i, i % 4 ≠ 1 ∧
      decodeLoop false (phpBase64Encode s ++ rest) (phpBase64Encode s).length st = some (s, rest.headD 0, i) := by
  fun_induction phpBase64Encode s generalizing st with
  | case1 a b c s ih =>
    obtain ⟨st', hst', hgroup⟩ := decodeLoop_group a b c (phpBase64Encode s ++ rest)
      (phpBase64Encode s).length hst
    obtain ⟨i, hi, h⟩ := ih st' hst'
    rw [h] at hgroup
    exact ⟨i, hi, hgroup⟩
  | case2 a b =>
    refine ⟨st.i + 3, by omega, ?_⟩
    have hb : b.toNat >>> 4 = b.toNat / 16 := Nat.shiftRight_eq_div_pow _ 4
    have hpads : decodeLoop false (61 :: rest) (0 + 1) ⟨st.i + 3, UInt8.ofNat (0 <<< 6)⟩ =
        some ([], rest.headD 0, st.i + 3) := decodeLoop_pads (n := 1) hrest _ (by simp only; omega)
    have hthird := decodeLoop_third b (61 :: rest) (0 + 1) (y := 0) (by omega) (i := st.i + 2) (by omega)
    rw [hpads, Nat.add_zero] at hthird
    simp only [cons_append, nil_append, length_cons, length_nil]
    rw [decodeLoop_first a _ _ hst, decodeLoop_second a _ _ (shiftRight_four_lt b) (by omega), hb, hthird]
    rfl
  | case3 a =>
    refine ⟨st.i + 2, by omega, ?_⟩
    have hpads : decodeLoop false (61 :: 61 :: rest) (0 + 1 + 1) ⟨st.i + 2, UInt8.ofNat (0 <<< 4)⟩ =
        some ([], rest.headD 0, st.i + 2) := decodeLoop_pads (n := 2) hrest _ (by simp only; omega)
    have hsecond := decodeLoop_second a (61 :: 61 :: rest) (0 + 1 + 1) (x := 0) (by omega) (i := st.i + 1) (by omega)
    rw [hpads, Nat.add_zero] at hsecond
    simp only [cons_append, nil_append, length_cons, length_nil]
    rw [decodeLoop_first a _ _ hst, hsecond]
    rfl
  | case4 => exact ⟨st.i, by omega, decodeLoop_pads (n := 0) hrest st (by omega)⟩

/-- **The decoder reads back what the encoder wrote**, whatever follows that is no pad. -/
theorem phpBase64Decode_encode (s rest : Bytes) (hrest : rest.head? ≠ some 61) :
    phpBase64Decode (phpBase64Encode s ++ rest) (phpBase64Encode s).length = some s := by
  obtain ⟨i, hi, h⟩ := decodeLoop_encode s hrest ⟨0, 0⟩ rfl
  rw [phpBase64Decode, phpBase64DecodeEx, h]
  exact if_neg fun hc => hi hc.2

/-- The bytes of the encoder's output: digits of the alphabet and pads. -/
theorem mem_phpBase64Encode : ∀ c ∈ phpBase64Encode s, c = 61 ∨ ∃ v < 64, c = base64Char v := by
  have hchar : ∀ v, v < 64 → base64Char v = 61 ∨ ∃ w < 64, base64Char v = base64Char w :=
    fun v hv => .inr ⟨v, hv, rfl⟩
  induction s using phpBase64Encode.induct with
  | case1 a b c s ih =>
    have ha := a.toNat_lt
    have hb := b.toNat_lt
    have hc := c.toNat_lt
    simp only [phpBase64Encode, mem_cons, forall_eq_or_imp]
    refine ⟨hchar _ ?_, hchar _ ?_, hchar _ ?_, hchar _ ?_, ih⟩
    all_goals
      simp only [and_three, and_fifteen, and_sixtythree, Nat.shiftLeft_eq, Nat.shiftRight_eq_div_pow]
      omega
  | case2 a b =>
    have ha := a.toNat_lt
    have hb := b.toNat_lt
    simp only [phpBase64Encode, mem_cons, forall_eq_or_imp, not_mem_nil, false_implies, implies_true, and_true]
    refine ⟨hchar _ ?_, hchar _ ?_, hchar _ ?_, .inl trivial⟩
    all_goals
      simp only [and_three, and_fifteen, Nat.shiftLeft_eq, Nat.shiftRight_eq_div_pow]
      omega
  | case3 a =>
    have ha := a.toNat_lt
    simp only [phpBase64Encode, mem_cons, forall_eq_or_imp, not_mem_nil, false_implies, implies_true, and_true]
    refine ⟨hchar _ ?_, hchar _ ?_, .inl trivial, .inl trivial⟩
    all_goals
      simp only [and_three, Nat.shiftLeft_eq, Nat.shiftRight_eq_div_pow]
      omega
  | case4 => simp [phpBase64Encode]

/-- An encoding is at least as long as the text. -/
theorem length_le_phpBase64Encode : s.length ≤ (phpBase64Encode s).length := by
  fun_induction phpBase64Encode s with
  | case1 a b c rest ih => simp only [length_cons]; omega
  | case2 a b | case3 a | case4 => simp

end PhpSandbox.Codec
