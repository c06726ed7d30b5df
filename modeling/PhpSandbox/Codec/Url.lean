import PhpSandbox.Lib.CString

/-!
# URL encoding

`php_url_encode` and `php_url_decode` of `ext/standard/url.c`. The decoder works
in place: it is handed the memory at `str`, overwrites it from the front with the
decoded bytes, and ends them with a NUL.

## What is proved

`phpUrlDecode_encode`: an encoded text is decoded, and the memory after it is
left alone, except that its first byte becomes NUL when the encoding was no
longer than the text. `length_phpUrlEncode_eq_iff` says which texts those are:
the ones of spaces, letters, digits, `-`, `.` and `_` alone.
-/

namespace PhpSandbox.Codec

open Lib List

/-- `hexchars`. -/
def hexchars : Bytes := ascii "0123456789ABCDEF"

variable (c : UInt8)

/-- The bytes `php_url_encode` escapes (the space apart). -/
def urlEscaped : Bool :=
  (c < 48 && c != 45 && c != 46) || (c < 65 && c > 57) || (c > 90 && c < 97 && c != 95) || c > 122

/-- What the loop of `php_url_encode` writes for one byte. -/
def urlEncodeByte : Bytes :=
  if c = 32 then [43]
  else if urlEscaped c then [37, hexchars.getD (c >>> 4).toNat 0, hexchars.getD (c &&& 15).toNat 0]
  else [c]

/-- `php_url_encode`. -/
def phpUrlEncode (s : Bytes) : Bytes := s.flatMap urlEncodeByte

/-- `isxdigit` in the C locale. -/
def isXDigit : Bool := (48 ≤ c && c ≤ 57) || (97 ≤ c && c ≤ 102) || (65 ≤ c && c ≤ 70)

/-- The value `php_htoi` gives one digit, `tolower` applied to the upper-case letters. -/
def hexDigitValue : ℕ :=
  let c := if 65 ≤ c ∧ c ≤ 90 then c + 32 else c
  if 48 ≤ c ∧ c ≤ 57 then c.toNat - 48 else c.toNat - 97 + 10

/-- `php_htoi`, at two digits. -/
def phpHtoi (c d : UInt8) : ℕ := hexDigitValue c * 16 + hexDigitValue d

/-- The loop of `php_url_decode` over the memory at `str`, with `data` and `dest` as offsets
into it and `len` bytes left; and the NUL it writes at the end. -/
def urlDecodeLoop (mem : Bytes) (data dest : ℕ) : ℕ → Bytes × ℕ
  | 0 => (mem.set dest 0, dest)
  | len + 1 =>
    let c := mem.getD data 0
    if c = 43 then urlDecodeLoop (mem.set dest 32) (data + 1) (dest + 1) len
    else
      match len with
      | len + 2 =>
        let c₁ := mem.getD (data + 1) 0
        let c₂ := mem.getD (data + 2) 0
        if c = 37 ∧ isXDigit c₁ ∧ isXDigit c₂ then
          urlDecodeLoop (mem.set dest (UInt8.ofNat (phpHtoi c₁ c₂))) (data + 3) (dest + 1) len
        else urlDecodeLoop (mem.set dest c) (data + 1) (dest + 1) (len + 2)
      | 1 => urlDecodeLoop (mem.set dest c) (data + 1) (dest + 1) 1
      | 0 => urlDecodeLoop (mem.set dest c) (data + 1) (dest + 1) 0

/-- `php_url_decode`: the memory at `str` afterwards, and the length of the decoded text. -/
def phpUrlDecode (str : Bytes) (len : ℕ) : Bytes × ℕ := urlDecodeLoop str 0 0 len

/-! ### One byte -/

/-- The escape of a byte is read back. -/
theorem phpHtoi_hexchars : ∀ c : UInt8,
    isXDigit (hexchars.getD (c >>> 4).toNat 0) ∧ isXDigit (hexchars.getD (c &&& 15).toNat 0) ∧
      UInt8.ofNat (phpHtoi (hexchars.getD (c >>> 4).toNat 0) (hexchars.getD (c &&& 15).toNat 0)) = c :=
  forall_uint8 (by decide +kernel)

theorem urlEscaped_plus : urlEscaped 43 = true := by decide

theorem urlEscaped_percent : urlEscaped 37 = true := by decide

variable (c : UInt8)

/-- The bytes that are written as one. -/
theorem length_urlEncodeByte : (urlEncodeByte c).length = if c = 32 ∨ ¬ urlEscaped c then 1 else 3 := by
  unfold urlEncodeByte
  by_cases hs : c = 32
  · simp [hs]
  · by_cases he : urlEscaped c <;> simp [hs, he]

theorem length_urlEncodeByte_pos : 0 < (urlEncodeByte c).length := by
  rw [length_urlEncodeByte]
  split_ifs <;> omega

variable (s : Bytes)

theorem phpUrlEncode_cons : phpUrlEncode (c :: s) = urlEncodeByte c ++ phpUrlEncode s := rfl

theorem length_le_phpUrlEncode : s.length ≤ (phpUrlEncode s).length := by
  induction s with
  | nil => exact le_rfl
  | cons c s ih =>
    have hc := length_urlEncodeByte_pos c
    rw [phpUrlEncode_cons, length_append, length_cons]
    omega

/-- The texts that encoding does not make longer. -/
theorem length_phpUrlEncode_eq_iff : (phpUrlEncode s).length = s.length ↔ ∀ c ∈ s, c = 32 ∨ ¬ urlEscaped c := by
  induction s with
  | nil => simp [phpUrlEncode]
  | cons c s ih =>
    have hs := length_le_phpUrlEncode s
    rw [phpUrlEncode_cons, length_append, length_cons, length_urlEncodeByte, forall_mem_cons, ← ih]
    split_ifs with hc
    · constructor
      · exact fun h => ⟨hc, by omega⟩
      · rintro ⟨-, h⟩
        omega
    · constructor
      · intro h
        omega
      · exact fun h => absurd h.1 hc

/-- Every byte of an encoding is visible and no colon. -/
theorem mem_phpUrlEncode {s : Bytes} {b : UInt8} (h : b ∈ phpUrlEncode s) : 33 ≤ b ∧ b ≤ 126 ∧ b ≠ 58 := by
  have hbyte : ∀ c : UInt8, (urlEncodeByte c).all fun b => 33 ≤ b && b ≤ 126 && b != 58 :=
    forall_uint8 (by decide +kernel)
  obtain ⟨c, -, hb⟩ := mem_flatMap.mp h
  have := all_eq_true.mp (hbyte c) b hb
  simpa [and_assoc] using this

/-! ### Decoding in place -/

section Loop

variable {mem : Bytes} {data dest n : ℕ}

/-- The `'+'` branch. -/
theorem urlDecodeLoop_plus (h : mem.getD data 0 = 43) :
    urlDecodeLoop mem data dest (n + 1) = urlDecodeLoop (mem.set dest 32) (data + 1) (dest + 1) n := by
  rw [urlDecodeLoop.eq_def]
  exact if_pos h

/-- The `'%'` branch. -/
theorem urlDecodeLoop_escape {c₁ c₂ : UInt8} (h : mem.getD data 0 = 37) (h₁ : mem.getD (data + 1) 0 = c₁)
    (h₂ : mem.getD (data + 2) 0 = c₂) (hx₁ : isXDigit c₁) (hx₂ : isXDigit c₂) :
    urlDecodeLoop mem data dest (n + 3) =
      urlDecodeLoop (mem.set dest (UInt8.ofNat (phpHtoi c₁ c₂))) (data + 3) (dest + 1) n := by
  have hplus : mem.getD data 0 ≠ 43 := by rw [h]; decide
  rw [urlDecodeLoop, if_neg hplus]
  simp only [h₁, h₂]
  rw [if_pos ⟨h, hx₁, hx₂⟩]

/-- The branch that copies. -/
theorem urlDecodeLoop_copy {c : UInt8} (h : mem.getD data 0 = c) (hplus : c ≠ 43) (hpct : c ≠ 37) :
    urlDecodeLoop mem data dest (n + 1) = urlDecodeLoop (mem.set dest c) (data + 1) (dest + 1) n := by
  subst h
  rw [urlDecodeLoop.eq_def]
  refine (if_neg hplus).trans ?_
  match n with
  | 0 | 1 => rfl
  | n + 2 => exact if_neg fun h => hpct h.1

end Loop

/-- Reading the encoded byte: `out` is what is decoded so far, `gap` what lies between
`dest` and `data`. -/
theorem getD_data (out gap enc tail : Bytes) (i : ℕ) (hi : i < enc.length) :
    (out ++ gap ++ enc ++ tail).getD ((out ++ gap).length + i) 0 = enc.getD i 0 := by
  rw [append_assoc (out ++ gap), getD_eq_getElem?_getD,
    getElem?_append_right (Nat.le_add_right ..), Nat.add_sub_cancel_left,
    getElem?_append_left hi, ← getD_eq_getElem?_getD]

/-- Writing the decoded byte moves `dest` on into the gap, which grows by the rest of the
encoding. -/
theorem set_dest (out gap tail : Bytes) {enc : Bytes} (henc : enc ≠ []) (c : UInt8) :
    (out ++ gap ++ enc ++ tail).set out.length c = out ++ [c] ++ (gap ++ enc).tail ++ tail := by
  obtain ⟨b, bs, hb⟩ := exists_cons_of_ne_nil (append_ne_nil_of_right_ne_nil gap henc)
  rw [append_assoc out, hb]
  simp

/-- One encoded byte is decoded. -/
theorem urlDecodeLoop_byte (out gap tail : Bytes) (c : UInt8) (n : ℕ) :
    urlDecodeLoop (out ++ gap ++ urlEncodeByte c ++ tail) (out ++ gap).length out.length
        ((urlEncodeByte c).length + n) =
      urlDecodeLoop (out ++ [c] ++ (gap ++ urlEncodeByte c).tail ++ tail)
        ((out ++ gap).length + (urlEncodeByte c).length) (out.length + 1) n := by
  have henc : urlEncodeByte c ≠ [] := ne_nil_of_length_pos (length_urlEncodeByte_pos c)
  have hread := getD_data out gap (urlEncodeByte c) tail
  rw [← set_dest out gap tail henc c, Nat.add_comm _ n]
  by_cases hs : c = 32
  · subst hs
    exact urlDecodeLoop_plus (hread 0 (by decide))
  by_cases he : urlEscaped c
  · have henc3 : urlEncodeByte c =
        [37, hexchars.getD (c >>> 4).toNat 0, hexchars.getD (c &&& 15).toNat 0] := by
      rw [urlEncodeByte, if_neg hs, if_pos he]
    obtain ⟨hx₁, hx₂, hval⟩ := phpHtoi_hexchars c
    rw [henc3] at hread ⊢
    refine (urlDecodeLoop_escape (hread 0 (by simp)) (hread 1 (by simp)) (hread 2 (by simp)) hx₁ hx₂).trans ?_
    exact congrArg (fun v => urlDecodeLoop (List.set _ _ v) _ _ n) hval
  · have henc1 : urlEncodeByte c = [c] := by rw [urlEncodeByte, if_neg hs, if_neg he]
    rw [henc1] at hread ⊢
    refine urlDecodeLoop_copy (hread 0 (by simp)) ?_ ?_
    · rintro rfl
      exact he urlEscaped_plus
    · rintro rfl
      exact he urlEscaped_percent

/-- The loop over an encoded text: the text is written at `dest`, and the gap has grown by
what the encoding is longer. -/
theorem urlDecodeLoop_encode (s out gap tail : Bytes) :
    ∃ gap', gap'.length + s.length = gap.length + (phpUrlEncode s).length ∧
      urlDecodeLoop (out ++ gap ++ phpUrlEncode s ++ tail) (out ++ gap).length out.length
        (phpUrlEncode s).length =
      ((out ++ s ++ gap' ++ tail).set (out.length + s.length) 0, out.length + s.length) := by
  induction s generalizing out gap with
  | nil => exact ⟨gap, rfl, by simp [phpUrlEncode, urlDecodeLoop]⟩
  | cons c s ih =>
    have hlen : ((gap ++ urlEncodeByte c).tail).length + 1 = gap.length + (urlEncodeByte c).length := by
      have hpos := length_urlEncodeByte_pos c
      rw [length_tail, length_append]
      omega
    obtain ⟨gap', hgap', h⟩ := ih (out ++ [c]) (gap ++ urlEncodeByte c).tail
    refine ⟨gap', ?_, ?_⟩
    · rw [phpUrlEncode_cons, length_append, length_cons]
      omega
    · have hdata : (out ++ gap).length + (urlEncodeByte c).length =
          (out ++ [c] ++ (gap ++ urlEncodeByte c).tail).length := by
        simp only [length_append, length_singleton] at hlen ⊢
        omega
      have hdest : out.length + 1 = (out ++ [c]).length := by rw [length_append, length_singleton]
      have hstep := urlDecodeLoop_byte out gap (phpUrlEncode s ++ tail) c (phpUrlEncode s).length
      rw [hdata, hdest, ← append_assoc, ← append_assoc, h] at hstep
      rw [phpUrlEncode_cons, @length_append _ (urlEncodeByte c), ← append_assoc, hstep]
      simp [Nat.add_assoc, Nat.add_comm 1]

/-- **Decoding undoes encoding, in place**: the text stands at the front of the memory, and
what followed the encoding is as it was, but for a NUL over its first byte when the encoding
was as short as the text. -/
theorem phpUrlDecode_encode (s tail : Bytes) :
    (phpUrlDecode (phpUrlEncode s ++ tail) (phpUrlEncode s).length).2 = s.length ∧
    (phpUrlDecode (phpUrlEncode s ++ tail) (phpUrlEncode s).length).1.take s.length = s ∧
    (phpUrlDecode (phpUrlEncode s ++ tail) (phpUrlEncode s).length).1.drop (phpUrlEncode s).length =
      if (phpUrlEncode s).length = s.length then tail.set 0 0 else tail := by
  obtain ⟨gap, hgap, h⟩ := urlDecodeLoop_encode s [] [] tail
  have hdec : phpUrlDecode (phpUrlEncode s ++ tail) (phpUrlEncode s).length =
      (s ++ (gap ++ tail).set 0 0, s.length) := by
    rw [phpUrlDecode]
    simpa using h
  rw [length_nil, Nat.zero_add] at hgap
  rw [hdec]
  refine ⟨rfl, take_left, ?_⟩
  rw [← hgap, Nat.add_comm, ← drop_drop, drop_left]
  cases gap with
  | nil | cons g gap => simp

/-- Decoding never changes how much memory there is. -/
theorem length_urlDecodeLoop (mem : Bytes) (data dest len : ℕ) :
    (urlDecodeLoop mem data dest len).1.length = mem.length := by
  fun_induction urlDecodeLoop mem data dest len <;> simp_all

end PhpSandbox.Codec
