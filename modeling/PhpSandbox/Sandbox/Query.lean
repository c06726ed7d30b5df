import PhpSandbox.Lib.Decimal

/-!
# Building statements for the admin database

The sandbox and blog extensions build their SQL in buffers of `QUERY_MAXLEN`
bytes: `new_sprintf` formats into a fresh one with `vsprintf`, which does not
know its size, and values from outside go through `addslashes`, that is
`php_addslashes` of `ext/standard/string.c` on the C string. A statement that
does not fit is written past the buffer, which ends the run here with an
`Overflow`.
-/

namespace PhpSandbox.Sandbox

open Lib List

/-- `QUERY_MAXLEN`, the size of a statement buffer. -/
def queryMaxlen : ℕ := 512

/-- A write past the end of a statement buffer. -/
inductive Overflow where
  /-- `vsprintf` or `strcpy` into a buffer that is too small. -/
  | queryBuffer
  deriving DecidableEq

/-- A text fits a statement buffer with its terminating NUL. -/
def Fits (text : Bytes) : Prop := text.length < queryMaxlen

instance (text : Bytes) : Decidable (Fits text) := inferInstanceAs (Decidable (_ < _))

/-- `new_sprintf`, for the text that the format and its arguments give. -/
def newSprintf (text : Bytes) : Except Overflow Bytes :=
  if Fits text then .ok text else .error .queryBuffer

/-- `APPEND_STR(target, source)`, with `target` a statement buffer. -/
def appendStr (target source : Bytes) : Except Overflow Bytes := newSprintf (target ++ source)

/-- One byte of `php_addslashes`. -/
def addslashesByte (c : UInt8) : Bytes :=
  if c = 0 then [92, 48]
  else if c = 39 ∨ c = 34 ∨ c = 92 then [92, c]
  else [c]

/-- `php_addslashes`. -/
def phpAddslashes (s : Bytes) : Bytes := s.flatMap addslashesByte

/-- `ltostr`, for a value that `%ld` prints. -/
def ltostr (n : ℤ) : Bytes := ascii (toString n)

theorem newSprintf_eq_ok_iff {text q : Bytes} : newSprintf text = .ok q ↔ Fits text ∧ q = text := by
  unfold newSprintf
  split
  · rename_i h
    simp only [Except.ok.injEq, h, true_and]
    exact eq_comm
  · rename_i h
    simp [h]

theorem Fits.of_append {s t : Bytes} (h : Fits (s ++ t)) : Fits s := by
  unfold Fits at h ⊢
  rw [length_append] at h
  omega

/-- A sequence of `APPEND_STR`s succeeds just when all of it fits. -/
theorem foldlM_appendStr_eq_ok_iff {query : Bytes} (h : Fits query) (pieces : List Bytes) (q : Bytes) :
    pieces.foldlM appendStr query = .ok q ↔
      Fits (query ++ pieces.flatten) ∧ q = query ++ pieces.flatten := by
  induction pieces generalizing query with
  | nil =>
    rw [flatten_nil, append_nil]
    exact ⟨fun hq => ⟨h, (Except.ok.inj hq).symm⟩, fun hq => congrArg Except.ok hq.2.symm⟩
  | cons p pieces ih =>
    rw [foldlM_cons, flatten_cons, ← append_assoc]
    by_cases hp : Fits (query ++ p)
    · have happ : appendStr query p = .ok (query ++ p) := newSprintf_eq_ok_iff.mpr ⟨hp, rfl⟩
      rw [happ]
      exact ih hp
    · have happ : appendStr query p = .error .queryBuffer := if_neg hp
      rw [happ]
      exact ⟨nofun, fun hq => absurd hq.1.of_append hp⟩

/-- Going on after a sequence of `APPEND_STR`s: all of the text has to fit. -/
theorem appendStr_then_eq_ok_iff {query text q : Bytes} {f : Bytes → Except Overflow Bytes} (h : Fits query)
    (pieces : List Bytes)
    (hf : Fits (query ++ pieces.flatten) → (f (query ++ pieces.flatten) = .ok q ↔
      Fits (query ++ pieces.flatten ++ text) ∧ q = query ++ pieces.flatten ++ text)) :
    (match pieces.foldlM appendStr query with
      | .error e => Except.error e
      | .ok query => f query) = .ok q ↔ Fits (query ++ pieces.flatten ++ text) ∧ q =
        query ++ pieces.flatten ++ text := by
  have hpieces := foldlM_appendStr_eq_ok_iff h pieces
  cases hfold : pieces.foldlM appendStr query with
  | error _ =>
    refine iff_of_false nofun fun hq => ?_
    rw [(hpieces _).mpr ⟨hq.1.of_append, rfl⟩] at hfold
    cases hfold
  | ok query' =>
    obtain ⟨hfit, rfl⟩ := (hpieces _).mp hfold
    exact hf hfit

/-- A number that is not negative is printed by its digits, -/
theorem ltostr_natCast (n : ℕ) : ltostr n = decimal n := by
  have hdigit : ∀ d < 10, UInt8.ofNat (Nat.digitChar d).toNat = UInt8.ofNat (48 + d) := by decide
  have htext (n : ℕ) : ltostr n = (Nat.toDigits 10 n).map fun c => UInt8.ofNat c.toNat :=
    congrArg (map fun c : Char => UInt8.ofNat c.toNat) String.toList_ofList
  induction n using decimal.induct with
  | case1 n h => rw [htext, Nat.toDigits_of_lt_base h, decimal_of_lt h, map_singleton, hdigit n h]
  | case2 n h ih =>
    have hstep : decimal n = decimal (n / 10) ++ [UInt8.ofNat (48 + n % 10)] := by rw [decimal, if_neg h]
    rw [htext, Nat.toDigits_of_base_le (by decide) (Nat.le_of_not_lt h), map_append, ← htext, ih, hstep,
      map_singleton, hdigit _ (Nat.mod_lt n (by decide))]

/-- and a negative one by a minus and the digits. -/
theorem ltostr_negSucc (n : ℕ) : ltostr (Int.negSucc n) = 45 :: decimal (n + 1) := by
  have htext : (toString (Int.negSucc n)).toList = '-' :: (toString ((n + 1 : ℕ) : ℤ)).toList := String.toList_append
  rw [← ltostr_natCast, ltostr, ascii, htext]
  rfl

/-- The characters `%ld` prints. -/
theorem mem_ltostr {n : ℤ} {c : UInt8} (hc : c ∈ ltostr n) : c = 45 ∨ 48 ≤ c.toNat ∧ c.toNat ≤ 57 := by
  have hdigits (m : ℕ) (h : c ∈ decimal m) : 48 ≤ c.toNat ∧ c.toNat ≤ 57 :=
    (isDecimal_iff c).mp (isDecimal_of_mem_decimal h)
  cases n with
  | ofNat m =>
    rw [Int.ofNat_eq_natCast, ltostr_natCast] at hc
    exact .inr (hdigits m hc)
  | negSucc m =>
    rw [ltostr_negSucc] at hc
    rcases mem_cons.mp hc with rfl | hc
    · exact .inl rfl
    · exact .inr (hdigits _ hc)

/-- An `int` is printed in at most eleven characters. -/
theorem length_ltostr_int32 (n : Int32) : (ltostr n.toInt).length ≤ 11 := by
  have hlo := n.le_toInt
  have hhi := n.toInt_lt
  cases hn : n.toInt with
  | ofNat m =>
    rw [hn, Int.ofNat_eq_natCast] at hhi
    rw [Int.ofNat_eq_natCast, ltostr_natCast]
    have := length_decimal_le (n := m) (k := 9) (by omega)
    omega
  | negSucc m =>
    rw [hn] at hlo
    rw [ltostr_negSucc, length_cons]
    have := length_decimal_le (n := m + 1) (k := 9) (by omega)
    omega

/-- Different numbers are printed differently. -/
theorem ltostr_injective : Function.Injective ltostr := by
  have hdecimal : Function.Injective decimal := fun m n h => by
    rw [← decimalValue_decimal m, h, decimalValue_decimal]
  have hminus (m n : ℕ) : decimal m ≠ 45 :: decimal n := by
    intro h
    have hdigits := all_isDecimal_decimal m
    rw [h, all_cons] at hdigits
    simp [isDecimal] at hdigits
  intro m n h
  cases m with
  | ofNat m =>
    cases n with
    | ofNat n =>
      rw [Int.ofNat_eq_natCast, Int.ofNat_eq_natCast, ltostr_natCast, ltostr_natCast] at h
      rw [hdecimal h]
    | negSucc n =>
      rw [Int.ofNat_eq_natCast, ltostr_natCast, ltostr_negSucc] at h
      exact absurd h (hminus m _)
  | negSucc m =>
    cases n with
    | ofNat n =>
      rw [Int.ofNat_eq_natCast, ltostr_natCast, ltostr_negSucc] at h
      exact absurd h.symm (hminus n _)
    | negSucc n =>
      rw [ltostr_negSucc, ltostr_negSucc] at h
      have := hdecimal (List.cons.inj h).2
      rw [Nat.succ.inj this]

end PhpSandbox.Sandbox
