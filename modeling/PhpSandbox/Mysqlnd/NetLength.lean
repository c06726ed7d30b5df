import PhpSandbox.Lib.CString
import Mathlib.Algebra.Group.Basic

/-!
# Length-encoded integers of the MySQL protocol

`php_mysqlnd_net_store_length` of `ext/mysqlnd/mysqlnd_wireprotocol.c` writes a number in one, three, four or nine
bytes; `php_mysqlnd_net_field_length` and `php_mysqlnd_net_field_length_ll` read it. The first of the two readers
takes four of the eight bytes of the last form.

## Main results

* `netFieldLength_store_iff`: the second reader returns every number, the first one just those below `2 ^ 32`.
-/

namespace PhpSandbox.Mysqlnd

open Lib

/-! ### Little-endian numbers -/

/-- `intNstore`: the lowest `k` bytes of a number. -/
def intStore : ℕ → ℕ → Bytes
  | 0, _ => []
  | k + 1, a => UInt8.ofNat a :: intStore k (a / 256)

/-- `uintNkorr`: the number in the first `k` bytes. -/
def uintKorr : ℕ → Bytes → ℕ
  | 0, _ => 0
  | k + 1, p => (p.headD 0).toNat + 256 * uintKorr k p.tail

@[simp] theorem length_intStore (k a : ℕ) : (intStore k a).length = k := by
  induction k generalizing a with
  | zero => rfl
  | succ k ih => simp [intStore, ih]

theorem uintKorr_intStore {k m a : ℕ} (hk : k ≤ m) (rest : Bytes) :
    uintKorr k (intStore m a ++ rest) = a % 256 ^ k := by
  induction k generalizing m a with
  | zero => simp [uintKorr, Nat.mod_one]
  | succ k ih =>
    obtain ⟨m, rfl⟩ := Nat.exists_eq_succ_of_ne_zero (Nat.ne_of_gt (Nat.lt_of_lt_of_le (Nat.succ_pos k) hk))
    have htail := ih (Nat.le_of_succ_le_succ hk) (a := a / 256)
    rw [pow_succ', Nat.mod_mul, ← htail]
    simp [intStore, uintKorr]

/-! ### The four functions -/

/-- `MYSQLND_NULL_LENGTH`. -/
def nullLength : ℕ := 2 ^ 64 - 1

/-- What the two readers share: the number, by how much the cursor moves, and how the last form is read. -/
def fieldLength (last : Bytes → ℕ) (packet : Bytes) : ℕ × ℕ :=
  let p := packet.headD 0
  if p < 251 then (p.toNat, 1)
  else if p = 251 then (nullLength, 1)
  else if p = 252 then (uintKorr 2 packet.tail, 3)
  else if p = 253 then (uintKorr 3 packet.tail, 4)
  else (last packet.tail, 9)

/-- `php_mysqlnd_net_field_length`. -/
def netFieldLength : Bytes → ℕ × ℕ := fieldLength (uintKorr 4)

/-- `php_mysqlnd_net_field_length_ll`. -/
def netFieldLengthLl : Bytes → ℕ × ℕ := fieldLength (uintKorr 8)

/-- `php_mysqlnd_net_store_length`: what is written. -/
def netStoreLength (length : UInt64) : Bytes :=
  let a := length.toNat
  if a < 251 then [UInt8.ofNat a]
  else if a < 65536 then 252 :: intStore 2 a
  else if a < 16777216 then 253 :: intStore 3 a
  else 254 :: intStore 8 a

/-- `php_mysqlnd_net_store_length_size`. -/
def netStoreLengthSize (length : UInt64) : ℕ :=
  let a := length.toNat
  if a < 251 then 1 else if a < 65536 then 3 else if a < 16777216 then 4 else 9

theorem length_netStoreLength (n : UInt64) : (netStoreLength n).length = netStoreLengthSize n := by
  simp only [netStoreLength, netStoreLengthSize]
  split_ifs <;> simp

/-- A reader returns the number modulo what its last form holds. -/
theorem fieldLength_store {k : ℕ} (hk : 4 ≤ k) (hk8 : k ≤ 8) (n : UInt64) (rest : Bytes) :
    fieldLength (uintKorr k) (netStoreLength n ++ rest) = (n.toNat % 256 ^ k, netStoreLengthSize n) := by
  have hpow : 256 ^ 4 ≤ 256 ^ k := Nat.pow_le_pow_right (by decide) hk
  simp only [netStoreLength, netStoreLengthSize]
  split_ifs with h₁ h₂ h₃
  · have hfirst : UInt8.ofNat n.toNat < 251 := by
      rw [UInt8.lt_iff_toNat_lt, UInt8.toNat_ofNat', Nat.mod_eq_of_lt (by omega)]
      exact h₁
    simp only [fieldLength, List.cons_append, List.headD_cons, if_pos hfirst, UInt8.toNat_ofNat']
    rw [Nat.mod_eq_of_lt (by omega), Nat.mod_eq_of_lt (by omega)]
  · change (uintKorr 2 (intStore 2 n.toNat ++ rest), 3) = _
    rw [uintKorr_intStore le_rfl, Nat.mod_eq_of_lt (by omega), Nat.mod_eq_of_lt (by omega)]
  · change (uintKorr 3 (intStore 3 n.toNat ++ rest), 4) = _
    rw [uintKorr_intStore le_rfl, Nat.mod_eq_of_lt (by omega), Nat.mod_eq_of_lt (by omega)]
  · change (uintKorr k (intStore 8 n.toNat ++ rest), 9) = _
    rw [uintKorr_intStore hk8]

theorem netFieldLength_store_iff (n : UInt64) (rest : Bytes) :
    (netStoreLength n).length = netStoreLengthSize n ∧
      netFieldLengthLl (netStoreLength n ++ rest) = (n.toNat, netStoreLengthSize n) ∧
        (netFieldLength (netStoreLength n ++ rest) = (n.toNat, netStoreLengthSize n) ↔ n.toNat < 2 ^ 32) := by
  refine ⟨length_netStoreLength n, ?_, ?_⟩
  · rw [netFieldLengthLl, fieldLength_store (by decide) le_rfl]
    exact congrArg (·, _) (Nat.mod_eq_of_lt n.toNat_lt)
  · rw [netFieldLength, fieldLength_store le_rfl (by decide), Prod.mk.injEq, and_iff_left rfl]
    exact ⟨fun h => h ▸ Nat.mod_lt _ (by decide), Nat.mod_eq_of_lt⟩

/-- The number `2 ^ 32` is read as 0. -/
theorem netFieldLength_store_large :
    netFieldLength (netStoreLength 4294967296) = (0, 9) ∧
      netFieldLengthLl (netStoreLength 4294967296) = (4294967296, 9) := by
  decide

end PhpSandbox.Mysqlnd
