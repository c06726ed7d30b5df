import PhpSandbox.Lib.OrderedMap
import PhpSandbox.Zend.HashEntries

/-!
# Ordered tables

What a hash table is for: a map that keeps its keys in the order in which they came, knows the index for the next
element, and has a current element.

## The model

The elements are a list of keys and data. No key is there twice, and the index for the next element is above every
index that is there, unless it is `LONG_MAX`; these are fields, so that every operation keeps them. The current
element is given by the number of elements before it, which is that of all elements if there is none: an element
that is put at the end is the current one then.
-/

namespace PhpSandbox.Zend

open Lib List

variable {V : Type}

/-- The index for the next element, after a key. -/
def nextAfter (next : ℤ) : ArrayKey → ℤ
  | .index n => if next ≤ n then min (n + 1) longMax else next
  | .name _ => next

theorem le_nextAfter {next : ℤ} (h : next ≤ longMax) (k : ArrayKey) : next ≤ nextAfter next k := by
  cases k with
  | index n =>
    rw [nextAfter]
    split_ifs <;> omega
  | name s => exact le_refl _

theorem nextAfter_le {next : ℤ} (h : next ≤ longMax) (k : ArrayKey) : nextAfter next k ≤ longMax := by
  cases k with
  | index n =>
    rw [nextAfter]
    split_ifs <;> omega
  | name s => exact h

theorem lt_nextAfter (next n : ℤ) : n < nextAfter next (.index n) ∨ nextAfter next (.index n) = longMax := by
  rw [nextAfter]
  split_ifs <;> omega

/-- An ordered table. -/
structure OrderedTable (V : Type) where
  /-- The elements. -/
  entries : List (ArrayKey × V)
  /-- The index for the next one. -/
  next : ℤ
  /-- How many are before the current one. -/
  cursor : ℕ
  /-- No key is there twice. -/
  nodup : (entries.map Prod.fst).Nodup
  /-- Indices below 0 do not count for the next one. -/
  next_nonneg : 0 ≤ next
  /-- It is one. -/
  next_le : next ≤ longMax
  /-- It is above those that are there. -/
  free : ∀ n, .index n ∈ entries.map Prod.fst → n < next ∨ next = longMax
  /-- There is a current element, or none. -/
  cursor_le : cursor ≤ entries.length

namespace OrderedTable

variable (m : OrderedTable V)

/-- The keys. -/
def keys : List ArrayKey := m.entries.map Prod.fst

/-- An index that is there after a key is above the next one, or that is `LONG_MAX`. -/
theorem free_nextAfter {n : ℤ} {k : ArrayKey} (h : .index n ∈ m.keys ∨ .index n = k) :
    n < nextAfter m.next k ∨ nextAfter m.next k = longMax := by
  rcases h with h | rfl
  · have hle := le_nextAfter m.next_le k
    have hle' := nextAfter_le m.next_le k
    rcases m.free n h with h | h
    · exact .inl (h.trans_le hle)
    · exact .inr (le_antisymm hle' (h ▸ hle))
  · exact lt_nextAfter _ _

/-- The empty table. -/
def empty (V : Type) : OrderedTable V where
  entries := []
  next := 0
  cursor := 0
  nodup := nodup_nil
  next_nonneg := le_refl _
  next_le := by decide
  free := by simp
  cursor_le := le_rfl

/-- A key gets data: in its place if it is there, and at the end if not. -/
def put (k : ArrayKey) (v : V) : OrderedTable V where
  entries := update m.entries k v
  next := if k ∈ m.keys then m.next else nextAfter m.next k
  cursor := m.cursor
  nodup := nodup_keys_update m.nodup k v
  next_nonneg := by
    split_ifs
    · exact m.next_nonneg
    · exact m.next_nonneg.trans (le_nextAfter m.next_le k)
  next_le := by
    split_ifs
    · exact m.next_le
    · exact nextAfter_le m.next_le k
  free := by
    intro n hn
    rw [keys_update] at hn
    by_cases hk : k ∈ m.keys
    · rw [if_pos hk]
      exact m.free n (by rwa [if_pos (show k ∈ m.entries.map Prod.fst from hk)] at hn)
    · rw [if_neg hk]
      rw [if_neg (show k ∉ m.entries.map Prod.fst from hk), mem_append, mem_singleton] at hn
      exact m.free_nextAfter hn
  cursor_le := by
    have hlen := congrArg List.length (keys_update m.entries k v)
    rw [length_map] at hlen
    have hle := m.cursor_le
    rw [hlen]
    split_ifs
    · rwa [length_map]
    · rw [length_append, length_map]
      omega

theorem shift_le_length_eraseIdx {l : List (ArrayKey × V)} {i : ℕ} (h : i ≤ l.length) (j : ℕ) :
    shift j i ≤ (l.eraseIdx j).length := by
  rw [shift, length_eraseIdx]
  split_ifs <;> omega

/-- An element is taken out; if it is the current one, the one after it is that now. -/
def removeAt (j : ℕ) : OrderedTable V where
  entries := m.entries.eraseIdx j
  next := m.next
  cursor := shift j m.cursor
  nodup := m.nodup.sublist ((eraseIdx_sublist m.entries j).map Prod.fst)
  next_nonneg := m.next_nonneg
  next_le := m.next_le
  free := fun n hn => m.free n (((eraseIdx_sublist m.entries j).map Prod.fst).subset hn)
  cursor_le := shift_le_length_eraseIdx m.cursor_le j

/-- An element gets another key, if no other has it. -/
def replaceAt (i : ℕ) (e : ArrayKey × V) : OrderedTable V :=
  if h : e.1 ∈ m.keys then m
  else
    { entries := m.entries.set i e
      next := nextAfter m.next e.1
      cursor := m.cursor
      nodup := by
        rw [map_set]
        exact m.nodup.set h
      next_nonneg := m.next_nonneg.trans (le_nextAfter m.next_le e.1)
      next_le := nextAfter_le m.next_le e.1
      free := by
        intro n hn
        rw [map_set] at hn
        exact m.free_nextAfter (mem_or_eq_of_mem_set hn)
      cursor_le := by
        rw [length_set]
        exact m.cursor_le }

/-- The current element is another one. -/
def seek (i : ℕ) : OrderedTable V :=
  { m with
    cursor := min i m.entries.length
    cursor_le := Nat.min_le_right _ _ }

/-- The key of an element is changed: `mode` says whether the element itself is taken out if another has the key, and
otherwise that one is. -/
def rename (k : ArrayKey) (mode : UpdateMode) (i : ℕ) : Bool × OrderedTable V :=
  match m.entries[i]? with
  | none => (false, m)
  | some (c, v) =>
    if c = k then (true, m)
    else if k ∈ m.keys then
      let j := m.keys.idxOf k
      if mode.deletesCurrent (j < i) then (false, m.removeAt i)
      else (true, (m.removeAt j).replaceAt (shift j i) (k, v))
    else (true, m.replaceAt i (k, v))

end OrderedTable

/-! ### Operations -/

/-- The operations. -/
inductive HashOp (V : Type) where
  /-- `zend_hash_add`. -/
  | add (arKey : Str) (pData : V)
  /-- `zend_hash_update`. -/
  | update (arKey : Str) (pData : V)
  /-- `zend_hash_index_update`. -/
  | indexUpdate (h : UInt64) (pData : V)
  /-- `zend_hash_next_index_insert`. -/
  | nextIndexInsert (pData : V)
  /-- `zend_hash_del`. -/
  | del (arKey : Bytes)
  /-- `zend_hash_index_del`. -/
  | indexDel (h : UInt64)
  /-- `zend_hash_clean`. -/
  | clean
  /-- `zend_hash_update_current_key_ex`, where `*pos` is so many steps from the first element. -/
  | updateCurrentKeyEx (key : KeyArg) (mode : UpdateMode) (pos : Option ℕ)
  /-- `zend_hash_internal_pointer_reset`. -/
  | internalPointerReset
  /-- `zend_hash_move_forward`. -/
  | moveForward
  /-- `zend_hash_move_backwards`. -/
  | moveBackwards

variable (m : OrderedTable V)

/-- A key is taken out. -/
def OrderedTable.remove (k : ArrayKey) : Bool × OrderedTable V :=
  if k ∈ m.keys then (true, m.removeAt (m.keys.idxOf k)) else (false, m)

/-- A key that is not there is put there. -/
def OrderedTable.putNew (k : ArrayKey) (v : V) : Bool × OrderedTable V :=
  if k ∈ m.keys then (false, m) else (true, m.put k v)

/-- What an operation is for. -/
def OrderedTable.step : HashOp V → Bool × OrderedTable V
  | .add arKey pData => m.putNew (.name arKey.val) pData
  | .update arKey pData => (true, m.put (.name arKey.val) pData)
  | .indexUpdate h pData => (true, m.put (.index (asLong h)) pData)
  | .nextIndexInsert pData => m.putNew (.index m.next) pData
  | .del arKey => m.remove (.name arKey)
  | .indexDel h => m.remove (.index (asLong h))
  | .clean => (true, .empty V)
  | .updateCurrentKeyEx key mode pos =>
    match key.key with
    | none => (false, m)
    | some k => m.rename k mode (pos.getD m.cursor)
  | .internalPointerReset => (true, m.seek 0)
  | .moveForward => if m.cursor < m.entries.length then (true, m.seek (m.cursor + 1)) else (false, m)
  | .moveBackwards =>
    if m.cursor < m.entries.length then
      (true, m.seek (if m.cursor = 0 then m.entries.length else m.cursor - 1))
    else (false, m)

end PhpSandbox.Zend
