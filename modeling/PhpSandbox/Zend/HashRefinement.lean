import PhpSandbox.Zend.OrderedTable

/-!
# Hash tables are ordered tables

Every run of operations of a hash table, from an empty one, does what the operations of an ordered table do.

## The model

`HashTable.step` is an operation of the table in memory, `OrderedTable.step` what it is for. `Valid t xs m`: the
buckets `xs` of `t` hold the elements of `m` in order, are in their chains, and the counters fit.

## What is proved

Each operation keeps `Valid` (`step_does`), so every run does (`run_valid`): no loop goes on for ever and no bucket
is used after it was freed. The number of elements is a `uint`: it is right just when there are less than `2 ^ 32`
(`run_refines_iff`).
-/

namespace PhpSandbox.Zend

open Lib KeyArg List Option

variable {V : Type}

namespace HashTable

/-! ### Runs -/

/-- `zend_hash_internal_pointer_reset_ex`, and so many times `zend_hash_move_forward_ex`. -/
def position (t : HashTable V) : ℕ → Option Ptr
  | 0 => t.pListHead
  | n + 1 => (t.position n).bind t.pListNext

/-- An operation; those that return nothing succeed. -/
def step (t : HashTable V) : HashOp V → Option (Bool × HashTable V)
  | .add arKey pData => t.zendHashAddOrUpdate arKey pData .add
  | .update arKey pData => t.zendHashAddOrUpdate arKey pData .update
  | .indexUpdate h pData => t.zendHashIndexUpdateOrNextInsert h pData .update
  | .nextIndexInsert pData => t.zendHashIndexUpdateOrNextInsert 0 pData .nextInsert
  | .del arKey => t.zendHashDel arKey
  | .indexDel h => t.zendHashIndexDel h
  | .clean => t.zendHashClean.map (true, ·)
  | .updateCurrentKeyEx key mode pos =>
    (t.zendHashUpdateCurrentKeyEx key mode (pos.map t.position)).map fun r => (r.1, r.2.1)
  | .internalPointerReset => some (true, t.zendHashInternalPointerReset)
  | .moveForward => some t.zendHashMoveForward
  | .moveBackwards => some t.zendHashMoveBackwards

/-- A run of operations: what they return, and the table. -/
def run : HashTable V → List (HashOp V) → Option (List Bool × HashTable V)
  | t, [] => some ([], t)
  | t, op :: ops =>
    match t.step op with
    | none => none
    | some (r, t) => (run t ops).map fun rs => (r :: rs.1, rs.2)

end HashTable

/-- What a run is for. -/
def OrderedTable.run : OrderedTable V → List (HashOp V) → List Bool × OrderedTable V
  | m, [] => ([], m)
  | m, op :: ops =>
    let (r, m) := m.step op
    let (rs, m) := run m ops
    (r :: rs, m)

open OrderedTable

namespace HashTable

variable {t t' : HashTable V} {xs : List Ptr} {m : OrderedTable V} {p : Ptr} {b : Bucket V} {key : KeyArg}
  {k : ArrayKey} {v : V}

/-- The table in memory is an ordered table. -/
structure Valid (t : HashTable V) (xs : List Ptr) (m : OrderedTable V) : Prop where
  holds : t.Holds xs m.entries
  pointer : t.pInternalPointer = xs[m.cursor]?
  next : asLong t.nNextFreeElement = m.next
  /-- The elements are counted, in a `uint`. -/
  count : t.nNumOfElements = m.entries.length % 2 ^ 32
  size : 2 ≤ t.nTableSize
  /-- The slots are there if there is an element. -/
  mask : t.nTableMask = 0 ∧ xs = [] ∨ t.nTableMask = t.nTableSize - 1

/-! ### The index for the next element -/

theorem asLong_zero : asLong 0 = 0 := by decide

theorem asLong_takeKey (hk : key.key = some k) (h : 0 ≤ asLong t.nNextFreeElement) :
    asLong (t.takeKey key).nNextFreeElement = nextAfter (asLong t.nNextFreeElement) k := by
  cases key with
  | string s =>
    cases hk
    rfl
  | nonExistent => cases hk
  | long numIndex =>
    cases hk
    simp only [takeKey, takeIndex, nextAfter]
    by_cases hle : asLong t.nNextFreeElement ≤ asLong numIndex
    · rw [if_pos hle, if_pos hle]
      -- the index is not negative, so that it is below `2 ^ 63` as `ulong`
      have hpos : 0 ≤ asLong numIndex := h.trans hle
      have hlt := numIndex.toNat_lt
      have hmax : ulongMax.toNat = 2 ^ 63 - 1 := rfl
      rw [asLong_eq] at hpos ⊢
      rw [asLong_eq numIndex]
      by_cases hnum : numIndex < ulongMax
      · have hnat : numIndex.toNat < 2 ^ 63 - 1 := hmax ▸ UInt64.lt_iff_toNat_lt.mp hnum
        have hsucc : (numIndex + 1).toNat = numIndex.toNat + 1 := by
          rw [UInt64.toNat_add]
          show (numIndex.toNat + 1) % 2 ^ 64 = _
          omega
        simp only [if_pos hnum, hsucc, longMax]
        split_ifs <;> omega
      · have hnat : ¬ numIndex.toNat < 2 ^ 63 - 1 := fun hlt => hnum (UInt64.lt_iff_toNat_lt.mpr (hmax ▸ hlt))
        simp only [if_neg hnum, hmax, longMax]
        split_ifs at hpos ⊢ <;> omega
    · rw [if_neg hle, if_neg hle]

/-! ### The parts of the operations -/

section

variable (h : t.Valid xs m)

include h

theorem Valid.mask_of_pos (hne : xs ≠ []) : t.nTableMask = t.nTableSize - 1 := by
  rcases h.mask with ⟨-, hnil⟩ | hmask
  · exact absurd hnil hne
  · exact hmask

theorem Valid.eq_nil (hmask : t.nTableMask = 0) : xs = [] := by
  rcases h.mask with ⟨-, hnil⟩ | hmask'
  · exact hnil
  · have := h.size
    omega

theorem Valid.length : xs.length = m.entries.length := h.holds.length

theorem Valid.checkInit : t.checkInit.Valid xs m ∧ t.checkInit.nTableMask = t.checkInit.nTableSize - 1 := by
  have hempty (hmask : t.nTableMask = 0) : {p | p ∈ xs} = ∅ := by simp [h.eq_nil hmask]
  have hchains := checkInit_inChains h.holds.chains hempty
  have hlisted : t.checkInit.Listed xs m.entries := by
    unfold HashTable.checkInit
    split_ifs
    · exact h.holds.toListed.congr rfl rfl rfl rfl (fun _ _ => rfl) le_rfl
    · exact h.holds.toListed
  have hmask : t.checkInit.nTableMask = t.checkInit.nTableSize - 1 := by
    unfold HashTable.checkInit
    split_ifs with h0
    · rfl
    · exact h.mask.resolve_left fun hnil => h0 hnil.1
  obtain ⟨hptr, hnext, hcount, hsize⟩ : t.checkInit.pInternalPointer = t.pInternalPointer ∧
      t.checkInit.nNextFreeElement = t.nNextFreeElement ∧ t.checkInit.nNumOfElements = t.nNumOfElements ∧
      t.checkInit.nTableSize = t.nTableSize := by
    unfold HashTable.checkInit
    split_ifs <;> exact ⟨rfl, rfl, rfl, rfl⟩
  exact ⟨⟨⟨hlisted, hchains⟩, hptr.trans h.pointer, hnext ▸ h.next, hcount.trans h.count, hsize ▸ h.size, .inr hmask⟩,
    hmask⟩

end

theorem idxOf_eq {j : ℕ} (hj : m.entries[j]? = some (k, v)) : m.keys.idxOf k = j := by
  have hkey : m.keys[j]? = some k := by
    rw [OrderedTable.keys, getElem?_map, hj]
    rfl
  obtain ⟨hlt, rfl⟩ := List.getElem?_eq_some_iff.mp hkey
  exact m.nodup.idxOf_getElem j hlt

theorem mem_keys {j : ℕ} (hj : m.entries[j]? = some (k, v)) : k ∈ m.keys :=
  mem_map_of_mem (mem_of_getElem? hj)

section

variable (h : t.Valid xs m)

include h

/-- **Data is written.** -/
theorem Valid.updateData {j : ℕ} (hp : xs[j]? = some p) (hj : m.entries[j]? = some (k, v)) (v' : V) :
    (t.updateData p v').Valid xs (m.put k v') := by
  obtain ⟨xs₁, xs₂, es₁, es₂, b, rfl, hes, hx, he, hb⟩ := h.holds.split hp
  have hentry : b.entry = (k, v) := by
    rw [hes, ← he, getElem?_middle] at hj
    exact some.inj hj
  rw [hentry] at hes
  have hnew : k ∉ es₁.map Prod.fst := by
    have hnodup := m.nodup
    rw [hes, map_append, map_cons] at hnodup
    exact fun hmem => (nodup_append'.mp hnodup).2.2 hmem mem_cons_self
  have hupdate : update m.entries k v' = es₁ ++ (k, v') :: es₂ := by
    rw [hes]
    exact update_middle hnew v v'
  have hholds := h.holds
  rw [hes] at hholds
  refine ⟨?_, h.pointer, ?_, ?_, h.size, h.mask⟩
  · show HashTable.Holds _ _ (update m.entries k v')
    rw [hupdate]
    exact hholds.updateData (hx.trans he.symm) v'
  · show _ = if k ∈ m.keys then m.next else _
    rw [if_pos (mem_keys hj)]
    exact h.next
  · show _ = (update m.entries k v').length % 2 ^ 32
    rw [hupdate]
    refine h.count.trans ?_
    rw [hes, length_append, length_append, length_cons, length_cons]

/-- **A new element is put at the end**, and the table grows if it has to. -/
theorem Valid.insert (hmask : t.nTableMask = t.nTableSize - 1) (hk : key.key = some k) (hnew : k ∉ m.keys) (v : V) :
    ∃ t' xs', ((t.newBucket ⟨key.h, key.strIndex, v⟩).takeKey key).countAndResize = some t' ∧
      t'.Valid xs' (m.put k v) := by
  have hbucket : (⟨key.h, key.strIndex, v⟩ : Bucket V) = Bucket.withKey key ⟨0, none, v⟩ := by
    cases key with
    | string s | long numIndex => rfl
    | nonExistent => cases hk
  obtain ⟨hok, hentry⟩ := withKey_entry (b := ⟨0, none, v⟩) hk fun _ => rfl
  rw [← hbucket] at hok hentry
  generalize (⟨key.h, key.strIndex, v⟩ : Bucket V) = b at hok hentry ⊢
  have hholds := h.holds.newBucket hok
  rw [hentry] at hholds
  -- what the new bucket leaves as it was
  have hsame : (t.newBucket b).nTableMask = t.nTableMask ∧ (t.newBucket b).nTableSize = t.nTableSize ∧
      (t.newBucket b).nNumOfElements = t.nNumOfElements ∧
      (t.newBucket b).nNextFreeElement = t.nNextFreeElement := by
    simp only [HashTable.newBucket, connectToGlobalDllist]
    split_ifs <;> exact ⟨rfl, rfl, rfl, rfl⟩
  have hptr : (t.newBucket b).pInternalPointer = (xs ++ [t.brk])[m.cursor]? := by
    have hcur : ((t.pemalloc b).2.connectToBucketDllist t.brk ((t.pemalloc b).2.slot b.h)
        |>.connectToGlobalDllistEx t.brk t.pListTail none).pInternalPointer = xs[m.cursor]? := h.pointer
    by_cases hlt : m.cursor < xs.length
    · have hne : xs[m.cursor]? ≠ none := by
        rw [getElem?_eq_getElem hlt]
        exact some_ne_none _
      rw [getElem?_append_left hlt]
      refine (congrArg HashTable.pInternalPointer (if_neg ?_)).trans hcur
      exact fun heq => hne (hcur.symm.trans heq)
    · have hge : m.cursor = xs.length := Nat.le_antisymm (h.length ▸ m.cursor_le) (Nat.not_lt.mp hlt)
      have hnone : xs[m.cursor]? = none := getElem?_eq_none (Nat.not_lt.mp hlt)
      rw [hge, getElem?_middle]
      exact congrArg HashTable.pInternalPointer (if_pos (hcur.trans hnone))
  obtain ⟨hm, hs, hn, hf⟩ := hsame
  have hup : update m.entries k v = m.entries ++ [(k, v)] := update_of_not_mem hnew v
  rw [takeKey_eq]
  obtain ⟨size, pNext, pLast, arBuckets, hsize, hcount, hchains⟩ :=
    countAndResize_inChains (t := { t.newBucket b with
        nNextFreeElement := ((t.newBucket b).takeKey key).nNextFreeElement })
      (hholds.order.congr rfl rfl rfl rfl) (hholds.chains.congr rfl rfl rfl rfl fun _ _ => rfl)
      hholds.length_le (hm.trans (hmask.trans (by rw [hs]))) (hs ▸ h.size)
  refine ⟨_, xs ++ [t.brk], hcount, ⟨?_, ?_⟩, hptr, ?_, ?_, hsize, .inr rfl⟩
  · show HashTable.Listed _ _ (update m.entries k v)
    rw [hup]
    exact hholds.toListed.congr rfl rfl rfl rfl (fun _ _ => rfl) le_rfl
  · exact hchains.congr rfl rfl rfl rfl fun _ _ => rfl
  · show asLong ((t.newBucket b).takeKey key).nNextFreeElement = if k ∈ m.keys then m.next else nextAfter m.next k
    rw [if_neg hnew, takeKey_congr key hf, asLong_takeKey hk (h.next ▸ m.next_nonneg), h.next]
  · show ((t.newBucket b).nNumOfElements + 1) % 2 ^ 32 = (update m.entries k v).length % 2 ^ 32
    rw [hn, h.count, hup, length_append, length_singleton, Nat.mod_add_mod]

/-- **An element is taken out.** -/
theorem Valid.delete {j : ℕ} (hp : xs[j]? = some p) :
    (t.zendHashBucketDelete p).Valid (xs.eraseIdx j) (m.removeAt j) := by
  obtain ⟨xs₁, xs₂, es₁, es₂, b, rfl, hes, hx, he, hb⟩ := h.holds.split hp
  have hholds := h.holds
  rw [hes] at hholds
  have hdelete := hholds.delete (hx.trans he.symm)
  have hnext : t.pListNext p = xs₂.head? := h.holds.order.linked.links.2
  have herase : m.entries.eraseIdx j = es₁ ++ es₂ := by rw [hes, ← he, eraseIdx_middle]
  have hmask := h.mask_of_pos (by simp)
  subst hx
  rw [eraseIdx_middle]
  refine ⟨?_, ?_, ?_, ?_, ?_, .inr ?_⟩
  · show HashTable.Holds _ _ (m.entries.eraseIdx _)
    rw [herase]
    exact hdelete
  · show (if t.pInternalPointer = some p then t.pListNext p else t.pInternalPointer) = _
    rw [hnext, h.pointer]
    exact (getElem?_shift h.holds.order.nodup m.cursor).symm
  · rw [zendHashBucketDelete]
    exact h.next
  · show (t.nNumOfElements + (2 ^ 32 - 1)) % 2 ^ 32 = (m.entries.eraseIdx _).length % 2 ^ 32
    rw [h.count, herase, hes, length_append, length_append, length_cons]
    omega
  · rw [zendHashBucketDelete]
    exact h.size
  · rw [zendHashBucketDelete]
    exact hmask

/-- **An element gets another key.** -/
theorem Valid.changeKey {i : ℕ} (hp : xs[i]? = some p) (hb : t.bucket p = some b)
    (hk : key.key = some k) (hnew : k ∉ m.keys) :
    ∃ q t', t.changeKey p b key = (q, t') ∧ t'.Valid (xs.set i q) (m.replaceAt i (k, b.pData)) := by
  obtain ⟨xs₁, xs₂, es₁, es₂, b', rfl, hes, hx, he, -⟩ := h.holds.split hp
  have hholds := h.holds
  rw [hes] at hholds
  obtain ⟨q, t', heq, hholds', hptr, hnext, hcount, hsize, hmask⟩ :=
    hholds.changeKey (hx.trans he.symm) hb hk
  have hset : m.entries.set i (k, b.pData) = es₁ ++ (k, b.pData) :: es₂ := by rw [hes, ← he, set_middle]
  have hreplace : (m.replaceAt i (k, b.pData)).entries = m.entries.set i (k, b.pData) ∧
      (m.replaceAt i (k, b.pData)).next = nextAfter m.next k ∧
      (m.replaceAt i (k, b.pData)).cursor = m.cursor := by
    rw [replaceAt, dif_neg hnew]
    exact ⟨rfl, rfl, rfl⟩
  obtain ⟨hentries, hn, hc⟩ := hreplace
  refine ⟨q, t', heq, ?_, ?_, ?_, ?_, hsize ▸ h.size, .inr ?_⟩
  · rw [hentries, hset, ← hx, set_middle]
    exact hholds'
  · rw [hc, ← hx, set_middle, hptr, h.pointer]
    exact (getElem?_replaced h.holds.order.nodup m.cursor).symm
  · rw [hn, hnext, asLong_takeKey hk (h.next ▸ m.next_nonneg), h.next]
  · rw [hcount, h.count, hentries, length_set]
  · rw [hmask, hsize]
    exact h.mask_of_pos (by simp)

/-! ### The operations -/

/-- What an operation leaves is what it is for. -/
def Does (r : Option (Bool × HashTable V)) (s : Bool × OrderedTable V) : Prop :=
  ∃ t xs, r = some (s.1, t) ∧ t.Valid xs s.2

/-- An operation that looks for a key, and changes the data of its bucket or makes a new one; with `onlyNew` it leaves a
bucket that is there. -/
theorem does_of_search (hmask : t.nTableMask = t.nTableSize - 1) (hk : key.key = some k) (v : V)
    {onlyNew : Prop} [Decidable onlyNew] {r : Option (Bool × HashTable V)}
    (hfound : ∀ p, t.search key.test key.h = some (some p) → r = if onlyNew then some (false, t) else some
      (true, t.updateData p v))
    (hmissing : t.search key.test key.h = some none → r = ((t.newBucket
      ⟨key.h, key.strIndex, v⟩).takeKey key).countAndResize.map (true, ·)) :
    Does r (if onlyNew then m.putNew k v else (true, m.put k v)) := by
  rcases h.holds.search_cases hk with ⟨j, p, w, hp, hj, hsearch⟩ | ⟨hnew, hsearch⟩
  · rw [hfound p hsearch]
    by_cases hflag : onlyNew
    · rw [if_pos hflag, if_pos hflag, putNew, if_pos (mem_keys hj)]
      exact ⟨_, xs, rfl, h⟩
    · rw [if_neg hflag, if_neg hflag]
      exact ⟨_, xs, rfl, h.updateData hp hj v⟩
  · obtain ⟨t', xs', hins, hvalid⟩ := h.insert hmask hk hnew v
    rw [hmissing hsearch, hins, putNew, if_neg (show k ∉ m.keys from hnew), ite_self]
    exact ⟨t', xs', rfl, hvalid⟩

theorem addOrUpdate_does (arKey : Str) (v : V) (flag : Flag) :
    Does (t.zendHashAddOrUpdate arKey v flag)
      (if flag = .add then m.putNew (.name arKey.val) v else (true, m.put (.name arKey.val) v)) := by
  obtain ⟨hinit, hmask⟩ := h.checkInit
  have hk : (KeyArg.string arKey).key = some (.name arKey.val) := rfl
  refine does_of_search hinit hmask hk v (fun p hp => ?_) fun hp => ?_
  all_goals
    simp only [KeyArg.test, KeyArg.h] at hp
    simp only [zendHashAddOrUpdate, hp, KeyArg.h, KeyArg.strIndex, takeKey]

theorem indexUpdateOrNextInsert_does (n : UInt64) (v : V) (flag : Flag) :
    Does (t.zendHashIndexUpdateOrNextInsert n v flag)
      (if flag = .nextInsert then m.putNew (.index m.next) v
        else if flag = .add then m.putNew (.index (asLong n)) v
        else (true, m.put (.index (asLong n)) v)) := by
  obtain ⟨hinit, hmask⟩ := h.checkInit
  obtain ⟨i, hi⟩ : ∃ i, (if flag = .nextInsert then t.checkInit.nNextFreeElement else n) = i := ⟨_, rfl⟩
  have hk : (KeyArg.long i).key = some (.index (asLong i)) := rfl
  have hdoes : Does (t.zendHashIndexUpdateOrNextInsert n v flag)
      (if flag = .nextInsert ∨ flag = .add then m.putNew (.index (asLong i)) v
        else (true, m.put (.index (asLong i)) v)) := by
    refine does_of_search hinit hmask hk v (fun p hp => ?_) fun hp => ?_
    all_goals
      simp only [KeyArg.test, KeyArg.h] at hp
      simp only [zendHashIndexUpdateOrNextInsert, hi, hp, KeyArg.h, KeyArg.strIndex, takeKey]
  subst hi
  cases flag with
  | nextInsert =>
    rw [if_pos (.inl rfl), if_pos rfl, hinit.next] at hdoes
    rwa [if_pos rfl]
  | add | update => simpa using hdoes

theorem delKeyOrIndex_does (hk : key.key = some k) : Does (t.zendHashDelKeyOrIndex key.test key.h) (m.remove k) := by
  rcases h.holds.search_cases hk with ⟨j, p, w, hp, hj, hsearch⟩ | ⟨hnew, hsearch⟩
  · rw [zendHashDelKeyOrIndex, hsearch, remove, if_pos (mem_keys hj), idxOf_eq hj]
    exact ⟨_, _, rfl, h.delete hp⟩
  · rw [zendHashDelKeyOrIndex, hsearch, remove, if_neg (show k ∉ m.keys from hnew)]
    exact ⟨_, _, rfl, h⟩

end

/-! ### All elements are taken out -/

theorem freeAll_eq {before : Option Ptr} (hxs : Linked t.pListNext t.pListLast before xs none) {n : ℕ}
    (hn : xs.length ≤ n) : ∃ bucket, freeAll n xs.head? t = some { t with bucket } := by
  induction xs generalizing t n before with
  | nil => exact ⟨t.bucket, by cases n <;> rfl⟩
  | cons q xs ih =>
    obtain ⟨n, rfl⟩ := Nat.exists_eq_add_of_le' (Nat.one_le_of_lt (Nat.lt_of_lt_of_le (Nat.succ_pos _) hn))
    obtain ⟨-, hnext, hlinked⟩ := hxs
    rw [or_none] at hnext
    rw [head?_cons, freeAll, hnext]
    obtain ⟨bucket, hfree⟩ := ih (t := { t with bucket := Function.update t.bucket q none }) hlinked
      (Nat.le_of_succ_le_succ hn)
    exact ⟨bucket, hfree⟩

theorem clean_does (h : t.Valid xs m) : Does (t.zendHashClean.map (true, ·)) (true, .empty V) := by
  have hlinked := h.holds.order.linked
  obtain ⟨bucket, hfree⟩ := freeAll_eq (t := { t with
      arBuckets := if t.nTableMask = 0 then t.arBuckets else fun _ => none
      pListHead := none
      pListTail := none
      nNumOfElements := 0
      nNextFreeElement := 0
      pInternalPointer := none }) hlinked h.holds.length_le
  rw [zendHashClean, h.holds.order.head, hfree, map_some]
  refine ⟨_, [], rfl, ⟨⟨⟨trivial, rfl, rfl, nodup_nil⟩, rfl, by simp, by simp⟩, ?_⟩, rfl, asLong_zero,
    (Nat.zero_mod _).symm, h.size, ?_⟩
  · -- there was no slot, or all slots are emptied
    have hempty : {p : Ptr | p ∈ ([] : List Ptr)} = ∅ := by simp
    rw [hempty]
    apply inChains_empty
    intro i
    by_cases hmask : t.nTableMask = 0
    · obtain ⟨c, hc⟩ := h.holds.chains i
      have hc' : c = [] := by
        apply eq_nil_iff_forall_not_mem.mpr
        intro p hp
        have := ((hc.mem_iff p).mp hp).1
        rw [h.eq_nil hmask] at this
        cases this
      rw [if_pos hmask, hc.head, hc']
      rfl
    · rw [if_neg hmask]
  · rcases h.mask with ⟨hmask, -⟩ | hmask
    · exact .inl ⟨hmask, rfl⟩
    · exact .inr hmask

/-! ### Positions -/

theorem position_eq (h : t.InOrder xs) (n : ℕ) : t.position n = xs[n]? := by
  induction n with
  | zero => rw [position, h.head, head?_eq_getElem?]
  | succ n ih =>
    rw [position, ih]
    cases hp : xs[n]? with
    | none =>
      rw [getElem?_eq_none_iff] at hp
      exact (getElem?_eq_none (Nat.le_succ_of_le hp)).symm
    | some p => exact h.linked.next_eq hp

section

variable (h : t.Valid xs m)

include h

/-- Another element is the current one. -/
theorem Valid.seek {i : ℕ} {ptr : Option Ptr} (hptr : ptr = xs[i]?) :
    Valid { t with pInternalPointer := ptr } xs (m.seek i) := by
  refine ⟨⟨?_, ?_⟩, ?_, h.next, h.count, h.size, h.mask⟩
  · exact h.holds.toListed.congr rfl rfl rfl rfl (fun _ _ => rfl) le_rfl
  · exact h.holds.chains.congr rfl rfl rfl rfl fun _ _ => rfl
  · show ptr = xs[min i m.entries.length]?
    rw [hptr, ← h.length]
    by_cases hi : i ≤ xs.length
    · rw [Nat.min_eq_left hi]
    · rw [getElem?_eq_none (Nat.le_of_not_le hi), Nat.min_eq_right (Nat.le_of_not_le hi),
        getElem?_eq_none le_rfl]

theorem Valid.pointer_isSome (hlt : m.cursor < m.entries.length) :
    ∃ p, t.pInternalPointer = some p ∧ xs[m.cursor]? = some p := by
  have hp := getElem?_eq_getElem (h.length ▸ hlt)
  exact ⟨_, h.pointer.trans hp, hp⟩

theorem Valid.pointer_eq_none (hlt : ¬ m.cursor < m.entries.length) : t.pInternalPointer = none := by
  rw [h.pointer]
  exact getElem?_eq_none (h.length ▸ Nat.not_lt.mp hlt)

theorem moveForward_does : Does (some t.zendHashMoveForward)
    (if m.cursor < m.entries.length then (true, m.seek (m.cursor + 1)) else (false, m)) := by
  split_ifs with hlt
  · obtain ⟨p, hptr, hp⟩ := h.pointer_isSome hlt
    rw [zendHashMoveForward, hptr]
    exact ⟨_, xs, rfl, h.seek (h.holds.order.linked.next_eq hp)⟩
  · rw [zendHashMoveForward, h.pointer_eq_none hlt]
    exact ⟨_, xs, rfl, h⟩

theorem moveBackwards_does : Does (some t.zendHashMoveBackwards)
    (if m.cursor < m.entries.length then
      (true, m.seek (if m.cursor = 0 then m.entries.length else m.cursor - 1))
    else (false, m)) := by
  by_cases hlt : m.cursor < m.entries.length
  · obtain ⟨p, hptr, hp⟩ := h.pointer_isSome hlt
    rw [if_pos hlt, zendHashMoveBackwards, hptr]
    refine ⟨_, xs, rfl, h.seek ((h.holds.order.linked.prev_eq hp).trans ?_)⟩
    split_ifs
    · exact (getElem?_eq_none (h.length ▸ le_rfl)).symm
    · rfl
  · rw [if_neg hlt, zendHashMoveBackwards, h.pointer_eq_none hlt]
    exact ⟨_, xs, rfl, h⟩

end

/-! ### Another key for an element -/

/-- The loop that looks whether a bucket is before another. -/
theorem walk_before {q : Ptr} (h : t.InOrder xs) {i j n : ℕ} (hp : xs[i]? = some p) (hq : xs[j]? = some q)
    (hn : xs.length ≤ n) :
    ∃ r, walk t.pListLast (fun r => r = q) n (t.pListLast p) = some r ∧ r.isSome = decide (j < i) := by
  obtain ⟨xs₁, xs₂, rfl, rfl⟩ := exists_split_of_getElem? hp
  have hlinked := (linked_append.mp h.linked).1.reverse
  have hle : xs₁.reverse.length ≤ n := by
    rw [length_append] at hn
    rw [length_reverse]
    omega
  have hwalk := hlinked.walk_eq (fun r => r = q) hle
  rw [head?_reverse, ← h.linked.links.1] at hwalk
  refine ⟨_, hwalk, ?_⟩
  rw [Bool.eq_iff_iff, find?_isSome, decide_eq_true_eq]
  constructor
  · rintro ⟨r, hr, heq⟩
    cases of_decide_eq_true heq
    obtain ⟨j', hj'⟩ := getElem?_of_mem (mem_reverse.mp hr)
    have hlt : j' < xs₁.length := (List.getElem?_eq_some_iff.mp hj').1
    have hall : (xs₁ ++ p :: xs₂)[j']? = some q := (getElem?_append_left hlt).trans hj'
    have heq : j = j' := (getElem?_inj (List.getElem?_eq_some_iff.mp hq).1 h.nodup).mp (hq.trans hall.symm)
    exact heq ▸ hlt
  · intro hlt
    rw [getElem?_append_left hlt] at hq
    exact ⟨q, mem_reverse.mpr (mem_of_getElem? hq), by simp⟩

theorem deletesCurrent_of_anyway {mode : UpdateMode} {before : Bool} (h : mode = .anyway) :
    mode.deletesCurrent before = mode.deletesCurrent false := by
  rw [h]
  rfl

/-- A key that is taken out is there no more. -/
theorem not_mem_keys_removeAt {j : ℕ} (hj : m.entries[j]? = some (k, v)) : k ∉ (m.removeAt j).keys := by
  obtain ⟨es₁, es₂, hes, rfl⟩ := exists_split_of_getElem? hj
  have hnodup := m.nodup
  rw [hes, map_append, map_cons] at hnodup
  show k ∉ (m.entries.eraseIdx es₁.length).map Prod.fst
  rw [hes, eraseIdx_middle, map_append]
  exact (nodup_cons.mp (nodup_middle.mp hnodup)).1

/-- **The key of an element is changed.** -/
theorem updateCurrentKeyEx_does (h : t.Valid xs m) (key : KeyArg) (mode : UpdateMode) (pos : Option ℕ) :
    Does ((t.zendHashUpdateCurrentKeyEx key mode (pos.map t.position)).map fun r => (r.1, r.2.1))
      (match key.key with
        | none => (false, m)
        | some k => m.rename k mode (pos.getD m.cursor)) := by
  have hcur : (pos.map t.position).getD t.pInternalPointer = xs[pos.getD m.cursor]? := by
    cases pos with
    | none => exact h.pointer
    | some n => exact position_eq h.holds.order n
  generalize pos.getD m.cursor = i at hcur
  unfold zendHashUpdateCurrentKeyEx
  rw [hcur]
  cases hp : xs[i]? with
  | none =>
    have hnone : m.entries[i]? = none := by
      rw [getElem?_eq_none_iff] at hp ⊢
      exact h.length ▸ hp
    have hsame : (match key.key with
        | none => (false, m)
        | some k => m.rename k mode i) = (false, m) := by
      cases key.key with
      | none => rfl
      | some k => simp only [rename, hnone]
    rw [hsame]
    exact ⟨t, xs, rfl, h⟩
  | some p =>
    obtain ⟨xs₁, xs₂, es₁, es₂, b, -, hes, -, he, hb⟩ := h.holds.split hp
    have hentry : m.entries[i]? = some (b.key, b.pData) := by
      rw [hes, ← he, getElem?_middle]
      rfl
    simp only [hb]
    cases hk : key.key with
    | none =>
      have hkey : key = .nonExistent := by
        cases key with
        | nonExistent => rfl
        | string s | long n => cases hk
      rw [if_pos hkey]
      exact ⟨t, xs, rfl, h⟩
    | some k =>
      have hkey : key ≠ .nonExistent := by
        rintro rfl
        cases hk
      have htest := test_iff hk (h.holds.hash p (mem_of_getElem? hp) b hb)
      rw [if_neg hkey]
      simp only [rename, hentry]
      by_cases hsame : b.key = k
      · rw [if_pos (htest.mpr hsame), if_pos hsame]
        exact ⟨t, xs, rfl, h⟩
      rw [if_neg (fun ht => hsame (htest.mp ht)), if_neg hsame]
      rcases h.holds.search_cases hk with ⟨j, q, w, hq, hj, hsearch⟩ | ⟨hnew, hsearch⟩
      · -- another element has the key
        rw [hsearch, if_pos (mem_keys hj), idxOf_eq hj]
        obtain ⟨r, hr, hdel⟩ : ∃ r, (if mode = .anyway then some none
            else walk t.pListLast (fun r => r = q) t.brk (t.pListLast p)) = some r ∧
            mode.deletesCurrent r.isSome = mode.deletesCurrent (decide (j < i)) := by
          by_cases hmode : mode = .anyway
          · exact ⟨none, if_pos hmode, (deletesCurrent_of_anyway hmode).symm⟩
          · obtain ⟨r, hwalk, hbefore⟩ := walk_before h.holds.order hp hq h.holds.length_le
            exact ⟨r, (if_neg hmode).trans hwalk, by rw [hbefore]⟩
        simp only [hr, hdel]
        by_cases hcond : mode.deletesCurrent (decide (j < i))
        · rw [if_pos hcond, if_pos hcond]
          exact ⟨_, _, rfl, h.delete hp⟩
        rw [if_neg hcond, if_neg hcond]
        have hpq : p ≠ q := by
          rintro rfl
          have hij := (getElem?_inj (List.getElem?_eq_some_iff.mp hp).1 h.holds.order.nodup).mp
            (hp.trans hq.symm)
          rw [hij, hj] at hentry
          cases hentry
          exact hsame rfl
        have hp' : (xs.eraseIdx j)[shift j i]? = some p := by
          obtain ⟨ys₁, ys₂, rfl, rfl⟩ := exists_split_of_getElem? hq
          rw [eraseIdx_middle, getElem?_shift h.holds.order.nodup, hp, if_neg]
          exact fun heq => hpq (some.inj heq)
        have hb' : (t.zendHashBucketDelete q).bucket p = some b :=
          (Function.update_of_ne hpq _ _).trans hb
        obtain ⟨q', t', hchange, hvalid⟩ :=
          (h.delete hq).changeKey hp' hb' hk (not_mem_keys_removeAt hj)
        rw [hchange]
        exact ⟨_, _, rfl, hvalid⟩
      · -- no element has it
        rw [hsearch, if_neg (show k ∉ m.keys from hnew)]
        obtain ⟨q', t', hchange, hvalid⟩ := h.changeKey hp hb hk hnew
        simp only [hchange]
        exact ⟨_, _, rfl, hvalid⟩

/-! ### Every run -/

/-- **Every operation does what it is for.** -/
theorem step_does (h : t.Valid xs m) (op : HashOp V) : Does (t.step op) (m.step op) := by
  cases op with
  | add arKey v => exact addOrUpdate_does h arKey v .add
  | update arKey v => exact addOrUpdate_does h arKey v .update
  | indexUpdate n v => exact indexUpdateOrNextInsert_does h n v .update
  | nextIndexInsert v => exact indexUpdateOrNextInsert_does h 0 v .nextInsert
  | del arKey => exact delKeyOrIndex_does h (show (string ⟨arKey, false⟩).key = some (.name arKey) from rfl)
  | indexDel n => exact delKeyOrIndex_does h (show (long n).key = some (.index (asLong n)) from rfl)
  | clean => exact clean_does h
  | updateCurrentKeyEx key mode pos => exact updateCurrentKeyEx_does h key mode pos
  | internalPointerReset =>
    refine ⟨_, xs, rfl, h.seek ?_⟩
    rw [h.holds.order.head, head?_eq_getElem?]
  | moveForward => exact moveForward_does h
  | moveBackwards => exact moveBackwards_does h

theorem run_valid (h : t.Valid xs m) (ops : List (HashOp V)) :
    ∃ t' xs', t.run ops = some ((m.run ops).1, t') ∧ t'.Valid xs' (m.run ops).2 := by
  induction ops generalizing t xs m with
  | nil => exact ⟨t, xs, rfl, h⟩
  | cons op ops ih =>
    obtain ⟨t₁, xs₁, hstep, hvalid⟩ := step_does h op
    obtain ⟨t', xs', hrun, hvalid'⟩ := ih hvalid
    refine ⟨t', xs', ?_, hvalid'⟩
    rw [run, hstep]
    simp only [hrun, map_some, OrderedTable.run]

theorem le_growTo (nSize n i : ℕ) : i ≤ growTo nSize n i := by
  induction n generalizing i with
  | zero => exact le_rfl
  | succ n ih =>
    rw [growTo]
    split_ifs
    · exact (Nat.le_succ i).trans (ih (i + 1))
    · exact le_rfl

theorem zendHashInit_valid (nSize : ℕ) : (zendHashInit V nSize).Valid [] (.empty V) := by
  refine ⟨⟨⟨⟨trivial, rfl, rfl, nodup_nil⟩, rfl, by simp, by simp⟩, ?_⟩, rfl, asLong_zero,
    (Nat.zero_mod _).symm, ?_, .inl ⟨rfl, rfl⟩⟩
  · have hempty : {p : Ptr | p ∈ ([] : List Ptr)} = ∅ := by simp
    rw [hempty]
    exact inChains_empty fun _ => rfl
  · show 2 ≤ if 0x80000000 ≤ nSize then 0x80000000 else 2 ^ growTo nSize 28 3
    split_ifs
    · omega
    · calc 2 = 2 ^ 1 := rfl
        _ ≤ 2 ^ growTo nSize 28 3 := Nat.pow_le_pow_right (by omega) ((by omega : 1 ≤ 3).trans (le_growTo nSize 28 3))

/-! ### Ordered maps -/

/-- The table is an insertion-ordered map with unique keys, in memory as it has to be. -/
structure Refines (t : HashTable V) (m : OrderedTable V) : Prop where
  /-- A string key is found with its data, or not at all. -/
  lookup : ∀ arKey, t.zendHashFind arKey = some (find m.entries (.name arKey))
  indexLookup : ∀ h, t.zendHashIndexFind h = some (find m.entries (.index (asLong h)))
  count : t.nNumOfElements = m.entries.length
  /-- The buckets are in the list in the order of the elements and in the chains of their slots, and the internal
  pointer is one of them, or null. -/
  memory : ∃ xs, t.Holds xs m.entries ∧ t.pInternalPointer = xs[m.cursor]?
  /-- An element that gets the next index is put at the end, unless `LONG_MAX` is taken. -/
  nextInsert : ∀ v, ∃ r t' xs', t.zendHashIndexUpdateOrNextInsert 0 v .nextInsert = some (r, t') ∧
    (r = true ∧ .index (asLong t.nNextFreeElement) ∉ m.keys ∧
        t'.Holds xs' (m.entries ++ [(.index (asLong t.nNextFreeElement), v)]) ∨
      r = false ∧ asLong t.nNextFreeElement = longMax ∧ .index longMax ∈ m.keys ∧ t'.Holds xs' m.entries)

theorem Valid.lookup_eq (h : t.Valid xs m) (hk : key.key = some k) :
    (t.search key.test key.h).map (fun p => (p.bind t.bucket).map Bucket.pData) = some (find m.entries k) := by
  rcases h.holds.search_cases hk with ⟨j, p, v, hp, hj, hsearch⟩ | ⟨hnew, hsearch⟩
  · obtain ⟨xs₁, xs₂, es₁, es₂, b, -, hes, -, he, hb⟩ := h.holds.split hp
    have hv : b.pData = v := by
      rw [hes, ← he, getElem?_middle] at hj
      exact congrArg Prod.snd (some.inj hj)
    have hfind : find m.entries k = some v := find_of_mem m.nodup (mem_of_getElem? hj)
    rw [hsearch, hfind, map_some, bind_some, hb, map_some, hv]
  · have hfind : find m.entries k = none := by
      rw [← not_isSome_iff_eq_none, find_isSome_iff]
      exact hnew
    rw [hsearch, hfind]
    rfl

theorem Valid.nextInsert (h : t.Valid xs m) (v : V) :
    ∃ r t' xs', t.zendHashIndexUpdateOrNextInsert 0 v .nextInsert = some (r, t') ∧
      (r = true ∧ .index (asLong t.nNextFreeElement) ∉ m.keys ∧
          t'.Holds xs' (m.entries ++ [(.index (asLong t.nNextFreeElement), v)]) ∨
        r = false ∧ asLong t.nNextFreeElement = longMax ∧ .index longMax ∈ m.keys ∧ t'.Holds xs' m.entries) := by
  obtain ⟨t', xs', heq, hvalid⟩ := indexUpdateOrNextInsert_does h 0 v .nextInsert
  rw [if_pos rfl] at heq hvalid
  refine ⟨_, t', xs', heq, ?_⟩
  rw [h.next]
  by_cases hmem : .index m.next ∈ m.keys
  · rw [putNew, if_pos hmem] at hvalid ⊢
    have hmax : m.next = longMax := (m.free m.next hmem).resolve_left (lt_irrefl _)
    exact .inr ⟨rfl, hmax, hmax ▸ hmem, hvalid.holds⟩
  · rw [putNew, if_neg hmem] at hvalid ⊢
    refine .inl ⟨rfl, hmem, ?_⟩
    rw [← update_of_not_mem hmem v]
    exact hvalid.holds

/-- What is left to be an ordered map is that the elements are counted. -/
theorem Valid.refines_iff (h : t.Valid xs m) : t.Refines m ↔ m.entries.length < 2 ^ 32 := by
  constructor
  · intro hr
    rw [← hr.count, h.count]
    exact Nat.mod_lt _ (by omega)
  · intro hlt
    refine ⟨fun arKey => ?_, fun n => ?_, ?_, ⟨xs, h.holds, h.pointer⟩, h.nextInsert⟩
    · exact h.lookup_eq (show (string ⟨arKey, false⟩).key = some (.name arKey) from rfl)
    · exact h.lookup_eq (show (long n).key = some (.index (asLong n)) from rfl)
    · rw [h.count, Nat.mod_eq_of_lt hlt]

/-- **In every run from an empty table, each operation returns what it returns for an ordered map, and the table is
that map just when it has less than `2 ^ 32` elements.** -/
theorem run_refines_iff (nSize : ℕ) (ops : List (HashOp V)) :
    ∃ t, (zendHashInit V nSize).run ops = some (((empty V).run ops).1, t) ∧
      (t.Refines ((empty V).run ops).2 ↔ ((empty V).run ops).2.entries.length < 2 ^ 32) := by
  obtain ⟨t, xs, hrun, hvalid⟩ := run_valid (zendHashInit_valid nSize) ops
  exact ⟨t, hrun, hvalid.refines_iff⟩

/-- Elements that get the next index are put at the end as long as there is one. -/
theorem length_nextIndexInserts (m : OrderedTable V) (v : V) {n : ℕ} (h : m.next + n ≤ longMax) :
    (m.run (replicate n (.nextIndexInsert v))).2.entries.length = m.entries.length + n := by
  induction n generalizing m with
  | zero => rfl
  | succ n ih =>
    have hnew : .index m.next ∉ m.keys := by
      intro hmem
      have hmax := (m.free m.next hmem).resolve_left (lt_irrefl _)
      omega
    have hstep : m.step (.nextIndexInsert v) = (true, m.put (.index m.next) v) := by
      rw [OrderedTable.step, OrderedTable.putNew, if_neg hnew]
    have hnext : (m.put (.index m.next) v).next = m.next + 1 := by
      show (if .index m.next ∈ m.keys then m.next else nextAfter m.next (.index m.next)) = _
      rw [if_neg hnew, nextAfter, if_pos (le_refl _)]
      omega
    have hlen : (m.put (.index m.next) v).entries.length = m.entries.length + 1 := by
      show (update m.entries (.index m.next) v).length = _
      rw [update_of_not_mem hnew, length_append, length_singleton]
    have hrest := ih (m.put (.index m.next) v) (by rw [hnext]; omega)
    rw [replicate_succ, OrderedTable.run, hstep]
    rw [hrest, hlen]
    omega

/-- After `2 ^ 32` elements the table says that it has none. -/
theorem run_refines_full : ∃ t : HashTable Unit,
    (zendHashInit Unit 8).run (replicate (2 ^ 32) (.nextIndexInsert ())) =
        some (((empty Unit).run (replicate (2 ^ 32) (.nextIndexInsert ()))).1, t) ∧
      ((empty Unit).run (replicate (2 ^ 32) (.nextIndexInsert ()))).2.entries.length = 2 ^ 32 ∧
      t.nNumOfElements = 0 := by
  obtain ⟨t, xs, hrun, hvalid⟩ := run_valid (zendHashInit_valid (V := Unit) 8)
    (replicate (2 ^ 32) (.nextIndexInsert ()))
  have hlen : ((empty Unit).run (replicate (2 ^ 32) (.nextIndexInsert ()))).2.entries.length = 2 ^ 32 := by
    refine (length_nextIndexInserts (empty Unit) () (by decide)).trans ?_
    exact Nat.zero_add _
  refine ⟨t, hrun, hlen, ?_⟩
  rw [hvalid.count, hlen, Nat.mod_self]

end HashTable

end PhpSandbox.Zend
