import PhpSandbox.Zend.HashChains
import Mathlib.Data.List.Perm.Subperm

/-!
# What a hash table holds

`Listed t xs es`: the buckets of the list are `xs`, and hold the keys and data `es`. `Holds t xs es`: they are in the
chains of their slots, too. Each operation that changes buckets keeps this, with other `xs` and `es`; and a search
for a key finds its bucket (`Holds.search_cases`).
-/

namespace PhpSandbox.Zend

open Lib KeyArg List Option Function

variable {V : Type}

/-! ### Keys -/

variable (b : Bucket V)

/-- The key of a bucket. -/
def Bucket.key : ArrayKey :=
  match b.arKey with
  | some s => .name s.val
  | none => .index (asLong b.h)

open Bucket

/-- The key and the data. -/
def Bucket.entry : ArrayKey × V := (b.key, b.pData)

/-- The hash value is that of the string. -/
def Bucket.HashOk : Prop := ∀ s, b.arKey = some s → b.h = zendInlineHashFunc s.val

/-- The key that is asked for. -/
def KeyArg.key : KeyArg → Option ArrayKey
  | .string s => some (.name s.val)
  | .long numIndex => some (.index (asLong numIndex))
  | .nonExistent => none

theorem asLong_eq (h : UInt64) : asLong h = if h.toNat < 2 ^ 63 then (h.toNat : ℤ) else (h.toNat : ℤ) - 2 ^ 64 := by
  have hlt := h.toNat_lt
  unfold asLong
  generalize h.toNat = n at hlt
  rw [Int.bmod_def]
  split_ifs <;> omega

theorem asLong_injective {h h' : UInt64} (heq : asLong h = asLong h') : h = h' := by
  have hlt := h.toNat_lt
  have hlt' := h'.toNat_lt
  rw [asLong_eq, asLong_eq] at heq
  apply UInt64.toNat_inj.mp
  split_ifs at heq <;> omega

variable {key : KeyArg} {k : ArrayKey}

/-- The tests of the loops are tests for the key. -/
theorem KeyArg.test_iff (hk : key.key = some k) {b : Bucket V} (hb : b.HashOk) : key.test b ↔ b.key = k := by
  cases key with
  | string s =>
    cases hk
    cases harKey : b.arKey with
    | none => simp [test, Bucket.hasString, Bucket.key, harKey]
    | some s' =>
      simp only [test, Bucket.hasString, Bucket.key, harKey, keyLength, any_some, Bool.and_eq_true,
        decide_eq_true_eq, ArrayKey.name.injEq]
      constructor
      · exact And.right
      · intro heq
        exact ⟨⟨by rw [hb s' harKey, heq], by rw [heq]⟩, heq⟩
  | long numIndex =>
    cases hk
    cases harKey : b.arKey with
    | none =>
      simp only [test, Bucket.hasIndex, Bucket.key, harKey, keyLength, decide_true, Bool.true_and,
        decide_eq_true_eq, ArrayKey.index.injEq]
      exact ⟨congrArg asLong, asLong_injective⟩
    | some s' => simp [test, Bucket.hasIndex, Bucket.key, harKey, keyLength]
  | nonExistent => cases hk

/-- A bucket for which a test holds has the hash value that goes with it. -/
theorem KeyArg.h_of_test {b : Bucket V} (h : key.test b) : b.h = key.h := by
  cases key with
  | string s =>
    simp only [test, hasString, Bool.and_eq_true, decide_eq_true_eq] at h
    exact h.1.1
  | long numIndex =>
    simp only [test, hasIndex, Bool.and_eq_true, decide_eq_true_eq] at h
    exact h.2
  | nonExistent => cases h

namespace HashTable

variable {t t' : HashTable V} {xs xs₁ xs₂ : List Ptr} {es es₁ es₂ : List (ArrayKey × V)} {p q : Ptr}
  {e : ArrayKey × V} {b : Bucket V}

/-- The key and the data of a bucket. -/
def entryOf (t : HashTable V) (p : Ptr) : Option (ArrayKey × V) := (t.bucket p).map entry

/-- The buckets of the list, and what they hold. -/
structure Listed (t : HashTable V) (xs : List Ptr) (es : List (ArrayKey × V)) : Prop where
  order : t.InOrder xs
  entries : xs.map t.entryOf = es.map some
  hash : ∀ p ∈ xs, ∀ b, t.bucket p = some b → b.HashOk
  lt_brk : ∀ p ∈ xs, p < t.brk

/-- The buckets are in the list and in the chains. -/
structure Holds (t : HashTable V) (xs : List Ptr) (es : List (ArrayKey × V)) : Prop extends Listed t xs es where
  /-- They are in the chains of their slots. -/
  chains : t.InChains {p | p ∈ xs}

/-! ### The list -/

theorem Listed.length (h : t.Listed xs es) : xs.length = es.length := by
  have hlen := congrArg List.length h.entries
  rwa [length_map, length_map] at hlen

theorem length_le_of_lt {n : ℕ} (hxs : xs.Nodup) (hlt : ∀ p ∈ xs, p < n) : xs.length ≤ n := by
  have hsub : xs ⊆ List.range n := fun p hp => mem_range.mpr (hlt p hp)
  have hle := (hxs.subperm hsub).length_le
  rwa [length_range] at hle

theorem Listed.length_le (h : t.Listed xs es) : xs.length ≤ t.brk := length_le_of_lt h.order.nodup h.lt_brk

/-- The entry of one bucket among the others. -/
theorem Listed.split (h : t.Listed xs es) {i : ℕ} (hp : xs[i]? = some p) :
    ∃ xs₁ xs₂ es₁ es₂ b, xs = xs₁ ++ p :: xs₂ ∧ es = es₁ ++ b.entry :: es₂ ∧ xs₁.length = i ∧ es₁.length = i ∧
      t.bucket p = some b := by
  obtain ⟨xs₁, xs₂, rfl, hlen⟩ := exists_split_of_getElem? hp
  have hmap := h.entries
  rw [map_append, map_cons] at hmap
  obtain ⟨es₁, es', rfl, h₁, h'⟩ := map_eq_append_iff.mp hmap.symm
  obtain ⟨e, es₂, rfl, he, -⟩ := map_eq_cons_iff.mp h'
  obtain ⟨b, hb, rfl⟩ := map_eq_some_iff.mp he.symm
  refine ⟨xs₁, xs₂, es₁, es₂, b, rfl, rfl, hlen, ?_, hb⟩
  have hlen' := congrArg List.length h₁
  rw [length_map, length_map] at hlen'
  rw [hlen', hlen]

/-- A bucket is in the list once. -/
theorem InOrder.not_mem (h : t.InOrder (xs₁ ++ p :: xs₂)) : p ∉ xs₁ ++ xs₂ :=
  (nodup_cons.mp (nodup_middle.mp h.nodup)).1

/-- What does not touch the list or its buckets. -/
theorem Listed.congr (h : t.Listed xs es) (hnext : t'.pListNext = t.pListNext) (hlast : t'.pListLast = t.pListLast)
    (hhead : t'.pListHead = t.pListHead) (htail : t'.pListTail = t.pListTail)
    (hbucket : ∀ p ∈ xs, t'.bucket p = t.bucket p) (hbrk : t.brk ≤ t'.brk) : t'.Listed xs es := by
  refine ⟨h.order.congr hnext hlast hhead htail, ?_, ?_, fun p hp => (h.lt_brk p hp).trans_le hbrk⟩
  · rw [← h.entries]
    exact map_congr_left fun p hp => by rw [entryOf, entryOf, hbucket p hp]
  · intro p hp b hb
    exact h.hash p hp b ((hbucket p hp).symm.trans hb)

/-- A new bucket at the end of the list. -/
theorem Listed.append (h : t.Listed xs es) (hb : b.HashOk) :
    Listed ((t.pemalloc b).2.connectToGlobalDllistEx t.brk t.pListTail none) (xs ++ [t.brk]) (es ++ [b.entry]) := by
  have hnew : t.brk ∉ xs := fun hmem => Nat.lt_irrefl _ (h.lt_brk _ hmem)
  have hother (x : Ptr) (hx : x ∈ xs) : update t.bucket t.brk (some b) x = t.bucket x :=
    update_of_ne (ne_of_mem_of_not_mem hx hnew) _ _
  have hold : (t.pemalloc b).2.Listed xs es := h.congr rfl rfl rfl rfl hother (Nat.le_succ _)
  refine ⟨hold.order.append hnew, ?_, ?_, ?_⟩
  · rw [map_append, map_append, ← hold.entries]
    congr 1
    show [(update t.bucket t.brk (some b) t.brk).map entry] = _
    rw [update_self]
    rfl
  · intro x hx b' hb'
    rcases mem_append.mp hx with hx | hx
    · exact hold.hash x hx b' hb'
    · cases mem_singleton.mp hx
      have hself : (t.pemalloc b).2.bucket t.brk = some b := update_self _ _ _
      cases hself.symm.trans hb'
      exact hb
  · intro x hx
    rcases mem_append.mp hx with hx | hx
    · exact hold.lt_brk x hx
    · cases mem_singleton.mp hx
      exact Nat.lt_succ_self _

section Middle

variable (h : t.Listed (xs₁ ++ p :: xs₂) (es₁ ++ e :: es₂)) (hlen : xs₁.length = es₁.length)

include h hlen

/-- The parts of the list around a bucket. -/
theorem Listed.parts : xs₁.map t.entryOf = es₁.map some ∧ t.entryOf p = some e ∧ xs₂.map t.entryOf = es₂.map some := by
  have hmap := h.entries
  rw [map_append, map_append, map_cons, map_cons] at hmap
  obtain ⟨h₁, h₂⟩ := append_inj hmap (by rw [length_map, length_map, hlen])
  obtain ⟨he, h₂⟩ := List.cons.inj h₂
  exact ⟨h₁, he, h₂⟩

/-- One bucket of the list is changed, or another is put in its place. -/
theorem Listed.middle (horder : t'.InOrder (xs₁ ++ q :: xs₂)) (hother : ∀ x ∈ xs₁ ++ xs₂, t'.bucket x = t.bucket x)
    (hq : t'.bucket q = some b) (hb : b.HashOk) (hbrk : t.brk ≤ t'.brk) (hqbrk : q < t'.brk) :
    t'.Listed (xs₁ ++ q :: xs₂) (es₁ ++ b.entry :: es₂) := by
  obtain ⟨h₁, -, h₂⟩ := h.parts hlen
  refine ⟨horder, ?_, ?_, ?_⟩
  · rw [map_append, map_append, map_cons, map_cons, ← h₁, ← h₂]
    congr 1
    · refine map_congr_left fun x hx => ?_
      rw [entryOf, entryOf, hother x (mem_append_left _ hx)]
    · congr 1
      · rw [entryOf, hq, map_some]
      · refine map_congr_left fun x hx => ?_
        rw [entryOf, entryOf, hother x (mem_append_right _ hx)]
  · intro x hx b' hb'
    rcases mem_middle.mp hx with rfl | hx
    · rw [hq] at hb'
      cases hb'
      exact hb
    · rw [hother x hx] at hb'
      exact h.hash x (mem_middle.mpr (.inr hx)) b' hb'
  · intro x hx
    rcases mem_middle.mp hx with rfl | hx
    · exact hqbrk
    · exact (h.lt_brk x (mem_middle.mpr (.inr hx))).trans_le hbrk

/-- A bucket of the list gets other contents. -/
theorem Listed.setBucket (hb : b.HashOk) :
    Listed { t with bucket := update t.bucket p (some b) } (xs₁ ++ p :: xs₂) (es₁ ++ b.entry :: es₂) := by
  apply h.middle hlen
  · exact h.order.congr rfl rfl rfl rfl
  · exact fun x hx => update_of_ne (ne_of_mem_of_not_mem hx h.order.not_mem) _ _
  · exact update_self _ _ _
  · exact hb
  · exact le_rfl
  · exact h.lt_brk p (mem_middle.mpr (.inl rfl))

/-- A bucket is taken out of the list. -/
theorem Listed.remove : (t.disconnectFromGlobalDllist p).Listed (xs₁ ++ xs₂) (es₁ ++ es₂) := by
  obtain ⟨h₁, -, h₂⟩ := h.parts hlen
  refine ⟨h.order.remove, ?_, ?_, ?_⟩
  · rw [map_append, map_append, ← h₁, ← h₂]
    rfl
  · exact fun x hx b hb => h.hash x (mem_middle.mpr (.inr hx)) b hb
  · exact fun x hx => h.lt_brk x (mem_middle.mpr (.inr hx))

end Middle

/-! ### The list and the chains -/

/-- **A search finds the bucket with the key**, if there is one. -/
theorem Holds.search_cases (h : t.Holds xs es) (hk : key.key = some k) :
    (∃ (j : ℕ) (p : Ptr) (v : V), xs[j]? = some p ∧ es[j]? = some (k, v) ∧ t.search key.test key.h = some (some p)) ∨
    k ∉ es.map Prod.fst ∧ t.search key.test key.h = some none := by
  have hlen (c : List Ptr) (hc : c.Nodup) (hmem : ∀ p ∈ c, p ∈ {p | p ∈ xs}) : c.length ≤ t.brk :=
    length_le_of_lt hc fun p hp => h.lt_brk p (hmem p hp)
  have hhash (p : Ptr) (_ : p ∈ {p | p ∈ xs}) (htest : (t.bucket p).any key.test) : t.hashOf p = key.h := by
    cases hb : t.bucket p with
    | none => simp [hb] at htest
    | some b =>
      rw [hb, any_some] at htest
      rw [hashOf, hb]
      exact h_of_test htest
  rcases h.chains.search_eq hlen hhash with ⟨p, hp, htest, hsearch⟩ | ⟨hnone, hsearch⟩
  · obtain ⟨j, hj⟩ := getElem?_of_mem hp
    obtain ⟨xs₁, xs₂, es₁, es₂, b, -, rfl, -, hlen, hb⟩ := h.split hj
    rw [hb, any_some, test_iff hk (h.hash p hp b hb)] at htest
    refine .inl ⟨j, p, b.pData, hj, ?_, hsearch⟩
    rw [← hlen, getElem?_middle, entry, htest]
  · refine .inr ⟨fun hmem => ?_, hsearch⟩
    obtain ⟨e, he, rfl⟩ := mem_map.mp hmem
    have hmap : some e ∈ xs.map t.entryOf := h.entries ▸ mem_map_of_mem he
    obtain ⟨p, hp, hpe⟩ := mem_map.mp hmap
    obtain ⟨b, hb, rfl⟩ := map_eq_some_iff.mp hpe
    apply hnone p hp
    rw [hb, any_some, test_iff hk (h.hash p hp b hb)]
    rfl

/-- Data is written. -/
theorem Holds.updateData {v : V} (h : t.Holds (xs₁ ++ p :: xs₂) (es₁ ++ (k, v) :: es₂))
    (hlen : xs₁.length = es₁.length) (v' : V) :
    (t.updateData p v').Holds (xs₁ ++ p :: xs₂) (es₁ ++ (k, v') :: es₂) := by
  obtain ⟨-, hp, -⟩ := h.parts hlen
  obtain ⟨b, hb, he⟩ := map_eq_some_iff.mp hp
  have hok : Bucket.HashOk { b with pData := v' } := h.hash p (mem_middle.mpr (.inl rfl)) b hb
  have hentry : entry { b with pData := v' } = (k, v') := by
    obtain ⟨rfl, -⟩ := Prod.ext_iff.mp he
    rfl
  have hset := h.setBucket hlen hok
  rw [hentry] at hset
  have heq : t.updateData p v' = { t with bucket := update t.bucket p (some { b with pData := v' }) } := by
    rw [HashTable.updateData, hb, map_some]
  rw [heq]
  refine ⟨hset, h.chains.congr rfl rfl rfl rfl fun x _ => ?_⟩
  by_cases hx : x = p
  · subst hx
    simp [hashOf, hb]
  · simp [hashOf, update_of_ne hx]

/-- **A new bucket**, in its slot and at the end of the list. -/
theorem Holds.newBucket (h : t.Holds xs es) (hb : b.HashOk) :
    (t.newBucket b).Holds (xs ++ [t.brk]) (es ++ [b.entry]) := by
  have hnew : t.brk ∉ xs := fun hmem => Nat.lt_irrefl _ (h.lt_brk _ hmem)
  have hself : (t.pemalloc b).2.hashOf t.brk = b.h := by simp [hashOf, pemalloc]
  have hother (x : Ptr) (hx : x ∈ xs) : (t.pemalloc b).2.hashOf x = t.hashOf x := by
    simp [hashOf, pemalloc, update_of_ne (ne_of_mem_of_not_mem hx hnew)]
  have hchains : (t.pemalloc b).2.InChains {p | p ∈ xs} := h.chains.congr rfl rfl rfl rfl hother
  have hconn := hchains.connect hnew
  rw [hself] at hconn
  have hset : insert t.brk {p | p ∈ xs} = {p | p ∈ xs ++ [t.brk]} := by
    ext x
    simp only [Set.mem_insert_iff, Set.mem_ofPred_eq, mem_append, mem_singleton]
    exact or_comm
  rw [hset] at hconn
  have hlisted := h.append hb
  simp only [HashTable.newBucket, connectToGlobalDllist]
  split_ifs <;>
    exact ⟨hlisted.congr rfl rfl rfl rfl (fun _ _ => rfl) le_rfl, hconn.congr rfl rfl rfl rfl fun _ _ => rfl⟩

theorem diff_middle (hp : p ∉ xs₁ ++ xs₂) : {x | x ∈ xs₁ ++ p :: xs₂} \ {p} = {x | x ∈ xs₁ ++ xs₂} := by
  ext x
  exact mem_middle_and_ne_iff hp

/-- A bucket is taken out of its chain. -/
theorem Holds.disconnect (h : t.Holds (xs₁ ++ p :: xs₂) es) :
    (t.disconnectFromBucketDllist p).Listed (xs₁ ++ p :: xs₂) es ∧
      (t.disconnectFromBucketDllist p).InChains {x | x ∈ xs₁ ++ xs₂} := by
  refine ⟨h.toListed.congr rfl rfl rfl rfl (fun _ _ => rfl) le_rfl, ?_⟩
  rw [← diff_middle h.order.not_mem]
  exact h.chains.disconnect (mem_middle.mpr (.inl rfl))

/-- **A bucket is deleted.** -/
theorem Holds.delete (h : t.Holds (xs₁ ++ p :: xs₂) (es₁ ++ e :: es₂)) (hlen : xs₁.length = es₁.length) :
    (t.zendHashBucketDelete p).Holds (xs₁ ++ xs₂) (es₁ ++ es₂) := by
  have hother (x : Ptr) (hx : x ∈ xs₁ ++ xs₂) : update t.bucket p none x = t.bucket x :=
    update_of_ne (ne_of_mem_of_not_mem hx h.order.not_mem) _ _
  obtain ⟨hdisc, hchains⟩ := h.disconnect
  refine ⟨(hdisc.remove hlen).congr rfl rfl rfl rfl hother le_rfl, hchains.congr rfl rfl rfl rfl ?_⟩
  intro x hx
  show ((update t.bucket p none x).map Bucket.h).getD 0 = _
  rw [hother x hx]
  rfl

/-! ### Another key for a bucket -/

theorem takeKey_eq (t : HashTable V) (key : KeyArg) :
    t.takeKey key = { t with nNextFreeElement := (t.takeKey key).nNextFreeElement } := by
  cases key with
  | long numIndex =>
    simp only [takeKey, takeIndex]
    split_ifs <;> rfl
  | string s | nonExistent => rfl

theorem takeKey_congr (key : KeyArg) (heq : t'.nNextFreeElement = t.nNextFreeElement) :
    (t'.takeKey key).nNextFreeElement = (t.takeKey key).nNextFreeElement := by
  cases key with
  | long numIndex =>
    simp only [takeKey, takeIndex, heq]
    by_cases hle : asLong t.nNextFreeElement ≤ asLong numIndex
    · rw [if_pos hle, if_pos hle]
    · rw [if_neg hle, if_neg hle]
      exact heq
  | string s | nonExistent => exact heq

/-- A bucket that is in no chain is put into one, where another was in the list. -/
theorem Listed.relink (h : t.Listed (xs₁ ++ p :: xs₂) (es₁ ++ e :: es₂)) (hlen : xs₁.length = es₁.length)
    (hchains : t.InChains {x | x ∈ xs₁ ++ xs₂}) (horder : t'.InOrder (xs₁ ++ q :: xs₂))
    (hother : ∀ x ∈ xs₁ ++ xs₂, t'.bucket x = t.bucket x) (hq : t'.bucket q = some b) (hb : b.HashOk)
    (hbrk : t.brk ≤ t'.brk) (hqbrk : q < t'.brk) (hnext : t'.pNext = t.pNext) (hlast : t'.pLast = t.pLast)
    (har : t'.arBuckets = t.arBuckets) (hmask : t'.nTableMask = t.nTableMask) :
    (t'.connectToBucketDllist q (t'.slot (t'.hashOf q))).Holds (xs₁ ++ q :: xs₂) (es₁ ++ b.entry :: es₂) := by
  have hold : t'.InChains {x | x ∈ xs₁ ++ xs₂} := by
    apply hchains.congr hnext hlast har hmask
    intro x hx
    rw [hashOf, hashOf, hother x hx]
  have hset : insert q {x | x ∈ xs₁ ++ xs₂} = {x | x ∈ xs₁ ++ q :: xs₂} := by
    ext x
    simp only [Set.mem_insert_iff, Set.mem_ofPred_eq, mem_middle]
  refine ⟨?_, hset ▸ hold.connect horder.not_mem⟩
  exact (h.middle hlen horder hother hq hb hbrk hqbrk).congr rfl rfl rfl rfl (fun _ _ => rfl) le_rfl

/-- A bucket that has room for a key, and the length of an index if it is one, gets that key. -/
theorem withKey_entry (hk : key.key = some k) (hroom : key.strIndex = none → b.arKey = none) :
    (b.withKey key).HashOk ∧ (b.withKey key).entry = (k, b.pData) := by
  cases key with
  | string s =>
    cases hk
    refine ⟨?_, rfl⟩
    rintro s' ⟨⟩
    rfl
  | long numIndex =>
    cases hk
    have hnone : b.arKey = none := hroom rfl
    refine ⟨?_, ?_⟩
    · intro s hs
      cases hnone.symm.trans hs
    · show (key { b with h := numIndex }, b.pData) = _
      rw [Bucket.key, hnone]
  | nonExistent => cases hk

/-- A bucket that is not replaced has room. -/
theorem arKey_eq_none {arKey : Option Str} (h : ¬ (isInterned arKey ≠ isInterned none ∨
    ¬ isInterned arKey ∧ keyLength arKey ≠ keyLength none)) : arKey = none := by
  cases arKey with
  | none => rfl
  | some s =>
    cases hs : s.interned with
    | true => simp [isInterned, hs] at h
    | false => simp [isInterned, hs, keyLength] at h

/-- **A bucket gets another key**, and may be another one then; the pointer stays at it. -/
theorem Holds.changeKey (h : t.Holds (xs₁ ++ p :: xs₂) (es₁ ++ e :: es₂)) (hlen : xs₁.length = es₁.length)
    (hb : t.bucket p = some b) (hk : key.key = some k) :
    ∃ q t', t.changeKey p b key = (q, t') ∧ t'.Holds (xs₁ ++ q :: xs₂) (es₁ ++ (k, b.pData) :: es₂) ∧
      t'.pInternalPointer = (if t.pInternalPointer = some p then some q else t.pInternalPointer) ∧
      t'.nNextFreeElement = (t.takeKey key).nNextFreeElement ∧ t'.nNumOfElements = t.nNumOfElements ∧
      t'.nTableSize = t.nTableSize ∧ t'.nTableMask = t.nTableMask := by
  have hp := h.order.not_mem
  obtain ⟨hlisted, hchains⟩ := h.disconnect
  by_cases hre : isInterned b.arKey ≠ isInterned key.strIndex ∨
      ¬ isInterned b.arKey ∧ keyLength b.arKey ≠ keyLength key.strIndex
  · -- the key does not fit: a new bucket comes into its place
    have hnew : t.brk ∉ xs₁ ++ p :: xs₂ := fun hmem => Nat.lt_irrefl _ (h.lt_brk _ hmem)
    have hpb : t.brk ≠ p := fun heq => hnew (heq ▸ mem_middle.mpr (.inl rfl))
    obtain ⟨hok, hentry⟩ := withKey_entry (b := { b with arKey := key.strIndex }) hk id
    refine ⟨t.brk, _, by rw [HashTable.changeKey, if_pos hre]; rfl, ?_⟩
    rw [takeKey_eq]
    refine ⟨?_, rfl, takeKey_congr key rfl, rfl, rfl, rfl⟩
    · rw [← hentry]
      refine hlisted.relink hlen hchains ?_ ?_ ?_ hok (Nat.le_succ _) (Nat.lt_succ_self _) rfl rfl rfl rfl
      · exact (hlisted.order.replace hnew).congr rfl rfl rfl rfl
      · intro x hx
        have hxp : x ≠ p := ne_of_mem_of_not_mem hx hp
        have hxb : x ≠ t.brk := ne_of_mem_of_not_mem (mem_middle.mpr (.inr hx)) hnew
        exact (update_of_ne hxb _ _).trans
          ((update_of_ne hxp _ _).trans (update_of_ne hxb _ _))
      · refine (update_self _ _ _).trans ?_
        have hq : (((t.disconnectFromBucketDllist p).reallocate p { b with arKey := key.strIndex }).2.bucket t.brk)
            = some { b with arKey := key.strIndex } :=
          (update_of_ne hpb _ _).trans (update_self _ _ _)
        exact congrArg (Option.map (withKey key)) hq
  · -- the key fits, and is written
    have hroom : key.strIndex = none → b.arKey = none := by
      intro hnone
      rw [hnone] at hre
      exact arKey_eq_none hre
    obtain ⟨hok, hentry⟩ := withKey_entry hk hroom
    refine ⟨p, _, by rw [HashTable.changeKey, if_neg hre], ?_⟩
    rw [takeKey_eq]
    refine ⟨?_, ?_, takeKey_congr key rfl, rfl, rfl, rfl⟩
    · rw [← hentry]
      refine hlisted.relink hlen hchains ?_ ?_ ?_ hok le_rfl ?_ rfl rfl rfl rfl
      · exact hlisted.order.congr rfl rfl rfl rfl
      · exact fun x hx => update_of_ne (ne_of_mem_of_not_mem hx hp) _ _
      · refine (update_self _ _ _).trans ?_
        show (t.bucket p).map _ = _
        rw [hb, map_some]
      · exact h.lt_brk p (mem_middle.mpr (.inl rfl))
    · show t.pInternalPointer = _
      split_ifs with hptr
      · exact hptr
      · rfl

end HashTable

end PhpSandbox.Zend
