import PhpSandbox.Zend.HashTable
import Mathlib.Data.List.Lattice
import Mathlib.Data.Set.Insert

/-!
# The list and the chains of a hash table

What the parts of the operations do to the list of all buckets (`InOrder`) and to the chains of the slots
(`InChains`). The two are apart: their links are different fields, so that each part is about one of them.
-/

namespace PhpSandbox.Zend.HashTable

open Lib List Function

variable {V : Type} {t t' : HashTable V} {xs ys : List Ptr} {S : Set Ptr} {p q : Ptr}

/-- The buckets of the list, in their order. -/
structure InOrder (t : HashTable V) (xs : List Ptr) : Prop where
  linked : Linked t.pListNext t.pListLast none xs none
  head : t.pListHead = xs.head?
  tail : t.pListTail = xs.getLast?
  nodup : xs.Nodup

/-- The chain of a slot: those of a set of buckets that belong there. -/
structure Chain (t : HashTable V) (S : Set Ptr) (i : ℕ) (c : List Ptr) : Prop where
  linked : Linked t.pNext t.pLast none c none
  head : t.arBuckets i = c.head?
  nodup : c.Nodup
  mem_iff : ∀ p, p ∈ c ↔ p ∈ S ∧ t.slot (t.hashOf p) = i

/-- Each of a set of buckets is in the chain of its slot. -/
def InChains (t : HashTable V) (S : Set Ptr) : Prop := ∀ i, ∃ c, t.Chain S i c

/-! ### Chains -/

theorem mem_middle {x : Ptr} : x ∈ xs ++ p :: ys ↔ x = p ∨ x ∈ xs ++ ys := by
  rw [mem_append, mem_append, mem_cons]
  tauto

theorem mem_middle_and_ne_iff {x : Ptr} (hp : p ∉ xs ++ ys) : x ∈ xs ++ p :: ys ∧ x ≠ p ↔ x ∈ xs ++ ys := by
  rw [mem_middle, or_and_right, or_iff_right fun h => h.2 h.1]
  exact and_iff_left_of_imp fun hx => ne_of_mem_of_not_mem hx hp

/-- Chains of different slots have no bucket in common. -/
theorem Chain.disjoint {i j : ℕ} {c d : List Ptr} (hc : t.Chain S i c) (hd : t.Chain S j d) (hij : i ≠ j) :
    List.Disjoint c d := by
  intro p hpc hpd
  exact hij (((hc.mem_iff p).mp hpc).2.symm.trans ((hd.mem_iff p).mp hpd).2)

theorem InChains.congr (h : t.InChains S) (hnext : t'.pNext = t.pNext) (hlast : t'.pLast = t.pLast)
    (har : t'.arBuckets = t.arBuckets) (hmask : t'.nTableMask = t.nTableMask)
    (hhash : ∀ p ∈ S, t'.hashOf p = t.hashOf p) : t'.InChains S := by
  intro i
  obtain ⟨c, hc⟩ := h i
  refine ⟨c, ?_, ?_, hc.nodup, ?_⟩
  · rw [hnext, hlast]
    exact hc.linked
  · rw [har]
    exact hc.head
  · intro p
    rw [hc.mem_iff]
    refine and_congr_right fun hp => ?_
    rw [slot, slot, hmask, hhash p hp]

/-- No buckets. -/
theorem inChains_empty (h : ∀ i, t.arBuckets i = none) : t.InChains ∅ :=
  fun i => ⟨[], trivial, h i, nodup_nil, fun p => by simp⟩

/-- **A bucket is put into its slot.** -/
theorem InChains.connect (h : t.InChains S) (hp : p ∉ S) :
    (t.connectToBucketDllist p (t.slot (t.hashOf p))).InChains (insert p S) := by
  intro i
  obtain ⟨c, hc⟩ := h (t.slot (t.hashOf p))
  have hpc : p ∉ c := fun hmem => hp ((hc.mem_iff p).mp hmem).1
  by_cases hi : i = t.slot (t.hashOf p)
  · subst hi
    refine ⟨p :: c, ?_, ?_, nodup_cons.mpr ⟨hpc, hc.nodup⟩, ?_⟩
    · have hnil : Linked t.pNext t.pLast none [] none := trivial
      have hins := hnil.insert hc.linked (x := p) (nodup_cons.mpr ⟨hpc, hc.nodup⟩)
      rw [← hc.head] at hins
      exact hins
    · exact update_self _ _ _
    · intro q
      rw [mem_cons, hc.mem_iff, Set.mem_insert_iff]
      constructor
      · rintro (rfl | ⟨hq, hs⟩)
        · exact ⟨.inl rfl, rfl⟩
        · exact ⟨.inr hq, hs⟩
      · rintro ⟨rfl | hq, hs⟩
        · exact .inl rfl
        · exact .inr ⟨hq, hs⟩
  · obtain ⟨d, hd⟩ := h i
    have hpd : p ∉ d := fun hmem => hp ((hd.mem_iff p).mp hmem).1
    have hdisj := hc.disjoint hd (Ne.symm hi)
    refine ⟨d, ?_, ?_, hd.nodup, ?_⟩
    · refine hd.linked.congr (update_of_not_mem_list hpd _) fun x hx => ?_
      show setAt _ (t.arBuckets _) _ x = _
      rw [hc.head, setAt_of_ne (head?_ne_of_disjoint hdisj.symm x hx), update_of_not_mem_list hpd _ x hx]
    · exact (update_of_ne hi _ _).trans hd.head
    · intro q
      rw [hd.mem_iff, Set.mem_insert_iff]
      constructor
      · rintro ⟨hq, hs⟩
        exact ⟨.inr hq, hs⟩
      · rintro ⟨rfl | hq, hs⟩
        · exact absurd hs.symm hi
        · exact ⟨hq, hs⟩

/-- **A bucket is taken out of its slot.** -/
theorem InChains.disconnect (h : t.InChains S) (hp : p ∈ S) : (t.disconnectFromBucketDllist p).InChains (S \ {p}) := by
  intro i
  obtain ⟨c, hc⟩ := h (t.slot (t.hashOf p))
  obtain ⟨xs, ys, rfl⟩ := append_of_mem ((hc.mem_iff p).mpr ⟨hp, rfl⟩)
  obtain ⟨hlast, hnext⟩ := hc.linked.links
  obtain ⟨hnot, hnodup⟩ := nodup_cons.mp (nodup_middle.mp hc.nodup)
  by_cases hi : i = t.slot (t.hashOf p)
  · subst hi
    refine ⟨xs ++ ys, hc.linked.remove hc.nodup, ?_, hnodup, ?_⟩
    · simp only [disconnectFromBucketDllist, hlast, hnext]
      cases xs with
      | nil => exact update_self _ _ _
      | cons x xs =>
        rw [if_neg (by simp [getLast?_cons]), hc.head]
        rfl
    · intro q
      rw [← mem_middle_and_ne_iff hnot, hc.mem_iff]
      exact and_right_comm
  · obtain ⟨d, hd⟩ := h i
    have hdisj := hc.disjoint hd (Ne.symm hi)
    refine ⟨d, hd.linked.congr (fun x hx => ?_) fun x hx => ?_, ?_, hd.nodup, ?_⟩
    · apply setAt_of_ne
      rw [hlast]
      intro heq
      exact hdisj (mem_append_left _ (mem_of_getLast? heq)) hx
    · apply setAt_of_ne
      rw [hnext]
      intro heq
      exact hdisj (mem_append_right _ (mem_cons_of_mem _ (mem_of_mem_head? heq))) hx
    · simp only [disconnectFromBucketDllist]
      split_ifs
      · exact (update_of_ne hi _ _).trans hd.head
      · exact hd.head
    · intro q
      rw [hd.mem_iff]
      constructor
      · rintro ⟨hq, hs⟩
        refine ⟨⟨hq, ?_⟩, hs⟩
        rintro rfl
        exact hi hs.symm
      · rintro ⟨⟨hq, -⟩, hs⟩
        exact ⟨hq, hs⟩

/-! ### The list -/

theorem InOrder.congr (h : t.InOrder xs) (hnext : t'.pListNext = t.pListNext) (hlast : t'.pListLast = t.pListLast)
    (hhead : t'.pListHead = t.pListHead) (htail : t'.pListTail = t.pListTail) : t'.InOrder xs :=
  ⟨by rw [hnext, hlast]; exact h.linked, hhead.trans h.head, htail.trans h.tail, h.nodup⟩

/-- **A bucket is put at the end of the list.** -/
theorem InOrder.append (h : t.InOrder xs) (hp : p ∉ xs) : (t.connectToGlobalDllistEx p t.pListTail none).InOrder
    (xs ++ [p]) := by
  have hnodup : (xs ++ [p]).Nodup := nodup_middle.mpr (nodup_cons.mpr ⟨by rwa [append_nil], by
    rw [append_nil]
    exact h.nodup⟩)
  have hnil : Linked t.pListNext t.pListLast none [] none := trivial
  have hins := h.linked.insert hnil (x := p) hnodup
  rw [← h.tail] at hins
  refine ⟨hins, ?_, ?_, hnodup⟩
  · show (if t.pListTail = none then _ else _) = _
    rw [h.tail, h.head]
    cases xs <;> simp [getLast?_cons]
  · rw [getLast?_concat]
    rfl

/-- **A bucket is taken out of the list.** -/
theorem InOrder.remove (h : t.InOrder (xs ++ p :: ys)) : (t.disconnectFromGlobalDllist p).InOrder (xs ++ ys) := by
  obtain ⟨hlast, hnext⟩ := h.linked.links
  refine ⟨h.linked.remove h.nodup, ?_, ?_, (nodup_cons.mp (nodup_middle.mp h.nodup)).2⟩
  · show (if t.pListLast p = none then _ else _) = _
    rw [hlast, hnext, h.head]
    cases xs <;> simp [getLast?_cons]
  · show (if t.pListNext p = none then _ else _) = _
    rw [hlast, hnext, h.tail]
    cases ys <;> simp [getLast?_append, getLast?_cons]

/-- **A bucket is put in the place of another.** -/
theorem InOrder.replace (h : t.InOrder (xs ++ p :: ys)) (hq : q ∉ xs ++ p :: ys) :
    (t.connectToGlobalDllistEx q (t.pListLast p) (t.pListNext p)).InOrder (xs ++ q :: ys) := by
  obtain ⟨hlast, hnext⟩ := h.linked.links
  refine ⟨h.linked.replace h.nodup hq, ?_, ?_, ?_⟩
  · show (if t.pListLast p = none then _ else _) = _
    rw [hlast, h.head]
    cases xs <;> simp [getLast?_cons]
  · show (if t.pListNext p = none then _ else _) = _
    rw [hnext, h.tail]
    cases ys <;> simp [getLast?_append, getLast?_cons]
  · have hnodup := h.nodup
    rw [nodup_middle, nodup_cons] at hnodup ⊢
    refine ⟨fun hmem => hq ?_, hnodup.2⟩
    exact mem_middle.mpr (.inr hmem)

/-! ### Growth -/

/-- **All buckets are put into their slots again.** -/
theorem rehashLoop_inChains {before : Option Ptr} (hxs : Linked t.pListNext t.pListLast before xs none)
    (hnodup : xs.Nodup) (hS : ∀ p ∈ xs, p ∉ S) (h : t.InChains S) {n : ℕ} (hn : xs.length ≤ n) :
    ∃ pNext pLast arBuckets, rehashLoop n xs.head? t = some { t with pNext, pLast, arBuckets } ∧
      InChains { t with pNext, pLast, arBuckets } (S ∪ {p | p ∈ xs}) := by
  induction xs generalizing t S n before with
  | nil =>
    refine ⟨t.pNext, t.pLast, t.arBuckets, by cases n <;> rfl, ?_⟩
    simpa using h
  | cons p xs ih =>
    obtain ⟨n, rfl⟩ := Nat.exists_eq_add_of_le' (Nat.one_le_of_lt (Nat.lt_of_lt_of_le (Nat.succ_pos _) hn))
    obtain ⟨-, hnext, hrest⟩ := hxs
    obtain ⟨hp, hnodup⟩ := nodup_cons.mp hnodup
    have hconn := h.connect (hS p mem_cons_self)
    obtain ⟨pNext, pLast, arBuckets, hrun, hchains⟩ :=
      ih (t := t.connectToBucketDllist p (t.slot (t.hashOf p))) hrest hnodup (by
        rintro q hq (rfl | hmem)
        · exact hp hq
        · exact hS q (mem_cons_of_mem _ hq) hmem) hconn (Nat.le_of_succ_le_succ hn)
    refine ⟨pNext, pLast, arBuckets, ?_, ?_⟩
    · rw [head?_cons, rehashLoop, hnext, Option.or_none, hrun]
      rfl
    · have hset : insert p S ∪ {q | q ∈ xs} = S ∪ {q | q ∈ p :: xs} := by
        ext q
        simp only [Set.mem_union, Set.mem_insert_iff, Set.mem_ofPred_eq, mem_cons]
        tauto
      rw [hset] at hchains
      exact hchains

/-- Other slots and chains, for the same buckets. -/
def withChains (t : HashTable V) (nTableSize : ℕ) (pNext pLast : Ptr → Option Ptr) (arBuckets : ℕ → Option Ptr) :
    HashTable V :=
  { t with nTableSize, nTableMask := nTableSize - 1, pNext, pLast, arBuckets }

/-- An element is counted, and the table grows if it has to. -/
theorem countAndResize_inChains (hxs : t.InOrder xs) (h : t.InChains {p | p ∈ xs}) (hlen : xs.length ≤ t.brk)
    (hmask : t.nTableMask = t.nTableSize - 1) (hsize : 2 ≤ t.nTableSize) :
    ∃ nTableSize pNext pLast arBuckets, 2 ≤ nTableSize ∧
      t.countAndResize = some ({ t with nNumOfElements := (t.nNumOfElements + 1) % 2 ^ 32 }.withChains nTableSize
        pNext pLast arBuckets) ∧
      (t.withChains nTableSize pNext pLast arBuckets).InChains {p | p ∈ xs} := by
  have hself : t.withChains t.nTableSize t.pNext t.pLast t.arBuckets = t := by
    rw [withChains, ← hmask]
  have hsame : { t with nNumOfElements := (t.nNumOfElements + 1) % 2 ^ 32 }.withChains t.nTableSize t.pNext t.pLast
      t.arBuckets = { t with nNumOfElements := (t.nNumOfElements + 1) % 2 ^ 32 } := by
    simp only [withChains, ← hmask]
  simp only [countAndResize, zendHashDoResize, zendHashRehash]
  by_cases hfull : t.nTableSize < (t.nNumOfElements + 1) % 2 ^ 32 ∧ 0 < t.nTableSize * 2 % 2 ^ 32
  · obtain ⟨hfull, hroom⟩ := hfull
    obtain ⟨pNext, pLast, arBuckets, hrun, hchains⟩ := rehashLoop_inChains
      (t := { t with nNumOfElements := (t.nNumOfElements + 1) % 2 ^ 32 }.withChains (t.nTableSize * 2 % 2 ^ 32) t.pNext
        t.pLast fun _ => none) (S := ∅) hxs.linked hxs.nodup (fun _ _ => Set.notMem_empty _)
          (inChains_empty fun _ => rfl)
      hlen
    rw [Set.empty_union] at hchains
    refine ⟨t.nTableSize * 2 % 2 ^ 32, pNext, pLast, arBuckets, by omega, ?_, ?_⟩
    · rw [← hxs.head] at hrun
      rw [if_pos hfull, if_pos hroom, if_neg (by omega)]
      exact hrun
    · exact hchains.congr rfl rfl rfl rfl fun _ _ => rfl
  · refine ⟨t.nTableSize, t.pNext, t.pLast, t.arBuckets, hsize, ?_, by rwa [hself]⟩
    rw [hsame]
    by_cases h1 : t.nTableSize < (t.nNumOfElements + 1) % 2 ^ 32
    · rw [if_pos h1, if_neg fun h2 => hfull ⟨h1, h2⟩]
    · rw [if_neg h1]

/-- The first operation makes the slots. -/
theorem checkInit_inChains (h : t.InChains S) (hmask : t.nTableMask = 0 → S = ∅) : t.checkInit.InChains S := by
  unfold checkInit
  split_ifs with h0
  · rw [hmask h0]
    exact inChains_empty fun _ => rfl
  · exact h

/-! ### Searches -/

/-- **A search finds the bucket of the set that the test is for**, if all for which it holds have the hash value. -/
theorem InChains.search_eq (h : t.InChains S) (hlen : ∀ c : List Ptr, c.Nodup → (∀ p ∈ c, p ∈ S) → c.length ≤ t.brk)
    {test : Bucket V → Bool} {hash : UInt64}
    (htest : ∀ p ∈ S, (t.bucket p).any test → t.hashOf p = hash) :
    (∃ p ∈ S, (t.bucket p).any test ∧ t.search test hash = some (some p)) ∨
      (∀ p ∈ S, ¬ (t.bucket p).any test) ∧ t.search test hash = some none := by
  obtain ⟨c, hc⟩ := h (t.slot hash)
  have hwalk := hc.linked.walk_eq (fun p => (t.bucket p).any test)
    (hlen c hc.nodup fun p hp => ((hc.mem_iff p).mp hp).1)
  rw [← hc.head] at hwalk
  cases hfind : c.find? fun p => (t.bucket p).any test with
  | some p =>
    have hp := mem_of_find?_eq_some hfind
    have htrue := find?_some hfind
    exact .inl ⟨p, ((hc.mem_iff p).mp hp).1, htrue, by rw [search, hwalk, hfind]⟩
  | none =>
    refine .inr ⟨fun p hp htrue => ?_, by rw [search, hwalk, hfind]⟩
    have hmem : p ∈ c := (hc.mem_iff p).mpr ⟨hp, by rw [htest p hp htrue]⟩
    exact find?_eq_none.mp hfind p hmem htrue

end PhpSandbox.Zend.HashTable
