import Mathlib.Algebra.Order.BigOperators.Group.List
import Mathlib.Algebra.Ring.Nat
import PhpSandbox.Lib.Runs
import PhpSandbox.Zend.MmHeap

/-!
# `memory_limit`

`heap->real_size` is the sum of the sizes of the segments and never larger than `heap->limit`, whatever is allocated,
freed and reallocated (`accounted_run`). The limit is tested with sums and differences in `size_t`, which may wrap
around for large requests.

Most of what a call does leaves the segments alone (`Same`), or gives some back (`Releases`). A segment is added by
`allocNew` and changes its size in `reallocSegment`; these are the two places where the limit is tested.
-/

namespace PhpSandbox.Zend.Mm

open Lib Option

namespace Heap

/-- The sum of the sizes of the segments. -/
def total (h : Heap) : ℕ := (h.segments.map Segment.size).sum

/-- `real_size` is exact and within the limit. -/
structure Accounted (h : Heap) : Prop where
  sum : h.realSize = h.total
  room : h.total < 2 ^ 64
  limit : h.realSize ≤ h.limit

/-- The segments and what is counted of them are the same. -/
structure Same (h h' : Heap) : Prop where
  segments : h'.segments = h.segments
  realSize : h'.realSize = h.realSize
  limit : h'.limit = h.limit
  blockSize : h'.blockSize = h.blockSize

/-- Segments may have been given back. -/
structure Releases (h h' : Heap) : Prop where
  limit : h'.limit = h.limit
  accounted : h.Accounted → h'.Accounted

theorem Same.refl (h : Heap) : h.Same h := ⟨rfl, rfl, rfl, rfl⟩

variable {h' h : Heap}

theorem Same.trans {h'' : Heap} (h₁ : h.Same h') (h₂ : h'.Same h'') : h.Same h'' :=
  ⟨h₂.segments.trans h₁.segments, h₂.realSize.trans h₁.realSize, h₂.limit.trans h₁.limit,
    h₂.blockSize.trans h₁.blockSize⟩

theorem Same.releases (hs : h.Same h') : h.Releases h' := by
  refine ⟨hs.limit, fun ha => ?_⟩
  have htotal : h'.total = h.total := by rw [total, total, hs.segments]
  refine ⟨?_, ?_, ?_⟩
  · rw [hs.realSize, htotal, ha.sum]
  · rw [htotal]
    exact ha.room
  · rw [hs.realSize, hs.limit]
    exact ha.limit

theorem Releases.refl (h : Heap) : h.Releases h := (Same.refl h).releases

theorem Releases.trans {h'' : Heap} (h₁ : h.Releases h') (h₂ : h'.Releases h'') : h.Releases h'' :=
  ⟨h₂.limit.trans h₁.limit, fun ha => h₂.accounted (h₁.accounted ha)⟩

/-! ### What leaves the segments alone -/

theorem same_write (h : Heap) (a : Addr) (w : ℕ) : h.Same (h.write a w) := ⟨rfl, rfl, rfl, rfl⟩

theorem same_block (h : Heap) (b : Addr) (type : BlockType) (size : ℕ) : h.Same (h.block b type size) :=
  ⟨rfl, rfl, rfl, rfl⟩

theorem same_addToFreeList (h : Heap) (b : Addr) : h.Same (h.addToFreeList b) := by
  rw [addToFreeList]
  split <;> exact ⟨rfl, rfl, rfl, rfl⟩

variable {b : Addr} {size : ℕ} {r : Addr × ℕ}

theorem same_removeFromFreeList (hr : h.removeFromFreeList b = some h') : h.Same h' := by
  rw [removeFromFreeList] at hr
  split_ifs at hr
  · cases hr
    rw [removeFromRestList]
    split_ifs <;> exact ⟨rfl, rfl, rfl, rfl⟩
  · rw [removeFromBucket] at hr
    split at hr
    · cases hr
      exact ⟨rfl, rfl, rfl, rfl⟩
    · exact nomatch hr
  · rw [removeFromTrie] at hr
    obtain ⟨trie, -, rfl⟩ := map_eq_some_iff.1 hr
    exact ⟨rfl, rfl, rfl, rfl⟩

theorem same_trimRestList (fuel : ℕ) (h : Heap) : h.Same (trimRestList fuel h) := by
  induction fuel generalizing h with
  | zero => exact Same.refl h
  | succ fuel ih =>
    rw [trimRestList]
    split
    · split
      · exact Same.refl h
      next p rest _ =>
        have hpop : h.Same { h with
            restBuckets := rest
            restCount := if isSmall (h.freeBlockSize p) then h.restCount else h.restCount - 1 } := ⟨rfl, rfl, rfl, rfl⟩
        exact hpop.trans ((same_addToFreeList _ p).trans (ih _))
    · exact Same.refl h

theorem same_addToRestList (h : Heap) (b : Addr) : h.Same (h.addToRestList b) :=
  (same_trimRestList h.restBuckets.length h).trans ⟨rfl, rfl, rfl, rfl⟩

theorem same_carve (h : Heap) (b blockSize trueSize : ℕ) (keepRest : Bool) :
    h.Same (h.carve b blockSize trueSize keepRest) := by
  rw [carve]
  split
  · exact same_block ..
  refine (same_block h b .used trueSize).trans
    ((same_block _ (b + trueSize) .free (subSize blockSize trueSize)).trans ?_)
  simp only
  split
  · exact same_addToRestList _ _
  · exact same_addToFreeList _ _

/-- A free neighbour is taken off its list, or there is none. -/
theorem same_joined {α : Type} {p : Prop} [Decidable p] {x y : α} {r : Heap × α}
    (hj : (if p then (h.removeFromFreeList b).map fun h' => (h', x) else some (h, y)) = some r) : h.Same r.1 := by
  split_ifs at hj
  · obtain ⟨h₁, hremove, rfl⟩ := map_eq_some_iff.1 hj
    exact same_removeFromFreeList hremove
  · cases hj
    exact Same.refl h

variable {b : ℕ}

theorem same_joinNextPrev (hj : h.joinNextPrev b size = some (h', r)) : h.Same h' := by
  obtain ⟨⟨h₁, size₁⟩, hnext, hprev⟩ := bind_eq_some_iff.1 hj
  exact (same_joined hnext).trans (same_joined hprev)

theorem same_joinPrevNext (hj : h.joinPrevNext b size = some (h', r)) : h.Same h' := by
  obtain ⟨⟨h₁, b₁, size₁⟩, hprev, hrest⟩ := bind_eq_some_iff.1 hj
  obtain ⟨⟨h₂, size₂⟩, hnext, hpair⟩ := map_eq_some_iff.1 hrest
  cases hpair
  exact (same_joined hprev).trans (same_joined hnext)

/-! ### Segments that are given back -/

theorem subSize_eq {a : ℕ} (hle : b ≤ a) (ha : a < 2 ^ 64) : subSize a b = a - b := by
  rw [subSize, show a + 2 ^ 64 - b = (a - b) + 2 ^ 64 by omega, Nat.add_mod_right, Nat.mod_eq_of_lt (by omega)]

theorem total_erase {segment : Segment} (hmem : segment ∈ h.segments) :
    segment.size + ((h.segments.erase segment).map Segment.size).sum = h.total := by
  rw [total, ← List.sum_cons, ← List.map_cons]
  exact ((List.perm_cons_erase hmem).map Segment.size).sum_eq.symm

theorem releases_delSegment {a : Addr} (hd : h.delSegment a = some h') : h.Releases h' := by
  obtain ⟨segment, hfind, rfl⟩ := map_eq_some_iff.1 hd
  have htotal := total_erase (List.mem_of_find?_eq_some hfind)
  refine ⟨rfl, fun ha => ?_⟩
  have hsum := ha.sum
  have hroom := ha.room
  have hlimit := ha.limit
  have hreal : subSize h.realSize segment.size = h.realSize - segment.size := subSize_eq (by omega) (by omega)
  refine ⟨?_, ?_, ?_⟩
  · change subSize h.realSize segment.size = ((h.segments.erase segment).map Segment.size).sum
    omega
  · change ((h.segments.erase segment).map Segment.size).sum < 2 ^ 64
    omega
  · change subSize h.realSize segment.size ≤ h.limit
    omega

theorem releases_releaseOr {add : Heap} (hadd : h.Same add) (hr : h.releaseOr b size add = some h') :
    h.Releases h' := by
  rw [releaseOr] at hr
  split_ifs at hr
  · exact releases_delSegment hr
  · cases hr
    exact hadd.releases

theorem releases_freeCached (hf : h.freeCached b = some h') : h.Releases h' := by
  obtain ⟨⟨h₁, b₁, size₁⟩, hjoin, hrest⟩ := bind_eq_some_iff.1 hf
  have hcount : h.Same { h with cached := h.cached - h.blockSizeOf b } := ⟨rfl, rfl, rfl, rfl⟩
  have hsame := hcount.trans ((same_joinPrevNext hjoin).trans (same_block h₁ b₁ .free size₁))
  exact hsame.releases.trans (releases_releaseOr (same_addToFreeList _ _) hrest)

theorem releases_freeCacheList {blocks : List Addr} (hf : freeCacheList blocks h = some h') : h.Releases h' := by
  induction blocks generalizing h with
  | nil =>
    obtain rfl := some.inj hf
    exact Releases.refl h
  | cons b blocks ih =>
    obtain ⟨h₁, hfirst, hrest⟩ := bind_eq_some_iff.1 hf
    exact (releases_freeCached hfirst).trans (ih hrest)

theorem releases_freeCacheFrom {n index : ℕ} (hf : freeCacheFrom n index h = some h') : h.Releases h' := by
  induction n generalizing index h with
  | zero =>
    obtain rfl := some.inj hf
    exact Releases.refl h
  | succ n ih =>
    obtain ⟨h₁, hfirst, hrest⟩ := bind_eq_some_iff.1 hf
    have hclear : h₁.Same { h₁ with cache := Function.update h₁.cache index [] } := ⟨rfl, rfl, rfl, rfl⟩
    exact (releases_freeCacheList hfirst).trans (hclear.releases.trans (ih hrest))

theorem releases_freeJoin (hf : h.freeJoin b size = some h') : h.Releases h' := by
  obtain ⟨⟨h₁, b₁, size₁⟩, hjoin, hrest⟩ := bind_eq_some_iff.1 hf
  exact (same_joinNextPrev hjoin).releases.trans
    (releases_releaseOr ((same_block ..).trans (same_addToFreeList _ _)) hrest)

theorem releases_freeInt {p : Addr} (hf : h.freeInt p = some h') : h.Releases h' := by
  simp only [freeInt] at hf
  split_ifs at hf
  · obtain rfl := some.inj hf
    exact Releases.refl h
  · cases hf
    exact Same.releases ⟨rfl, rfl, rfl, rfl⟩
  · exact releases_freeJoin hf

variable {r : Option Addr}

/-- A call that ends in an error empties the cache. -/
theorem releases_freeCache_map (hf : h.freeCache.map (none, ·) = some (r, h')) : h.Releases h' := by
  obtain ⟨h₁, hfree, hpair⟩ := map_eq_some_iff.1 hf
  cases hpair
  exact releases_freeCacheFrom hfree

/-! ### Segments that are added or grow -/

end Heap

/-- Requests of `2 ^ 63` bytes or more fail. If the limit is larger than that, the address space has room for all the
segments as well. -/
structure Storage.Ok (st : Storage) (h : Heap) : Prop where
  alloc : ∀ n a, st.alloc n = some a → n < 2 ^ 63
  realloc : ∀ s n a, st.realloc s n = some a → n < 2 ^ 63
  /-- Room for a new segment. -/
  allocRoom : 2 ^ 63 < h.limit → ∀ n a, st.alloc n = some a → h.total + n < 2 ^ 64
  /-- Room for a segment in the place of another. -/
  reallocRoom : 2 ^ 63 < h.limit → ∀ s ∈ h.segments, ∀ n a, st.realloc s.addr n = some a →
    h.total - s.size + n < 2 ^ 64

variable {h h' : Heap}

theorem Storage.Ok.of_same {st : Storage} (hst : st.Ok h) (hs : h.Same h') : st.Ok h' := by
  refine ⟨hst.alloc, hst.realloc, ?_, ?_⟩
  · rw [hs.limit, Heap.total, hs.segments]
    exact hst.allocRoom
  · rw [hs.limit, Heap.total, hs.segments]
    exact hst.reallocRoom

variable {r : Option Addr}

namespace Heap

variable {h h' : Heap} {st : Storage} {trueSize : ℕ}

theorem accounted_allocNew (hst : st.Ok h) (ha : h.Accounted) (hc : h.allocNew st trueSize = some (r, h')) :
    h'.Accounted := by
  simp only [allocNew] at hc
  split at hc
  · exact (releases_freeCache_map hc).accounted ha
  next htest =>
    cases halloc : st.alloc (h.segmentSize trueSize).1 with
    | none =>
      rw [halloc] at hc
      exact (releases_freeCache_map hc).accounted ha
    | some a =>
      rw [halloc] at hc
      cases hc
      have hsize := hst.alloc _ _ halloc
      have hsum := ha.sum
      have hlimit := ha.limit
      have hfit : h.total + (h.segmentSize trueSize).1 < 2 ^ 64 := by
        rcases Nat.lt_or_ge (2 ^ 63) h.limit with hlarge | hsmall
        · exact hst.allocRoom hlarge _ _ halloc
        · omega
      have hexact : (h.realSize + (h.segmentSize trueSize).1) % 2 ^ 64 = h.total + (h.segmentSize trueSize).1 := by
        rw [hsum, Nat.mod_eq_of_lt hfit]
      rw [hexact] at htest
      refine (same_carve _ _ _ _ _).releases.accounted ⟨?_, ?_, ?_⟩
      · change (h.realSize + (h.segmentSize trueSize).1) % 2 ^ 64 = (h.segmentSize trueSize).1 + h.total
        omega
      · change (h.segmentSize trueSize).1 + h.total < 2 ^ 64
        omega
      · change (h.realSize + (h.segmentSize trueSize).1) % 2 ^ 64 ≤ h.limit
        omega

variable {b : Addr}

theorem accounted_allocFound (ha : h.Accounted) (hc : h.allocFound trueSize b = some (r, h')) : h'.Accounted := by
  obtain ⟨h₁, hremove, hpair⟩ := map_eq_some_iff.1 hc
  cases hpair
  exact ((same_removeFromFreeList hremove).trans (same_carve ..)).releases.accounted ha

theorem accounted_allocLarge (hst : st.Ok h) (ha : h.Accounted) (hc : h.allocLarge st trueSize = some (r, h')) :
    h'.Accounted := by
  rw [allocLarge] at hc
  split at hc
  · exact accounted_allocFound ha hc
  split at hc
  · split at hc
    · exact accounted_allocFound ha hc
    · exact accounted_allocNew hst ha hc
  · exact accounted_allocNew hst ha hc

variable {size : ℕ}

theorem accounted_allocInt (hst : st.Ok h) (ha : h.Accounted) (hc : h.allocInt st size = some (r, h')) :
    h'.Accounted := by
  simp only [allocInt] at hc
  split at hc
  · split at hc
    · cases hc
      exact ha
    · split at hc
      · cases hc
        exact ⟨ha.sum, ha.room, ha.limit⟩
      · split at hc
        · split at hc
          · exact accounted_allocFound ha hc
          · cases hc
        · exact accounted_allocLarge hst ha hc
  · exact accounted_allocLarge hst ha hc

theorem sum_replace {segments : List Segment} {segment new : Segment} (hmem : segment ∈ segments) :
    ((segments.replace segment new).map Segment.size).sum + segment.size =
      (segments.map Segment.size).sum + new.size := by
  induction segments with
  | nil => exact absurd hmem List.not_mem_nil
  | cons s segments ih =>
    rw [List.replace_cons]
    by_cases hs : s = segment
    · subst hs
      simp only [beq_self_eq_true, List.map_cons, List.sum_cons]
      omega
    · have hrest := ih ((List.mem_cons.1 hmem).resolve_left (Ne.symm hs))
      simp only [beq_eq_false_iff_ne.2 (Ne.symm hs), List.map_cons, List.sum_cons]
      omega

theorem accounted_reallocMoved {segment : Segment} {a : Addr} (ha : h.Accounted) (hmem : segment ∈ h.segments)
    (hfit : h.total - segment.size + size < 2 ^ 64)
    (htest : (h.realSize + subSize size segment.size) % 2 ^ 64 ≤ h.limit) :
    (h.reallocMoved st segment size trueSize a).Accounted := by
  have hsum := ha.sum
  have hroom := ha.room
  have hle := total_erase hmem
  have hreplace : ((h.segments.replace segment ⟨a, size⟩).map Segment.size).sum + segment.size = h.total + size :=
    sum_replace hmem
  -- Both the test and the new `real_size` wrap around when the segment shrinks, to the same exact difference.
  have hexact : (h.realSize + subSize size segment.size) % 2 ^ 64 = h.total - segment.size + size := by
    rw [hsum, subSize]
    omega
  have hmoved : (h.moveSegment st segment size a).Accounted := by
    refine ⟨?_, ?_, htest⟩
    · change (h.realSize + subSize size segment.size) % 2 ^ 64 =
        ((h.segments.replace segment ⟨a, size⟩).map Segment.size).sum
      omega
    · change ((h.segments.replace segment ⟨a, size⟩).map Segment.size).sum < 2 ^ 64
      omega
  have hsame : (h.moveSegment st segment size a).Same (h.reallocMoved st segment size trueSize a) := by
    rw [reallocMoved]
    refine .trans ?_ ((same_write _ _ _).trans (same_carve _ _ _ _ _))
    split
    · exact Same.refl _
    · exact same_write _ _ _
  exact hsame.releases.accounted hmoved

variable (hst : st.Ok h) (ha : h.Accounted)

include hst ha

theorem accounted_reallocSegment {b next : ℕ}
    (hc : h.reallocSegment st b trueSize next = some (r, h')) : h'.Accounted := by
  rw [reallocSegment] at hc
  split at hc
  · exact nomatch hc
  next segment hfind =>
    have hmem := List.mem_of_find?_eq_some hfind
    simp only at hc
    split at hc
    · have hadd : h.Same (if h.isFreeBlock next then h.addToFreeList next else h) := by
        split
        · exact same_addToFreeList _ _
        · exact Same.refl h
      exact (releases_freeCache_map hc).accounted (hadd.releases.accounted ha)
    next htest =>
      cases hrealloc : st.realloc segment.addr (h.segmentSize trueSize).1 with
      | none =>
        rw [hrealloc] at hc
        exact (releases_freeCache_map hc).accounted ha
      | some a =>
        rw [hrealloc] at hc
        cases hc
        have hsize := hst.realloc _ _ _ hrealloc
        have hsum := ha.sum
        have hlimit := ha.limit
        have hfit : h.total - segment.size + (h.segmentSize trueSize).1 < 2 ^ 64 := by
          rcases Nat.lt_or_ge (2 ^ 63) h.limit with hlarge | hsmall
          · exact hst.reallocRoom hlarge segment hmem _ _ hrealloc
          · omega
        exact accounted_reallocMoved ha hmem hfit (Nat.le_of_not_lt (not_or.1 htest).2)

theorem accounted_reallocCopy {p origSize : ℕ}
    (hc : h.reallocCopy st p size origSize = some (r, h')) : h'.Accounted := by
  obtain ⟨⟨r₁, h₁⟩, halloc, hrest⟩ := bind_eq_some_iff.1 hc
  have ha₁ := accounted_allocInt hst ha halloc
  cases r₁ with
  | none =>
    cases hrest
    exact ha₁
  | some ptr =>
    obtain ⟨h₂, hfree, hpair⟩ := map_eq_some_iff.1 hrest
    cases hpair
    exact (releases_freeInt hfree).accounted ⟨ha₁.sum, ha₁.room, ha₁.limit⟩

theorem accounted_reallocGrow {p : ℕ} (hc : h.reallocGrow st p size = some (r, h')) : h'.Accounted := by
  simp only [reallocGrow] at hc
  split at hc
  · split at hc
    · obtain ⟨h₁, hjoin, hpair⟩ := map_eq_some_iff.1 hc
      cases hpair
      obtain ⟨h₂, hremove, rfl⟩ := map_eq_some_iff.1 hjoin
      exact ((same_removeFromFreeList hremove).trans (same_carve ..)).releases.accounted ha
    · split at hc
      · obtain ⟨h₁, hremove, hsegment⟩ := bind_eq_some_iff.1 hc
        have hsame := same_removeFromFreeList hremove
        exact accounted_reallocSegment (hst.of_same hsame) (hsame.releases.accounted ha) hsegment
      · exact accounted_reallocCopy hst ha hc
  · split at hc
    · exact accounted_reallocSegment hst ha hc
    · exact accounted_reallocCopy hst ha hc

theorem accounted_reallocInt {p : ℕ} (hc : h.reallocInt st p size = some (r, h')) : h'.Accounted := by
  simp only [reallocInt] at hc
  split at hc
  · exact accounted_allocInt hst ha hc
  split at hc
  · cases hc
    exact ha
  split at hc
  · obtain ⟨h₁, hshrink, hpair⟩ := map_eq_some_iff.1 hc
    cases hpair
    simp only [reallocShrink] at hshrink
    split at hshrink
    · cases hshrink
      exact ha
    · obtain ⟨⟨h₂, size₂⟩, hjoin, rfl⟩ := map_eq_some_iff.1 hshrink
      exact ((same_joined hjoin).trans ((same_block ..).trans ((same_block ..).trans
        (same_addToFreeList _ _)))).releases.accounted ha
  · split at hc
    · split at hc
      · cases hc
        exact ⟨ha.sum, ha.room, ha.limit⟩
      · exact accounted_reallocGrow hst ha hc
    · exact accounted_reallocGrow hst ha hc

end Heap

/-! ### Runs -/

/-- A call on the heap. -/
inductive Call where
  /-- `_zend_mm_alloc_int`. -/
  | alloc (st : Storage) (size : ℕ)
  /-- `_zend_mm_free_int`. -/
  | free (p : Addr)
  /-- `_zend_mm_realloc_int`. -/
  | realloc (st : Storage) (p : Addr) (size : ℕ)

/-- What a call returns, and the heap after it. -/
def Heap.call (h : Heap) : Call → Option (Option Addr × Heap)
  | .alloc st size => h.allocInt st size
  | .free p => (h.freeInt p).map (none, ·)
  | .realloc st p size => h.reallocInt st p size

/-- The heap after a call, as long as the process has not ended. -/
def next (s : Option Heap) (c : Call) : Option Heap := s.bind fun h => (h.call c).map Prod.snd

/-- What is assumed of the storage during a call. -/
def Call.Ok (h : Heap) : Call → Prop
  | .alloc st _ => st.Ok h
  | .free _ => True
  | .realloc st _ _ => st.Ok h

theorem Heap.accounted_call {c : Call} (hc : c.Ok h) (ha : h.Accounted) (hcall : h.call c = some (r, h')) :
    h'.Accounted := by
  cases c with
  | alloc st size => exact accounted_allocInt hc ha hcall
  | free p =>
    obtain ⟨h₁, hfree, hpair⟩ := map_eq_some_iff.1 hcall
    cases hpair
    exact (releases_freeInt hfree).accounted ha
  | realloc st p size => exact accounted_reallocInt hc ha hcall

/-- After any run of a new heap with any limit, `real_size` is the sum of the sizes of the segments, and not larger than
the limit. -/
theorem accounted_run (mem : Addr → ℕ) (blockSize limit : ℕ) (calls : List Call)
    (hcalls : Along next (fun s c => ∀ h ∈ s, c.Ok h) (some ((startup mem blockSize).setMemoryLimit limit)) calls) :
    ∀ h ∈ run next (some ((startup mem blockSize).setMemoryLimit limit)) calls,
      h.realSize = (h.segments.map Segment.size).sum ∧ h.realSize ≤ h.limit := by
  have hinv := run_invariant (I := fun s : Option Heap => ∀ h ∈ s, h.Accounted) ?_ ?_ hcalls
  · intro h hh
    exact ⟨(hinv h hh).sum, (hinv h hh).limit⟩
  · intro s c hs hc h' hh'
    obtain ⟨h, hsome, hnext⟩ := bind_eq_some_iff.1 hh'
    obtain ⟨⟨r, h₁⟩, hcall, rfl⟩ := map_eq_some_iff.1 hnext
    exact Heap.accounted_call (hc h hsome) (hs h hsome) hcall
  · intro h hh
    cases hh
    exact ⟨rfl, Nat.two_pow_pos 64, Nat.zero_le _⟩

/-- Storage that answers every request below `2 ^ 63` bytes. -/
def sampleStorage : Storage where
  alloc n := if n < 2 ^ 63 then some 4096 else none
  realloc _ _ := none
  contents _ := 0

/-- 1000 bytes are allocated and freed under a limit of 128 MB. -/
theorem accounted_run_sample :
    (run next (some ((startup (fun _ => 0) 262144).setMemoryLimit 134217728))
      [.alloc sampleStorage 1000, .free 4128]).map Heap.realSize = some 0 ∧
    ∀ h ∈ run next (some ((startup (fun _ => 0) 262144).setMemoryLimit 134217728))
      [.alloc sampleStorage 1000, .free 4128],
      h.realSize = (h.segments.map Segment.size).sum ∧ h.realSize ≤ h.limit := by
  refine ⟨by decide +kernel, accounted_run _ _ _ _ ⟨?_, fun _ _ => trivial, trivial⟩⟩
  rintro h hh
  cases hh
  refine ⟨fun n a hn => ?_, fun s n a hn => (nomatch hn), fun hlarge => absurd hlarge (by decide),
    fun _ s _ n a hn => (nomatch hn)⟩
  by_contra hlarge
  change (if n < 2 ^ 63 then some 4096 else none) = some a at hn
  rw [if_neg hlarge] at hn
  exact nomatch hn

end PhpSandbox.Zend.Mm
