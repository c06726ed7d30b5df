import Mathlib.Algebra.Group.Int.Defs
import Mathlib.Algebra.Group.Nat.Defs
import Mathlib.Logic.Function.Basic

/-!
# The Zend memory manager

This module models the heap of `Zend/zend_alloc.c`: `_zend_mm_alloc_int`, `_zend_mm_free_int` and `_zend_mm_realloc_int`
with the free lists, the tries of large blocks, the cache and the segments they work on, for a 64-bit build without
debugging (no cookies, no magic numbers; safe unlinking is on).

## The model

Memory is a word (`size_t`) for each address. A block starts with the words `_size` and `_prev`; the two low bits of
each are the type of the block or of the one before it, and since sizes are multiples of 8, `type | size` is
`size + type`. All sizes and addresses are in `size_t`, and arithmetic that can wrap around is modulo `2 ^ 64`.

The links of the lists are not in memory: a circular list with its bucket as sentinel is the list of its blocks from
`next_free_block` of the sentinel on, and the trie of a bucket is a tree. A node of the tree is the block that has a
`parent`, with the other blocks of its size in the order of their `next_free_block`. A bitmap is the function that says
which bits are set. The list of segments has the sizes of the segments beside their addresses.

The storage answers each request with an address or fails; what is in memory that it hands out is arbitrary. A function
that reports an error with `zend_mm_safe_error`, which does not return, has the result `none`, with the heap as it is
then; the freeing of `heap->reserve` there is a call of its own. The whole result is missing where the source ends the
process: a block that is not linked is unlinked (`zend_mm_panic`), or a segment is not in the list. Statistics (`size`,
`peak`, `real_peak`) are left out.
-/

namespace PhpSandbox.Zend.Mm

open Function

/-- An address, in bytes. -/
abbrev Addr := ℕ

/-! ### Sizes -/

/-- `a - b` in `size_t`. -/
def subSize (a b : ℕ) : ℕ := (a + 2 ^ 64 - b) % 2 ^ 64

variable (size : ℕ)

/-- `ZEND_MM_TRUE_SIZE`. -/
def trueSize : ℕ := if size < 16 then 32 else (size + 16 + 7) % 2 ^ 64 / 8 * 8

/-- `ZEND_MM_SMALL_SIZE`. -/
def isSmall : Bool := size < 544

/-- `ZEND_MM_BUCKET_INDEX`. -/
def bucketIndex : ℕ := size / 8 - 4

/-- `zend_mm_high_bit`. -/
def highBit : ℕ := Nat.log2 size

/-- `index + zend_mm_low_bit(bitmap >> index)`, if a bit is set. -/
def lowBitFrom (bitmap : ℕ → Bool) (index : ℕ) : Option ℕ := (List.range' index (64 - index)).find? bitmap

/-! ### Tries -/

/-- `large_free_buckets[index]`, or a child of a block in it. -/
inductive Trie where
  /-- `NULL`. -/
  | nil
  /-- A block, the blocks behind it in its circular list, and its children. -/
  | node (block : Addr) (ring : List Addr) (child₀ child₁ : Trie)

namespace Trie

/-- Whether a pointer is `NULL`. -/
def isNil : Trie → Bool
  | nil => true
  | node .. => false

/-- The loop of `zend_mm_add_to_free_list`. -/
def insert (sizeOf : Addr → ℕ) (b size : ℕ) : ℕ → Trie → Trie
  | _, nil => node b [] nil nil
  | m, node block ring child₀ child₁ =>
    if sizeOf block ≠ size then
      if m / 2 ^ 63 % 2 = 0 then node block ring (insert sizeOf b size (m * 2 % 2 ^ 64) child₀) child₁
      else node block ring child₀ (insert sizeOf b size (m * 2 % 2 ^ 64) child₁)
    else node block (b :: ring) child₀ child₁

/-- The leaf at the end of `child[child[1] != NULL]`, with its circular list, and the trie without it. -/
def takeLeaf : Trie → Option ((Addr × List Addr) × Trie)
  | nil => none
  | node block ring child₀ child₁ =>
    match child₁.takeLeaf with
    | some (leaf, rest) => some (leaf, node block ring child₀ rest)
    | none =>
      match child₀.takeLeaf with
      | some (leaf, rest) => some (leaf, node block ring rest child₁)
      | none => some ((block, ring), nil)

/-- What takes the place of a block that has a `parent`: the last of its circular list, or a leaf below it. -/
def removeRoot (ring : List Addr) (child₀ child₁ : Trie) : Trie :=
  match ring.getLast? with
  | some prev => node prev ring.dropLast child₀ child₁
  | none =>
    match child₁.takeLeaf with
    | some ((prev, ring), rest) => node prev ring child₀ rest
    | none =>
      match child₀.takeLeaf with
      | some ((prev, ring), rest) => node prev ring rest child₁
      | none => nil

/-- `zend_mm_remove_from_free_list` in a trie. -/
def remove (b : Addr) : Trie → Option Trie
  | nil => none
  | node block ring child₀ child₁ =>
    if b = block then some (removeRoot ring child₀ child₁)
    else if b ∈ ring then some (node block (ring.erase b) child₀ child₁)
    else
      match child₀.remove b with
      | some rest => some (node block ring rest child₁)
      | none => (child₁.remove b).map (node block ring child₀)

/-- `next_free_block` of a block that has a `parent`. -/
def nextFreeBlock (block : Addr) (ring : List Addr) : Addr := ring.headD block

/-- A block that fits and its size, or the block that fits exactly. -/
inductive Found where
  /-- The size is `true_size`. -/
  | exact (b : Addr)
  /-- `best_fit`, if there is one, with its size and its `next_free_block`. -/
  | best (best : Option (ℕ × Addr))

/-- `p` against `best_fit`. -/
def better (best : Option (ℕ × Addr)) (size : ℕ) (next : Addr) : Option (ℕ × Addr) :=
  match best with
  | none => some (size, next)
  | some (bestSize, b) => if size < bestSize then some (size, next) else some (bestSize, b)

/-- The second loop of `zend_mm_search_large_block`: from `rst` on. A block without `child[0]` ends it, as the index of
the child is `child[0] != NULL`. -/
def searchRest (sizeOf : Addr → ℕ) (trueSize : ℕ) (best : Option (ℕ × Addr)) : Trie → Found
  | nil => .best best
  | node block ring child₀ child₁ =>
    if sizeOf block = trueSize then .exact (nextFreeBlock block ring)
    else
      let best := if trueSize < sizeOf block then better best (sizeOf block) (nextFreeBlock block ring) else best
      if child₀.isNil then .best best else searchRest sizeOf trueSize best child₁

/-- The first loop of `zend_mm_search_large_block`, with `rst`. -/
def search (sizeOf : Addr → ℕ) (trueSize : ℕ) : Option (ℕ × Addr) → Trie → ℕ → Trie → Found
  | best, rst, _, nil => searchRest sizeOf trueSize best rst
  | best, rst, m, node block ring child₀ child₁ =>
    if sizeOf block = trueSize then .exact (nextFreeBlock block ring)
    else
      let best := if trueSize ≤ sizeOf block then better best (sizeOf block) (nextFreeBlock block ring) else best
      if m / 2 ^ 63 % 2 = 0 then
        search sizeOf trueSize best (if child₁.isNil then rst else child₁) (m * 2 % 2 ^ 64) child₀
      else search sizeOf trueSize best rst (m * 2 % 2 ^ 64) child₁

/-- The last loop of `zend_mm_search_large_block`. -/
def searchSmallest (sizeOf : Addr → ℕ) (best : ℕ × Addr) : Trie → Addr
  | nil => best.2
  | node block ring child₀ child₁ =>
    let best := if sizeOf block < best.1 then (sizeOf block, nextFreeBlock block ring) else best
    if child₀.isNil then best.2 else searchSmallest sizeOf best child₁

end Trie

/-! ### The heap -/

/-- `zend_mm_segment`. -/
structure Segment where
  /-- Where it is. -/
  addr : Addr
  size : ℕ
  deriving DecidableEq

/-- `zend_mm_heap`. -/
structure Heap where
  /-- The memory. -/
  mem : Addr → ℕ
  /-- `segments_list`. -/
  segments : List Segment
  realSize : ℕ
  limit : ℕ
  blockSize : ℕ
  cache : ℕ → List Addr
  cached : ℕ
  freeBitmap : ℕ → Bool
  freeBuckets : ℕ → List Addr
  largeFreeBitmap : ℕ → Bool
  largeFreeBuckets : ℕ → Trie
  restBuckets : List Addr
  restCount : ℤ

/-- The storage during a call. -/
structure Storage where
  /-- `ZEND_MM_STORAGE_ALLOC`. -/
  alloc : ℕ → Option Addr
  /-- `ZEND_MM_STORAGE_REALLOC`. -/
  realloc : Addr → ℕ → Option Addr
  /-- What is in new memory. -/
  contents : Addr → ℕ

/-- `ZEND_MM_FREE_BLOCK`, `ZEND_MM_USED_BLOCK`: the type of a block. -/
inductive BlockType where
  /-- A free block. -/
  | free
  /-- A block that is in use or in the cache. -/
  | used

/-- The bits of a type. -/
def BlockType.bits : BlockType → ℕ
  | free => 0
  | used => 1

/-- `ZEND_MM_GUARD_BLOCK`. -/
def guardBlock : ℕ := 3

/-- `zend_mm_startup_ex` before the reserve is allocated. -/
def startup (mem : Addr → ℕ) (blockSize : ℕ) : Heap where
  mem := mem
  segments := []
  realSize := 0
  limit := 2 ^ 62
  blockSize := blockSize
  cache := fun _ => []
  cached := 0
  freeBitmap := fun _ => false
  freeBuckets := fun _ => []
  largeFreeBitmap := fun _ => false
  largeFreeBuckets := fun _ => .nil
  restBuckets := []
  restCount := 0

namespace Heap

variable (h : Heap) (b : Addr)

/-- `ZEND_MM_BLOCK_SIZE`. -/
def blockSizeOf : ℕ := h.mem b / 4 * 4

/-- `ZEND_MM_IS_FREE_BLOCK`. -/
def isFreeBlock : Bool := h.mem b % 2 = 0

/-- `ZEND_MM_IS_GUARD_BLOCK`. -/
def isGuardBlock : Bool := h.mem b % 4 = guardBlock

/-- `ZEND_MM_PREV_BLOCK_IS_FREE`. -/
def prevBlockIsFree : Bool := h.mem (b + 8) % 2 = 0

/-- `ZEND_MM_PREV_BLOCK`. -/
def prevBlock : Addr := b - h.mem (b + 8) / 4 * 4

/-- `ZEND_MM_IS_FIRST_BLOCK`. -/
def isFirstBlock : Bool := h.mem (b + 8) = guardBlock

/-- `ZEND_MM_FREE_BLOCK_SIZE`. -/
def freeBlockSize : ℕ := h.mem b

/-- A word is written. -/
def write (a : Addr) (w : ℕ) : Heap := { h with mem := update h.mem a w }

/-- `ZEND_MM_BLOCK`. -/
def block (type : BlockType) (size : ℕ) : Heap :=
  (h.write b (size + type.bits)).write (b + size + 8) (size + type.bits)

/-- `ZEND_MM_MARK_FIRST_BLOCK`. -/
def markFirstBlock : Heap := h.write (b + 8) guardBlock

/-- `ZEND_MM_LAST_BLOCK`. -/
def lastBlock : Heap := h.write b (16 + guardBlock)

/-! ### Free lists -/

/-- `zend_mm_add_to_free_list`. -/
def addToFreeList : Heap :=
  let size := h.freeBlockSize b
  if isSmall size then
    let index := bucketIndex size
    { h with
      freeBitmap := if h.freeBuckets index = [] then update h.freeBitmap index true else h.freeBitmap
      freeBuckets := update h.freeBuckets index (b :: h.freeBuckets index) }
  else
    let index := highBit size
    { h with
      largeFreeBitmap := if (h.largeFreeBuckets index).isNil then update h.largeFreeBitmap index true
        else h.largeFreeBitmap
      largeFreeBuckets := update h.largeFreeBuckets index
        ((h.largeFreeBuckets index).insert h.freeBlockSize b size (size * 2 ^ (64 - index) % 2 ^ 64)) }

/-- `zend_mm_remove_from_free_list` for a block of the rest list. For a small block the bit of its bucket is cleared as
if it had been in the bucket. -/
def removeFromRestList : Heap :=
  let size := h.freeBlockSize b
  let rest := { h with restBuckets := h.restBuckets.erase b }
  if isSmall size then
    if h.restBuckets = [b] ∧ (h.freeBuckets (bucketIndex size)).length ≤ 1 then
      { rest with freeBitmap := update h.freeBitmap (bucketIndex size) false }
    else rest
  else { rest with restCount := h.restCount - 1 }

/-- `zend_mm_remove_from_free_list` for a block of a small bucket. -/
def removeFromBucket : Option Heap :=
  let index := bucketIndex (h.freeBlockSize b)
  if b ∈ h.freeBuckets index then
    let blocks := (h.freeBuckets index).erase b
    some { h with
      freeBitmap := if blocks = [] then update h.freeBitmap index false else h.freeBitmap
      freeBuckets := update h.freeBuckets index blocks }
  else none

/-- `zend_mm_remove_from_free_list` for a block of a trie. -/
def removeFromTrie : Option Heap :=
  let index := highBit (h.freeBlockSize b)
  ((h.largeFreeBuckets index).remove b).map fun trie =>
    { h with
      largeFreeBitmap := if trie.isNil then update h.largeFreeBitmap index false else h.largeFreeBitmap
      largeFreeBuckets := update h.largeFreeBuckets index trie }

/-- `zend_mm_remove_from_free_list`. -/
def removeFromFreeList : Option Heap :=
  if b ∈ h.restBuckets then some (h.removeFromRestList b)
  else if isSmall (h.freeBlockSize b) then h.removeFromBucket b
  else h.removeFromTrie b

/-- The loop of `zend_mm_add_to_rest_list`. -/
def trimRestList : ℕ → Heap → Heap
  | 0, h => h
  | fuel + 1, h =>
    if 16 ≤ h.restCount then
      match h.restBuckets with
      | [] => h
      | p :: rest =>
        trimRestList fuel (addToFreeList { h with
          restBuckets := rest
          restCount := if isSmall (h.freeBlockSize p) then h.restCount else h.restCount - 1 } p)
    else h

/-- `zend_mm_add_to_rest_list`. -/
def addToRestList : Heap :=
  let h := trimRestList h.restBuckets.length h
  { h with
    restBuckets := h.restBuckets ++ [b]
    restCount := if isSmall (h.freeBlockSize b) then h.restCount else h.restCount + 1 }

/-- The end of `zend_mm_search_large_block`: a block of the first trie from `index` on. -/
def searchFrom (index : ℕ) : Option Addr :=
  (lowBitFrom h.largeFreeBitmap index).bind fun i =>
    match h.largeFreeBuckets i with
    | .nil => none
    | .node block ring child₀ child₁ =>
      let best := (h.freeBlockSize block, Trie.nextFreeBlock block ring)
      some (if child₀.isNil then best.2 else Trie.searchSmallest h.freeBlockSize best child₁)

/-- `zend_mm_search_large_block`. -/
def searchLargeBlock (trueSize : ℕ) : Option Addr :=
  let index := highBit trueSize
  if h.largeFreeBitmap index then
    match Trie.search h.freeBlockSize trueSize none .nil (trueSize * 2 ^ (64 - index) % 2 ^ 64)
      (h.largeFreeBuckets index) with
    | .exact b => some b
    | .best (some (_, b)) => some b
    | .best none => h.searchFrom (index + 1)
  else h.searchFrom index

/-- The search of the rest list: `p` goes from the last block to the first. -/
def searchRestList (trueSize : ℕ) : List Addr → Option (ℕ × Addr) → Option Addr
  | [], best => best.map Prod.snd
  | p :: ps, best =>
    if h.freeBlockSize p = trueSize then some p
    else
      let best := if trueSize < h.freeBlockSize p then Trie.better best (h.freeBlockSize p) p else best
      searchRestList trueSize ps best

/-! ### Segments -/

/-- `zend_mm_del_segment`. -/
def delSegment (a : Addr) : Option Heap :=
  (h.segments.find? (·.addr = a)).map fun segment =>
    { h with segments := h.segments.erase segment, realSize := subSize h.realSize segment.size }

/-- The block at `next` is joined to a block of `size` bytes in front of it, if it is free. -/
def joinNext (next size : ℕ) : Option (Heap × ℕ) :=
  if h.isFreeBlock next then (h.removeFromFreeList next).map fun h' => (h', size + h.freeBlockSize next)
  else some (h, size)

variable (b size : ℕ)

/-- The block in front of `b` is joined to it, if it is free. -/
def joinPrev : Option (Heap × Addr × ℕ) :=
  if h.prevBlockIsFree b then
    (h.removeFromFreeList (h.prevBlock b)).map fun h' => (h', h.prevBlock b, size + h.freeBlockSize (h.prevBlock b))
  else some (h, b, size)

/-- `mm_block` and `size` after both neighbours were joined, `next_block` first, as in `_zend_mm_free_int`. -/
def joinNextPrev : Option (Heap × Addr × ℕ) :=
  (h.joinNext (b + size) size).bind fun next => next.1.joinPrev b next.2

/-- The same with the block in front first, as in `zend_mm_free_cache`. -/
def joinPrevNext : Option (Heap × Addr × ℕ) :=
  (h.joinPrev b size).bind fun prev => (prev.1.joinNext (b + size) prev.2.2).map fun next => (next.1, prev.2.1, next.2)

/-- A free block, which has to go to a list: if it is all of its segment, the segment is given back instead. -/
def releaseOr (add : Heap) : Option Heap :=
  if h.isFirstBlock b && h.isGuardBlock (b + size) then h.delSegment (b - 16) else some add

/-- A cached block is freed. -/
def freeCached (b : Addr) : Option Heap :=
  ({ h with cached := h.cached - h.blockSizeOf b }.joinPrevNext b (h.blockSizeOf b)).bind fun joined =>
    let h := joined.1.block joined.2.1 .free joined.2.2
    h.releaseOr joined.2.1 joined.2.2 (h.addToFreeList joined.2.1)

/-- The blocks of one bucket of the cache are freed. -/
def freeCacheList : List Addr → Heap → Option Heap
  | [], h => some h
  | b :: blocks, h => (h.freeCached b).bind (freeCacheList blocks)

/-- `zend_mm_free_cache` from the bucket `index` on. -/
def freeCacheFrom : ℕ → ℕ → Heap → Option Heap
  | 0, _, h => some h
  | n + 1, index, h => (freeCacheList (h.cache index) h).bind fun h =>
    freeCacheFrom n (index + 1) { h with cache := update h.cache index [] }

/-- `zend_mm_free_cache`. -/
def freeCache : Option Heap := freeCacheFrom 64 0 h

/-- `segment_size` for a block, and whether it is larger than `block_size` (`keep_rest`). -/
def segmentSize (trueSize : ℕ) : ℕ × Bool :=
  if h.blockSize - 32 < trueSize then
    (((trueSize + 16 + 16) % 2 ^ 64 + (h.blockSize - 1)) % 2 ^ 64 / h.blockSize * h.blockSize, true)
  else (h.blockSize, false)

/-- A block of `blockSize` bytes is used for `trueSize` bytes; the rest becomes a free block if it is large enough. -/
def carve (b blockSize trueSize : ℕ) (keepRest : Bool) : Heap :=
  let remaining := subSize blockSize trueSize
  if remaining < 32 then h.block b .used blockSize
  else
    let h := (h.block b .used trueSize).block (b + trueSize) .free remaining
    if keepRest then h.addToRestList (b + trueSize) else h.addToFreeList (b + trueSize)

/-- The memory with what the storage has in `[a, a + size)`. -/
def withContents (a size : ℕ) (contents : Addr → ℕ) : Heap :=
  { h with mem := fun x => if a ≤ x ∧ x < a + size then contents x else h.mem x }

/-! ### Allocation -/

/-- `zend_mm_finished_searching_for_block`. -/
def allocFound (trueSize : ℕ) (b : Addr) : Option (Option Addr × Heap) :=
  (h.removeFromFreeList b).map fun h => (some (b + 16), h.carve b (h.freeBlockSize b) trueSize false)

variable (st : Storage)

/-- A new segment at `a`, and its first block. -/
def allocSegment (trueSize size : ℕ) (keepRest : Bool) (a : Addr) : Heap :=
  let h := { h.withContents a size st.contents with
    realSize := (h.realSize + size) % 2 ^ 64
    segments := ⟨a, size⟩ :: h.segments }
  ((h.markFirstBlock (a + 16)).lastBlock (a + 16 + (size - 32))).carve (a + 16) (size - 32) trueSize keepRest

/-- `_zend_mm_alloc_int` when no free block was found. -/
def allocNew (trueSize : ℕ) : Option (Option Addr × Heap) :=
  let (size, keepRest) := h.segmentSize trueSize
  if size < trueSize ∨ h.limit < (h.realSize + size) % 2 ^ 64 then h.freeCache.map (none, ·)
  else
    match st.alloc size with
    | none => h.freeCache.map (none, ·)
    | some a => some (some (a + 16 + 16), h.allocSegment st trueSize size keepRest a)

/-- `_zend_mm_alloc_int` after the cache and the small buckets. -/
def allocLarge (trueSize : ℕ) : Option (Option Addr × Heap) :=
  match h.searchLargeBlock trueSize with
  | some b => h.allocFound trueSize b
  | none =>
    if subSize h.limit h.blockSize ≤ h.realSize then
      match h.searchRestList trueSize h.restBuckets.reverse none with
      | some b => h.allocFound trueSize b
      | none => h.allocNew st trueSize
    else h.allocNew st trueSize

/-- `_zend_mm_alloc_int`. -/
def allocInt (size : ℕ) : Option (Option Addr × Heap) :=
  let trueSize := trueSize size
  if isSmall trueSize then
    let index := bucketIndex trueSize
    if trueSize < size then some (none, h)
    else
      match h.cache index with
      | b :: blocks =>
        some (some (b + 16), { h with cache := update h.cache index blocks, cached := h.cached - trueSize })
      | [] =>
        match lowBitFrom h.freeBitmap index with
        | some i =>
          match (h.freeBuckets i).getLast? with
          | some b => h.allocFound trueSize b
          | none => none
        | none => h.allocLarge st trueSize
  else h.allocLarge st trueSize

/-! ### Freeing -/

/-- `_zend_mm_free_int` when the block does not go to the cache. -/
def freeJoin (b size : ℕ) : Option Heap :=
  (h.joinNextPrev b size).bind fun joined =>
    let h := joined.1
    h.releaseOr joined.2.1 joined.2.2 ((h.block joined.2.1 .free joined.2.2).addToFreeList joined.2.1)

/-- `_zend_mm_free_int`. -/
def freeInt (p : Addr) : Option Heap :=
  if p = 0 then some h
  else
    let b := p - 16
    let size := h.blockSizeOf b
    if isSmall size && h.cached < 64 * 4 * 1024 then
      let index := bucketIndex size
      some { h with cache := update h.cache index (b :: h.cache index), cached := h.cached + size }
    else h.freeJoin b size

/-! ### Reallocation -/

/-- `memcpy(ptr, p, n)`. -/
def memcpy (ptr p n : ℕ) : Heap :=
  { h with mem := fun x => if ptr ≤ x ∧ x < ptr + n then h.mem (p + (x - ptr)) else h.mem x }

/-- `_zend_mm_realloc_int` to a size that is not larger. -/
def reallocShrink (b trueSize : ℕ) : Option Heap :=
  let origSize := h.blockSizeOf b
  if origSize - trueSize < 32 then some h
  else
    (h.joinNext (b + origSize) (origSize - trueSize)).map fun next =>
      ((next.1.block b .used trueSize).block (b + trueSize) .free next.2).addToFreeList (b + trueSize)

/-- `_zend_mm_realloc_int` with a block `fit` of the cache. -/
def reallocCached (p b trueSize : ℕ) (fit : Addr) (blocks : List Addr) : Heap :=
  let origSize := h.blockSizeOf b
  let h := { h with cache := update h.cache (bucketIndex trueSize) blocks }.memcpy (fit + 16) p (origSize - 16)
  let index := bucketIndex origSize
  { h with
    cache := update h.cache index (b :: h.cache index)
    cached := h.cached - (trueSize - origSize) }

/-- `_zend_mm_realloc_int` into the free block behind. -/
def reallocJoin (b trueSize : ℕ) : Option Heap :=
  let origSize := h.blockSizeOf b
  let next := b + origSize
  let blockSize := origSize + h.freeBlockSize next
  (h.removeFromFreeList next).map fun h =>
    h.carve b blockSize trueSize (h.isFirstBlock b && h.isGuardBlock (b + blockSize))

/-- The segment after `ZEND_MM_STORAGE_REALLOC`: what was in it is at its new place. -/
def moveSegment (segment : Segment) (size : ℕ) (a : Addr) : Heap :=
  let moved := h.withContents a size st.contents
  { moved.withContents a (min segment.size size) (fun x => h.mem (segment.addr + (x - a))) with
    realSize := (h.realSize + subSize size segment.size) % 2 ^ 64
    segments := h.segments.replace segment ⟨a, size⟩ }

/-- The block of a segment that was moved or grew in its place. -/
def reallocMoved (segment : Segment) (size trueSize : ℕ) (a : Addr) : Heap :=
  let h := h.moveSegment st segment size a
  let h := if a = segment.addr then h else h.markFirstBlock (a + 16)
  (h.lastBlock (a + 16 + (size - 32))).carve (a + 16) (size - 32) trueSize true

/-- `realloc_segment`, where `next` is the block behind, which is in no list if it is free. -/
def reallocSegment (b trueSize : ℕ) (next : Addr) : Option (Option Addr × Heap) :=
  match h.segments.find? (·.addr = b - 16) with
  | none => none
  | some segment =>
    let size := (h.segmentSize trueSize).1
    if size < trueSize ∨ h.limit < (h.realSize + subSize size segment.size) % 2 ^ 64 then
      (if h.isFreeBlock next then h.addToFreeList next else h).freeCache.map (none, ·)
    else
      match st.realloc segment.addr size with
      | none => h.freeCache.map (none, ·)
      | some a => some (some (a + 16 + 16), h.reallocMoved st segment size trueSize a)

/-- The end of `_zend_mm_realloc_int`: a new block, a copy, and the old block is freed. -/
def reallocCopy (p size origSize : ℕ) : Option (Option Addr × Heap) :=
  (h.allocInt st size).bind fun new =>
    match new.1 with
    | none => some (none, new.2)
    | some ptr => ((new.2.memcpy ptr p (origSize - 16)).freeInt p).map (some ptr, ·)

/-- `_zend_mm_realloc_int` to a larger size, when there is nothing in the cache. -/
def reallocGrow (p size : ℕ) : Option (Option Addr × Heap) :=
  let b := p - 16
  let origSize := h.blockSizeOf b
  let next := b + origSize
  let trueSize := trueSize size
  if h.isFreeBlock next then
    if trueSize ≤ origSize + h.freeBlockSize next then (h.reallocJoin b trueSize).map (some p, ·)
    else if h.isFirstBlock b && h.isGuardBlock (next + h.freeBlockSize next) then
      (h.removeFromFreeList next).bind fun h => h.reallocSegment st b trueSize next
    else h.reallocCopy st p size origSize
  else if h.isFirstBlock b && h.isGuardBlock next then h.reallocSegment st b trueSize next
  else h.reallocCopy st p size origSize

/-- `_zend_mm_realloc_int`. -/
def reallocInt (p size : ℕ) : Option (Option Addr × Heap) :=
  if p = 0 then h.allocInt st size
  else
    let b := p - 16
    let trueSize := trueSize size
    if trueSize < size then some (none, h)
    else if trueSize ≤ h.blockSizeOf b then (h.reallocShrink b trueSize).map (some p, ·)
    else if isSmall trueSize then
      match h.cache (bucketIndex trueSize) with
      | fit :: blocks => some (some (fit + 16), h.reallocCached p b trueSize fit blocks)
      | [] => h.reallocGrow st p size
    else h.reallocGrow st p size

/-- `zend_set_memory_limit`. -/
def setMemoryLimit (limit : ℕ) : Heap := { h with limit := if h.blockSize ≤ limit then limit else h.blockSize }

end Heap

end PhpSandbox.Zend.Mm
