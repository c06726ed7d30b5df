import PhpSandbox.Lib.LinkedList
import PhpSandbox.Zend.Symtable

/-!
# Hash tables

`Zend/zend_hash.c`: the buckets of a table are in one list, in the order in which they were put there, and each is
in the chain of a slot, for its hash value. Both are doubly linked.

## The model

Memory is kept by fields: for each field of `Bucket` that is a link there is a function from addresses to links, and
the rest of a bucket is in `bucket`, which is `none` where there is no bucket. `pemalloc` gives an address that was
never used. `ulong` is `UInt64`, and the counters that are `uint` are numbers below `2 ^ 32`.

Keys are values: a string key is its bytes, and whether it is interned. Where the source compares the addresses of
two keys first, equal addresses mean equal keys, so the comparison is that of the keys. The destructor of data is
left out.

A loop that follows links takes as many steps as there were buckets at most; `none` is a loop that goes on, or a
current element that is gone.
-/

namespace PhpSandbox.Zend

open Lib Function

/-- The address of a bucket. -/
abbrev Ptr := ℕ

/-- `(long) h`. -/
def asLong (h : UInt64) : ℤ := (h.toNat : ℤ).bmod (2 ^ 64)

/-- `LONG_MAX` as `ulong`. -/
def ulongMax : UInt64 := 0x7fffffffffffffff

/-- A string key; `nKeyLength` counts the NUL behind it. -/
structure Str where
  /-- The bytes. -/
  val : Bytes
  /-- `IS_INTERNED`. -/
  interned : Bool
  deriving DecidableEq

/-- `zend_inline_hash_func`, of the bytes and the NUL; `char` has a sign. -/
def zendInlineHashFunc (arKey : Bytes) : UInt64 :=
  (arKey ++ [0]).foldl (fun hash (c : UInt8) => (hash <<< 5) + hash + c.toInt8.toInt64.toUInt64) 5381

/-- A bucket, but for its links. -/
structure Bucket (V : Type) where
  /-- The hash value, or the index. -/
  h : UInt64
  /-- The string key; `none` if `nKeyLength` is 0. -/
  arKey : Option Str
  /-- The data. -/
  pData : V

open Bucket

/-- `nKeyLength`. -/
def keyLength (arKey : Option Str) : ℕ :=
  match arKey with
  | some s => s.val.length + 1
  | none => 0

/-- `IS_INTERNED`, which `NULL` is not. -/
def isInterned (arKey : Option Str) : Bool := arKey.any Str.interned

/-- A `HashTable`, and the memory. -/
structure HashTable (V : Type) where
  /-- The number of slots. -/
  nTableSize : ℕ
  /-- The mask for slots; 0 if there are none yet. -/
  nTableMask : ℕ
  /-- The number of elements, a `uint`. -/
  nNumOfElements : ℕ
  /-- The index for the next element. -/
  nNextFreeElement : UInt64
  /-- The position. -/
  pInternalPointer : Option Ptr
  /-- The first bucket. -/
  pListHead : Option Ptr
  /-- The last one. -/
  pListTail : Option Ptr
  /-- The first bucket of each slot. -/
  arBuckets : ℕ → Option Ptr
  /-- The buckets. -/
  bucket : Ptr → Option (Bucket V)
  /-- The next bucket of the list. -/
  pListNext : Ptr → Option Ptr
  /-- The one before. -/
  pListLast : Ptr → Option Ptr
  /-- The next bucket of the slot. -/
  pNext : Ptr → Option Ptr
  /-- The one before. -/
  pLast : Ptr → Option Ptr
  /-- The next address. -/
  brk : Ptr

/-- The number of slots for a size that is asked for: `while ((1U << i) < nSize) i++`. -/
def growTo (nSize : ℕ) : ℕ → ℕ → ℕ
  | 0, i => i
  | n + 1, i => if 2 ^ i < nSize then growTo nSize n (i + 1) else i

/-- `_zend_hash_init`. -/
def zendHashInit (V : Type) (nSize : ℕ) : HashTable V where
  nTableSize := if 0x80000000 ≤ nSize then 0x80000000 else 2 ^ growTo nSize 28 3
  nTableMask := 0
  nNumOfElements := 0
  nNextFreeElement := 0
  pInternalPointer := none
  pListHead := none
  pListTail := none
  arBuckets := fun _ => none
  bucket := fun _ => none
  pListNext := fun _ => none
  pListLast := fun _ => none
  pNext := fun _ => none
  pLast := fun _ => none
  brk := 0

namespace HashTable

variable {V : Type} (t : HashTable V)

/-! ### The parts of the operations -/

/-- The slot for a hash value. -/
def slot (h : UInt64) : ℕ := h.toNat &&& t.nTableMask

variable (p : Ptr)

/-- `p->h`. -/
def hashOf : UInt64 := ((t.bucket p).map h).getD 0

/-- `CHECK_INIT`. -/
def checkInit : HashTable V :=
  if t.nTableMask = 0 then { t with arBuckets := fun _ => none, nTableMask := t.nTableSize - 1 } else t

variable (element : Ptr)

/-- `CONNECT_TO_BUCKET_DLLIST` with the first bucket of a slot, and `ht->arBuckets[nIndex] = p`. -/
def connectToBucketDllist (nIndex : ℕ) : HashTable V :=
  { t with
    pNext := update t.pNext element (t.arBuckets nIndex)
    pLast := setAt (update t.pLast element none) (t.arBuckets nIndex) (some element)
    arBuckets := update t.arBuckets nIndex (some element) }

/-- `CONNECT_TO_GLOBAL_DLLIST_EX`. -/
def connectToGlobalDllistEx (last next : Option Ptr) : HashTable V :=
  { t with
    pListLast := setAt (update t.pListLast element last) next (some element)
    pListNext := setAt (update t.pListNext element next) last (some element)
    pListHead := if last = none then some element else t.pListHead
    pListTail := if next = none then some element else t.pListTail }

/-- `CONNECT_TO_GLOBAL_DLLIST`. -/
def connectToGlobalDllist : HashTable V :=
  let t := t.connectToGlobalDllistEx element t.pListTail none
  if t.pInternalPointer = none then { t with pInternalPointer := some element } else t

/-- A bucket is taken out of its slot. -/
def disconnectFromBucketDllist : HashTable V :=
  { t with
    pNext := setAt t.pNext (t.pLast p) (t.pNext p)
    pLast := setAt t.pLast (t.pNext p) (t.pLast p)
    arBuckets :=
      if t.pLast p = none then update t.arBuckets (t.slot (t.hashOf p)) (t.pNext p) else t.arBuckets }

/-- A bucket is taken out of the list. -/
def disconnectFromGlobalDllist : HashTable V :=
  { t with
    pListNext := setAt t.pListNext (t.pListLast p) (t.pListNext p)
    pListLast := setAt t.pListLast (t.pListNext p) (t.pListLast p)
    pListHead := if t.pListLast p = none then t.pListNext p else t.pListHead
    pListTail := if t.pListNext p = none then t.pListLast p else t.pListTail }

/-- `i_zend_hash_bucket_delete`. -/
def zendHashBucketDelete : HashTable V :=
  let next := t.pListNext p
  let t := (t.disconnectFromBucketDllist p).disconnectFromGlobalDllist p
  { t with
    pInternalPointer := if t.pInternalPointer = some p then next else t.pInternalPointer
    nNumOfElements := (t.nNumOfElements + (2 ^ 32 - 1)) % 2 ^ 32
    bucket := update t.bucket p none }

/-- `pemalloc` of a bucket with this in it. -/
def pemalloc (b : Bucket V) : Ptr × HashTable V :=
  (t.brk, { t with bucket := update t.bucket t.brk (some b), brk := t.brk + 1 })

/-- The bucket of a slot for which a test holds: the loops over `p->pNext`. -/
def search (test : Bucket V → Bool) (h : UInt64) : Option (Option Ptr) :=
  walk t.pNext (fun p => (t.bucket p).any test) t.brk (t.arBuckets (t.slot h))

/-- The loop of `zend_hash_rehash`. -/
def rehashLoop : ℕ → Option Ptr → HashTable V → Option (HashTable V)
  | _, none, t => some t
  | 0, some _, _ => none
  | n + 1, some p, t => rehashLoop n (t.pListNext p) (t.connectToBucketDllist p (t.slot (t.hashOf p)))

/-- `zend_hash_rehash`. -/
def zendHashRehash : Option (HashTable V) :=
  if t.nNumOfElements = 0 then some t
  else rehashLoop t.brk t.pListHead { t with arBuckets := fun _ => none }

/-- `zend_hash_do_resize`; the size is a `uint`. -/
def zendHashDoResize : Option (HashTable V) :=
  if 0 < t.nTableSize * 2 % 2 ^ 32 then
    zendHashRehash { t with nTableSize := t.nTableSize * 2 % 2 ^ 32, nTableMask := t.nTableSize * 2 % 2 ^ 32 - 1 }
  else some t

/-- `ht->nNumOfElements++` and `ZEND_HASH_IF_FULL_DO_RESIZE`. -/
def countAndResize : Option (HashTable V) :=
  let t := { t with nNumOfElements := (t.nNumOfElements + 1) % 2 ^ 32 }
  if t.nTableSize < t.nNumOfElements then t.zendHashDoResize else some t

/-- A new bucket, in its slot and at the end of the list. -/
def newBucket (b : Bucket V) : HashTable V :=
  let (p, t) := t.pemalloc b
  (t.connectToBucketDllist p (t.slot b.h)).connectToGlobalDllist p

/-- `UPDATE_DATA`. -/
def updateData (pData : V) : HashTable V :=
  { t with bucket := update t.bucket p ((t.bucket p).map fun b => { b with pData }) }

/-- The index for the next element, after one is taken. -/
def takeIndex (h : UInt64) : HashTable V :=
  if asLong t.nNextFreeElement ≤ asLong h then
    { t with nNextFreeElement := if h < ulongMax then h + 1 else ulongMax }
  else t

end HashTable

/-! ### The operations -/

/-- What is done with a key that is there. -/
inductive Flag where
  /-- `HASH_UPDATE`. -/
  | update
  /-- `HASH_ADD`. -/
  | add
  /-- `HASH_NEXT_INSERT`. -/
  | nextInsert
  deriving DecidableEq

/-- The test for a string key. -/
def Bucket.hasString {V : Type} (h : UInt64) (arKey : Bytes) (p : Bucket V) : Bool :=
  p.h = h && keyLength p.arKey = arKey.length + 1 && p.arKey.any fun s => s.val = arKey

/-- The test for an index. -/
def Bucket.hasIndex {V : Type} (h : UInt64) (p : Bucket V) : Bool := keyLength p.arKey = 0 && p.h = h

namespace HashTable

variable {V : Type} (t : HashTable V)

/-- `_zend_hash_add_or_update`. -/
def zendHashAddOrUpdate (arKey : Str) (pData : V) (flag : Flag) : Option (Bool × HashTable V) :=
  let t := t.checkInit
  let h := zendInlineHashFunc arKey.val
  match t.search (hasString h arKey.val) h with
  | none => none
  | some (some p) => if flag = .add then some (false, t) else some (true, t.updateData p pData)
  | some none => (t.newBucket ⟨h, some arKey, pData⟩).countAndResize.map (true, ·)

variable (h : UInt64)

/-- `_zend_hash_index_update_or_next_insert`. -/
def zendHashIndexUpdateOrNextInsert (pData : V) (flag : Flag) : Option (Bool × HashTable V) :=
  let t := t.checkInit
  let h := if flag = .nextInsert then t.nNextFreeElement else h
  match t.search (hasIndex h) h with
  | none => none
  | some (some p) => if flag = .nextInsert ∨ flag = .add then some (false, t) else some (true, t.updateData p pData)
  | some none => ((t.newBucket ⟨h, none, pData⟩).takeIndex h).countAndResize.map (true, ·)

/-- `zend_hash_del_key_or_index`, with the test for the key. -/
def zendHashDelKeyOrIndex (test : Bucket V → Bool) (h : UInt64) : Option (Bool × HashTable V) :=
  match t.search test h with
  | none => none
  | some (some p) => some (true, t.zendHashBucketDelete p)
  | some none => some (false, t)

/-- `zend_hash_del`. -/
def zendHashDel (arKey : Bytes) : Option (Bool × HashTable V) :=
  t.zendHashDelKeyOrIndex (hasString (zendInlineHashFunc arKey) arKey) (zendInlineHashFunc arKey)

/-- `zend_hash_index_del`. -/
def zendHashIndexDel : Option (Bool × HashTable V) := t.zendHashDelKeyOrIndex (hasIndex h) h

/-- The loop of `zend_hash_clean` that frees the buckets. -/
def freeAll : ℕ → Option Ptr → HashTable V → Option (HashTable V)
  | _, none, t => some t
  | 0, some _, _ => none
  | n + 1, some q, t => freeAll n (t.pListNext q) { t with bucket := update t.bucket q none }

/-- `zend_hash_clean`. -/
def zendHashClean : Option (HashTable V) :=
  freeAll t.brk t.pListHead
    { t with
      arBuckets := if t.nTableMask = 0 then t.arBuckets else fun _ => none
      pListHead := none
      pListTail := none
      nNumOfElements := 0
      nNextFreeElement := 0
      pInternalPointer := none }

/-- `zend_hash_find`. -/
def zendHashFind (arKey : Bytes) : Option (Option V) :=
  (t.search (hasString (zendInlineHashFunc arKey) arKey) (zendInlineHashFunc arKey)).map fun p =>
    (p.bind t.bucket).map pData

/-- `zend_hash_index_find`. -/
def zendHashIndexFind : Option (Option V) :=
  (t.search (hasIndex h) h).map fun p => (p.bind t.bucket).map pData

/-- `zend_hash_internal_pointer_reset`. -/
def zendHashInternalPointerReset : HashTable V := { t with pInternalPointer := t.pListHead }

/-- `zend_hash_move_forward`. -/
def zendHashMoveForward : Bool × HashTable V :=
  match t.pInternalPointer with
  | some p => (true, { t with pInternalPointer := t.pListNext p })
  | none => (false, t)

/-- `zend_hash_move_backwards`. -/
def zendHashMoveBackwards : Bool × HashTable V :=
  match t.pInternalPointer with
  | some p => (true, { t with pInternalPointer := t.pListLast p })
  | none => (false, t)

end HashTable

/-- `key_type`, with the key. -/
inductive KeyArg where
  /-- `HASH_KEY_IS_STRING`. -/
  | string (strIndex : Str)
  /-- `HASH_KEY_IS_LONG`, with `str_index` `NULL`. -/
  | long (numIndex : UInt64)
  /-- Anything else. -/
  | nonExistent
  deriving DecidableEq

namespace KeyArg

/-- `str_index`. -/
def strIndex : KeyArg → Option Str
  | .string s => some s
  | _ => none

/-- The hash value, or the index. -/
def h : KeyArg → UInt64
  | .string s => zendInlineHashFunc s.val
  | .long numIndex => numIndex
  | .nonExistent => 0

/-- The test for the key. -/
def test {V : Type} : KeyArg → Bucket V → Bool
  | .string s => hasString (zendInlineHashFunc s.val) s.val
  | .long numIndex => hasIndex numIndex
  | .nonExistent => fun _ => false

end KeyArg

/-- A bucket with another key, which is where the old one was; for an index `nKeyLength` is left as it is. -/
def Bucket.withKey {V : Type} (key : KeyArg) (p : Bucket V) : Bucket V :=
  match key with
  | .string s => { p with h := zendInlineHashFunc s.val, arKey := some s }
  | .long numIndex => { p with h := numIndex }
  | .nonExistent => p

/-- `mode`. -/
inductive UpdateMode where
  /-- `HASH_UPDATE_KEY_IF_NONE`. -/
  | ifNone
  /-- `HASH_UPDATE_KEY_IF_BEFORE`. -/
  | ifBefore
  /-- `HASH_UPDATE_KEY_IF_AFTER`. -/
  | ifAfter
  /-- `HASH_UPDATE_KEY_ANYWAY`. -/
  | anyway
  deriving DecidableEq

/-- `mode & found`, where what is found is that the other element is before this one, or not. -/
def UpdateMode.deletesCurrent (mode : UpdateMode) (otherBefore : Bool) : Bool :=
  match mode with
  | .ifNone => false
  | .ifBefore => !otherBefore
  | .ifAfter => otherBefore
  | .anyway => false

namespace HashTable

variable {V : Type} (t : HashTable V)

/-- A bucket in the place of another: the part of `zend_hash_update_current_key_ex` for a key that does not fit where
the old one was. -/
def reallocate (p : Ptr) (b : Bucket V) : Ptr × HashTable V :=
  let last := t.pListLast p
  let next := t.pListNext p
  let (q, t) := t.pemalloc b
  let t := t.connectToGlobalDllistEx q last next
  (q, { t with
    pInternalPointer := if t.pInternalPointer = some p then some q else t.pInternalPointer
    bucket := update t.bucket p none })

/-- The key of a bucket is written. -/
def setKey (p : Ptr) (key : KeyArg) : HashTable V :=
  { t with bucket := update t.bucket p ((t.bucket p).map (withKey key)) }

/-- The index that a key takes. -/
def takeKey (key : KeyArg) : HashTable V :=
  match key with
  | .long numIndex => t.takeIndex numIndex
  | _ => t

/-- The last part of `zend_hash_update_current_key_ex`: a bucket gets a key that no other has. -/
def changeKey (p : Ptr) (b : Bucket V) (key : KeyArg) : Ptr × HashTable V :=
  let t := t.disconnectFromBucketDllist p
  let (p, t) :=
    if isInterned b.arKey ≠ isInterned key.strIndex ∨
        ¬ isInterned b.arKey ∧ keyLength b.arKey ≠ keyLength key.strIndex then
      t.reallocate p { b with arKey := key.strIndex }
    else (p, t)
  let t := (t.setKey p key).takeKey key
  (p, t.connectToBucketDllist p (t.slot (t.hashOf p)))

/-- `zend_hash_update_current_key_ex`: whether it succeeds, the table, and `*pos`. -/
def zendHashUpdateCurrentKeyEx (key : KeyArg) (mode : UpdateMode) (pos : Option (Option Ptr)) :
    Option (Bool × HashTable V × Option Ptr) :=
  let current := pos.getD t.pInternalPointer
  match current with
  | none => some (false, t, current)
  | some p =>
    match t.bucket p with
    | none => none
    | some b =>
      if key = .nonExistent then some (false, t, current)
      else if key.test b then some (true, t, current)
      else
        match t.search key.test key.h with
        | none => none
        | some none =>
          let (p, t) := t.changeKey p b key
          some (true, t, some p)
        | some (some q) =>
          let found := if mode = .anyway then some none else walk t.pListLast (fun r => r = q) t.brk (t.pListLast p)
          match found with
          | none => none
          | some r =>
            if mode.deletesCurrent r.isSome then some (false, t.zendHashBucketDelete p, current)
            else
              let (p, t) := (t.zendHashBucketDelete q).changeKey p b key
              some (true, t, some p)

end HashTable

end PhpSandbox.Zend
