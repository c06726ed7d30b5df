import PhpSandbox.Lib.BinaryHeap
import Mathlib.Tactic.IntervalCases

/-!
# The SPL heap

`ext/spl/spl_heap.c` keeps the elements of a heap in an array that grows by doubling. An insertion opens a
hole at the end and moves it up while the parent compares less than the new element; a deletion takes the
first element away and moves the hole down, always to the bigger child, until the last element fits in.
The comparison is a function pointer; it may run a user's `compare` method, which may answer anything,
remember things, and throw.

## The model

The array is a list of slots, `none` where nothing was stored yet. Reading such a slot or touching one
outside the array stops the run with `Halt.outOfBounds`, a fatal error of the allocator stops it with
`Halt.fatalError`. A `Comparator` takes the state of the rest of the program to its answer and the state
after it; `raised` says whether an exception is pending. `count`, `i` and `j` are natural numbers (they
stay below `2 ^ 31`, see `Sized`), `max_size` is an `int` that wraps.

## What is proved

Whatever the comparator does, no run touches a slot it must not, and what is stored is a permutation of
what was inserted and not yet returned. If the comparator is a total preorder and does not throw, what is
stored is in heap order and `spl_ptr_heap_delete_top` returns a greatest element.
-/

namespace PhpSandbox.Spl

open Lib Option List

variable {σ α : Type} {elements : List (Option α)} {i : ℕ} {l : List α} {s : σ}

/-! ### The comparator -/

/-- The function behind `heap->cmp`, with the state of the program around it. -/
structure Comparator (σ α : Type) where
  /-- The answer, and the state after the call. -/
  call : σ → α → α → ℤ × σ
  /-- `EG(exception)` is set. -/
  raised : σ → Bool

/-- The calls of `heap->cmp`: with an exception pending nothing is compared, and one that was thrown
leaves `0`. -/
def Comparator.cmp (c : Comparator σ α) (s : σ) (a b : α) : ℤ × σ :=
  if c.raised s then (0, s)
  else
    let (r, s) := c.call s a b
    if c.raised s then (0, s) else (r, s)

/-- The comparator is the total preorder `le` and does not throw. -/
structure Comparator.Follows (c : Comparator σ α) (le : α → α → Prop) : Prop where
  total : ∀ a b, le a b ∨ le b a
  trans : ∀ a b d, le a b → le b d → le a d
  quiet : ∀ s a b, c.raised s = false → c.raised (c.call s a b).2 = false
  neg : ∀ s a b, c.raised s = false → ((c.call s a b).1 < 0 ↔ ¬ le b a)
  pos : ∀ s a b, c.raised s = false → (0 < (c.call s a b).1 ↔ ¬ le a b)

/-! ### The array -/

/-- Why a run stops. -/
inductive Halt where
  /-- `zend_error_noreturn` of the allocator. -/
  | fatalError
  /-- A slot was touched that is not there, or read before it was written. -/
  | outOfBounds
  deriving DecidableEq

/-- `elements[i]`, read. -/
def fetch (elements : List (Option α)) (i : ℕ) : Except Halt α :=
  match elements[i]? with
  | some (some x) => .ok x
  | _ => .error .outOfBounds

/-- `elements[i] = x`. -/
def store (elements : List (Option α)) (i : ℕ) (x : α) : Except Halt (List (Option α)) :=
  if i < elements.length then .ok (elements.set i (some x)) else .error .outOfBounds

/-- `PTR_HEAP_BLOCK_SIZE`. -/
def ptrHeapBlockSize : ℕ := 64

/-- `sizeof(spl_ptr_heap_element)`. -/
def elementSize : ℕ := 8

/-- An `int` as a `size_t`. -/
def sizeT (n : ℤ) : ℕ := (n % 2 ^ 64).toNat

/-- An integer as it is stored in an `int`. -/
def wrapInt (n : ℤ) : ℤ := n.bmod (2 ^ 32)

/-- `safe_address`: the size in bytes, or a fatal error if it is no `size_t`. -/
def safeAddress (nmemb size offset : ℕ) : Except Halt ℕ :=
  if nmemb * size + offset < 2 ^ 64 then .ok (nmemb * size + offset) else .error .fatalError

/-- `safe_erealloc`, where `granted` says whether there is memory: the slots that were there stay. -/
def safeErealloc (granted : Bool) (elements : List (Option α)) (nmemb size offset : ℕ) :
    Except Halt (List (Option α)) := do
  let bytes ← safeAddress nmemb size offset
  if granted then
    .ok (elements.take (bytes / elementSize) ++
      List.replicate (bytes / elementSize - elements.length) none)
  else .error .fatalError

/-! ### The heap -/

/-- `spl_ptr_heap`. -/
structure Heap (α : Type) where
  /-- The array. -/
  elements : List (Option α)
  /-- How many elements are stored. -/
  count : ℕ
  /-- `max_size`, an `int`. -/
  maxSize : ℤ
  /-- `SPL_HEAP_CORRUPTED`. -/
  corrupted : Bool

namespace Heap

/-- `spl_ptr_heap_init`. -/
def init : Heap α where
  elements := List.replicate ptrHeapBlockSize none
  count := 0
  maxSize := ptrHeapBlockSize
  corrupted := false

/-- The loop of `spl_ptr_heap_insert`, with the hole at `i`. -/
def siftUp (c : Comparator σ α) (elem : α) (elements : List (Option α)) (i : ℕ) (s : σ) :
    Except Halt (List (Option α) × ℕ × σ) :=
  if _ : i > 0 then do
    let p ← fetch elements ((i - 1) / 2)
    let (r, s) := c.cmp s p elem
    if r < 0 then
      let elements ← store elements i p
      siftUp c elem elements ((i - 1) / 2) s
    else .ok (elements, i, s)
  else .ok (elements, i, s)
termination_by i
decreasing_by omega

/-- Room for one more element. -/
def grow (granted : Bool) (h : Heap α) : Except Halt (Heap α) :=
  if (h.count : ℤ) + 1 > h.maxSize then do
    let elements ← safeErealloc granted h.elements elementSize (sizeT h.maxSize)
      (elementSize * sizeT h.maxSize % 2 ^ 64)
    .ok { h with elements := elements, maxSize := wrapInt (h.maxSize * 2) }
  else .ok h

variable (c : Comparator σ α)

/-- `spl_ptr_heap_insert`. -/
def insert (granted : Bool) (elem : α) (h : Heap α) (s : σ) :
    Except Halt (Heap α × σ) := do
  let h ← grow granted h
  let (elements, i, s) ← siftUp c elem h.elements h.count s
  let elements ← store elements i elem
  .ok ({ h with elements := elements, count := h.count + 1, corrupted := h.corrupted || c.raised s }, s)

/-- The bigger child of `i`. -/
def pickChild (elements : List (Option α)) (count i : ℕ) (s : σ) : Except Halt (ℕ × σ) :=
  let j := i * 2 + 1
  if j ≠ count then do
    let x ← fetch elements (j + 1)
    let y ← fetch elements j
    let (r, s) := c.cmp s x y
    .ok (if r > 0 then j + 1 else j, s)
  else .ok (j, s)

/-- The loop of `spl_ptr_heap_delete_top`, with the hole at `i`; every turn moves the hole to a child, so
that `limit` turns are enough. -/
def siftDown (c : Comparator σ α) (bottom : α) (count limit : ℕ) :
    ℕ → List (Option α) → ℕ → σ → Except Halt (List (Option α) × ℕ × σ)
  | 0, elements, i, s => .ok (elements, i, s)
  | turns + 1, elements, i, s =>
    if i < limit then do
      let (j, s) ← pickChild c elements count i s
      let z ← fetch elements j
      let (r, s) := c.cmp s bottom z
      if r < 0 then
        let elements ← store elements i z
        siftDown c bottom count limit turns elements j s
      else .ok (elements, i, s)
    else .ok (elements, i, s)

/-- `spl_ptr_heap_delete_top`; `none` is `NULL`. -/
def deleteTop (h : Heap α) (s : σ) : Except Halt (Option α × Heap α × σ) :=
  let limit := (h.count - 1) / 2
  if h.count = 0 then .ok (none, h, s)
  else do
    let top ← fetch h.elements 0
    let count := h.count - 1
    let bottom ← fetch h.elements count
    let (elements, i, s) ← siftDown c bottom count limit limit h.elements 0 s
    let elements ← store elements i bottom
    .ok (some top,
      { h with elements := elements, count := count, corrupted := h.corrupted || c.raised s }, s)

/-- A call. -/
inductive Op (α : Type) where
  /-- `spl_ptr_heap_insert`; `granted` says whether there is memory if the array has to grow. -/
  | insert (elem : α) (granted : Bool)
  /-- `spl_ptr_heap_delete_top`. -/
  | deleteTop

/-- One call, and what it returns. -/
def step (h : Heap α) (s : σ) : Op α → Except Halt (Option α × Heap α × σ)
  | .insert elem granted => do
    let (h, s) ← insert c granted elem h s
    .ok (none, h, s)
  | .deleteTop => deleteTop c h s

/-- Calls one after the other, and the elements they return. -/
def run (c : Comparator σ α) : Heap α → σ → List (Op α) → Except Halt (List α × Heap α × σ)
  | h, s, [] => .ok ([], h, s)
  | h, s, op :: ops => do
    let (returned, h, s) ← step c h s op
    let (out, h, s) ← run c h s ops
    .ok (returned.toList ++ out, h, s)

/-- The elements that calls insert. -/
def inserted : List (Op α) → List α
  | [] => []
  | .insert elem _ :: ops => elem :: inserted ops
  | .deleteTop :: ops => inserted ops

/-! ### What the array holds -/

theorem exists_getElem? (h : i < l.length) : ∃ x, l[i]? = some x :=
  ⟨l.get ⟨i, h⟩, getElem?_eq_getElem _⟩

/-- The array begins with the elements `l`, except perhaps at the hole `i`. -/
def HoldsExcept (elements : List (Option α)) (l : List α) (i : ℕ) : Prop :=
  ∀ k x, k ≠ i → l[k]? = some x → elements[k]? = some (some x)

/-- The array begins with the elements `l`. -/
def Holds (elements : List (Option α)) (l : List α) : Prop :=
  ∀ (k : ℕ) x, l[k]? = some x → elements[k]? = some (some x)

theorem fetch_eq {x : α} (h : elements[i]? = some (some x)) : fetch elements i = .ok x := by
  rw [fetch, h]

theorem store_eq (x : α) (h : i < elements.length) : store elements i x = .ok (elements.set i (some x)) := if_pos h

theorem Holds.except (h : Holds elements l) (i : ℕ) : HoldsExcept elements l i := fun k x _ hx => h k x hx

theorem Holds.length_le (h : Holds elements l) : l.length ≤ elements.length := by
  rcases Nat.eq_zero_or_pos l.length with h0 | h0
  · omega
  · obtain ⟨x, hlast⟩ := exists_getElem? (Nat.sub_one_lt_of_lt h0)
    have := lt_of_getElem? (h _ _ hlast)
    omega

/-- The hole is filled. -/
theorem HoldsExcept.fill {x : α} (h : HoldsExcept elements l i) (hi : i < elements.length)
    (hx : ∀ y, l[i]? = some y → y = x) : Holds (elements.set i (some x)) l := by
  intro k y hy
  by_cases hk : k = i
  · subst hk
    rw [getElem?_set_self hi, hx y hy]
  · rw [getElem?_set_ne (Ne.symm hk)]
    exact h k y hk hy

/-- The hole moves from `i` to `j`. -/
theorem HoldsExcept.move {j : ℕ} {a b : α} (h : HoldsExcept elements l i) (ha : l[i]? = some a) (hne : i ≠ j)
    (hi : i < elements.length) : HoldsExcept (elements.set i (some b)) (exchange l i j a b) j := by
  intro k x hk hx
  by_cases hki : k = i
  · subst hki
    rw [exchange_left (lt_of_getElem? ha) hne] at hx
    rw [getElem?_set_self hi, hx]
  · rw [exchange_other hki hk] at hx
    rw [getElem?_set_ne (Ne.symm hki)]
    exact h k x hki hx

/-! ### Comparisons -/

end Heap

namespace Comparator.Follows

variable {c : Comparator σ α} {le : α → α → Prop} (hc : c.Follows le)
include hc

variable (hs : c.raised s = false)

include hs

theorem cmp_eq (a b : α) : c.cmp s a b = c.call s a b := by
  simp [cmp, hs, hc.quiet s a b hs]

theorem raised_cmp (a b : α) : c.raised (c.cmp s a b).2 = false := by
  rw [hc.cmp_eq hs]
  exact hc.quiet s a b hs

omit hs in
theorem refl (a : α) : le a a := (hc.total a a).elim id id

variable {a b : α}

theorem le_of_cmp_neg (h : (c.cmp s a b).1 < 0) : le a b := by
  rw [hc.cmp_eq hs, hc.neg s a b hs] at h
  exact (hc.total a b).resolve_right h

theorem not_cmp_self_neg (a : α) : ¬ (c.cmp s a a).1 < 0 := by
  rw [hc.cmp_eq hs, hc.neg s a a hs]
  exact not_not.mpr (hc.refl a)

theorem le_of_not_cmp_neg (h : ¬ (c.cmp s a b).1 < 0) : le b a := by
  rw [hc.cmp_eq hs, hc.neg s a b hs] at h
  exact not_not.mp h

theorem le_of_cmp_pos (h : (c.cmp s a b).1 > 0) : le b a := by
  rw [hc.cmp_eq hs, gt_iff_lt, hc.pos s a b hs] at h
  exact (hc.total a b).resolve_left h

theorem le_of_not_cmp_pos (h : ¬ (c.cmp s a b).1 > 0) : le a b := by
  rw [hc.cmp_eq hs, gt_iff_lt, hc.pos s a b hs] at h
  exact not_not.mp h

end Comparator.Follows

namespace Heap

/-! ### Insertion -/

/-- What the loops leave: the elements of `l`, with the hole at `i` for `x`, and in heap order if the
comparator orders them and the hole was on its way. -/
structure Sifted (c : Comparator σ α) (OnItsWay : (α → α → Prop) → Prop) (x : α) (s₀ : σ)
    (old : List α) (elements : List (Option α)) (l : List α) (i : ℕ) (s : σ) : Prop where
  holds : HoldsExcept elements l i
  /-- The hole is for `x`. -/
  hole : ∀ y, l[i]? = some y → y = x
  perm : l.Perm old
  order : ∀ le, c.Follows le → c.raised s₀ = false → OnItsWay le → c.raised s = false ∧ HeapOrder le l

variable {c : Comparator σ α}

/-- One move of the hole, and then the rest of its way. -/
theorem Sifted.trans {W W' : (α → α → Prop) → Prop} {x : α} {s₀ s₁ : σ} {old mid : List α}
    (h : Sifted c W' x s₁ mid elements l i s) (hperm : mid.Perm old)
    (hmove : ∀ le, c.Follows le → c.raised s₀ = false → W le → c.raised s₁ = false ∧ W' le) :
    Sifted c W x s₀ old elements l i s := by
  refine ⟨h.holds, h.hole, h.perm.trans hperm, ?_⟩
  intro le hle hs hway
  obtain ⟨hs₁, hway'⟩ := hmove le hle hs hway
  exact h.order le hle hs₁ hway'

theorem siftUp_sifted (c : Comparator σ α) {elem : α} (s : σ) (hh : HoldsExcept elements l i) (hi : l[i]? = some elem)
    (hlen : l.length ≤ elements.length) :
    ∃ elements' i' s' l', siftUp c elem elements i s = .ok (elements', i', s') ∧
      elements'.length = elements.length ∧ i' < l'.length ∧
      Sifted c (fun le => UpOrder le l i) elem s l elements' l' i' s' := by
  induction i using Nat.strongRecOn generalizing elements l s with
  | ind i ih =>
    have hil := lt_of_getElem? hi
    have hole : ∀ y, l[i]? = some y → y = elem := by
      intro y hy
      rw [hi] at hy
      exact (some.inj hy).symm
    rw [siftUp]
    by_cases h0 : i > 0
    · rw [dif_pos h0]
      have hlt : (i - 1) / 2 < i := parent_lt h0
      obtain ⟨p, hp⟩ := exists_getElem? (hlt.trans hil)
      rw [fetch_eq (hh _ _ (by omega) hp)]
      by_cases hr : (c.cmp s p elem).1 < 0
      · obtain ⟨elements', i', s', l', hrun, hlen', hi', hs'⟩ := ih ((i - 1) / 2) hlt (c.cmp s p elem).2
          (hh.move hi (b := p) (j := (i - 1) / 2) (by omega) (by omega))
          (exchange_right (by omega)) (by simpa using hlen)
        refine ⟨elements', i', s', l', ?_, by simpa using hlen', hi', hs'.trans (exchange_perm hi hp) ?_⟩
        · simp only [bind, Except.bind, if_pos hr, store_eq p (hil.trans_le hlen)]
          exact hrun
        · intro le hle hs hup
          exact ⟨hle.raised_cmp hs p elem, hup.move hle.trans h0 hi hp (hle.le_of_cmp_neg hs hr)⟩
      · refine ⟨elements, i, (c.cmp s p elem).2, l, ?_, rfl, hil, hh, hole, List.Perm.refl l, ?_⟩
        · simp only [bind, Except.bind, if_neg hr]
        · intro le hle hs hup
          refine ⟨hle.raised_cmp hs p elem, hup.heapOrder fun _ => ?_⟩
          exact inOrder_of hi hp (hle.le_of_not_cmp_neg hs hr)
    · rw [dif_neg h0]
      refine ⟨elements, i, s, l, rfl, rfl, hil, hh, hole, List.Perm.refl l, ?_⟩
      intro le hle hs hup
      exact ⟨hs, hup.heapOrder fun h => absurd h h0⟩

/-- The array has room for `n` elements. It was doubled `k` times; the last doubling that can succeed makes
`max_size` negative. -/
def Sized (h : Heap α) (n : ℕ) : Prop :=
  ∃ k, h.elements.length = 64 * 2 ^ k ∧ n ≤ 64 * 2 ^ k ∧
    (k ≤ 24 ∧ h.maxSize = 64 * 2 ^ k ∨ k = 25 ∧ h.maxSize = -2 ^ 31 ∧ n ≤ 2 ^ 30 + 1)

/-- The heap stores the elements `l`. -/
structure Stores (h : Heap α) (l : List α) : Prop where
  holds : Holds h.elements l
  count : h.count = l.length
  sized : h.Sized l.length

variable {h : Heap α}

theorem Sized.lt {n : ℕ} (hs : h.Sized (n + 1)) : n < h.elements.length := by
  obtain ⟨k, hk, hn, _⟩ := hs
  omega

theorem Sized.mono {m n : ℕ} (hs : h.Sized n) (hm : m ≤ n) : h.Sized m := by
  obtain ⟨k, hk, hn, hcase⟩ := hs
  refine ⟨k, hk, hm.trans hn, ?_⟩
  rcases hcase with hsmall | ⟨hk25, hmax, hn'⟩
  · exact .inl hsmall
  · exact .inr ⟨hk25, hmax, hm.trans hn'⟩

theorem stores_init : (init : Heap α).Stores [] := by
  refine ⟨?_, rfl, 0, rfl, Nat.zero_le _, .inl ⟨Nat.zero_le _, rfl⟩⟩
  intro k x hx
  cases hx

variable {k : ℕ}

theorem wrapInt_pow (hk : k ≤ 24) : wrapInt (64 * 2 ^ k * 2) = if k = 24 then -2 ^ 31 else 64 * 2 ^ (k + 1) := by
  interval_cases k <;> decide

theorem sizeT_pow (hk : k ≤ 24) : sizeT (64 * 2 ^ k) = 64 * 2 ^ k := by
  interval_cases k <;> decide

theorem safeAddress_pow (hk : k ≤ 24) :
    safeAddress elementSize (64 * 2 ^ k) (elementSize * (64 * 2 ^ k) % 2 ^ 64) =
      .ok (64 * 2 ^ (k + 1) * elementSize) := by
  interval_cases k <;> decide

/-- A full array is doubled, if there is memory. -/
theorem grow_full (hlen : h.elements.length = 64 * 2 ^ k) (hk : k ≤ 24) (hmax : h.maxSize = 64 * 2 ^ k)
    (hfull : h.count = 64 * 2 ^ k) (granted : Bool) :
    grow granted h = if granted then
      .ok { h with
        elements := h.elements ++ List.replicate (64 * 2 ^ k) none
        maxSize := if k = 24 then -2 ^ 31 else 64 * 2 ^ (k + 1) }
      else .error .fatalError := by
  have hcond : (h.count : ℤ) + 1 > h.maxSize := by
    rw [hfull, hmax]
    push_cast
    omega
  have hle : h.elements.length ≤ 64 * 2 ^ (k + 1) := by
    rw [hlen, Nat.pow_succ]
    omega
  have hrest : 64 * 2 ^ (k + 1) - h.elements.length = 64 * 2 ^ k := by
    rw [hlen, Nat.pow_succ]
    omega
  have hdiv : 64 * 2 ^ (k + 1) * elementSize / elementSize = 64 * 2 ^ (k + 1) :=
    Nat.mul_div_cancel _ (by decide)
  rw [grow, if_pos hcond, hmax, sizeT_pow hk, safeErealloc, safeAddress_pow hk, wrapInt_pow hk]
  simp only [bind, Except.bind, hdiv, hrest, take_of_length_le hle]
  cases granted <;> rfl

/-- Once `max_size` has become negative, every insertion is a fatal error. -/
theorem grow_wrapped (hmax : h.maxSize = -2 ^ 31) (granted : Bool) : grow granted h = .error .fatalError := by
  have hcond : (h.count : ℤ) + 1 > h.maxSize := by
    rw [hmax]
    omega
  have hover : safeAddress elementSize (sizeT h.maxSize) (elementSize * sizeT h.maxSize % 2 ^ 64) =
      .error .fatalError := by
    rw [hmax]
    decide
  rw [grow, if_pos hcond, safeErealloc, hover]
  rfl

theorem grow_room (hroom : (h.count : ℤ) + 1 ≤ h.maxSize) (granted : Bool) : grow granted h = .ok h := by
  rw [grow, if_neg (by omega)]

theorem Holds.append (h : Holds elements l) (more : List (Option α)) : Holds (elements ++ more) l := by
  intro k x hx
  rw [getElem?_append_left (lt_of_getElem? (h k x hx))]
  exact h k x hx

/-- The array grows, unless there is no memory for it or it has reached its end; it does not reach its end
below `2 ^ 30` elements. -/
theorem grow_stores (hl : h.Stores l) (granted : Bool) :
    (grow granted h = .error .fatalError ∧ (granted = false ∨ h.maxSize < 0)) ∨
      ∃ h', grow granted h = .ok h' ∧ Holds h'.elements l ∧ h'.count = l.length ∧
        h'.Sized (l.length + 1) ∧ (l.length < 2 ^ 30 → 0 < h'.maxSize) := by
  obtain ⟨k, hk, hn, ⟨hk24, hmax⟩ | ⟨hk25, hmax, hn'⟩⟩ := hl.sized
  · rcases Nat.lt_or_eq_of_le hn with hlt | heq
    · refine .inr ⟨h, grow_room ?_ granted, hl.holds, hl.count, ⟨k, hk, hlt, .inl ⟨hk24, hmax⟩⟩, ?_⟩
      · rw [hl.count, hmax]
        exact_mod_cast hlt
      · intro _
        rw [hmax]
        exact Int.mul_pos (by decide) (Int.pow_pos (by decide))
    · have hgrow := grow_full hk hk24 hmax (hl.count.trans heq) granted
      cases granted with
      | false => exact .inl ⟨hgrow, .inl rfl⟩
      | true =>
        refine .inr ⟨_, hgrow, hl.holds.append _, hl.count, ⟨k + 1, ?_, ?_, ?_⟩, ?_⟩
        · rw [length_append, length_replicate, hk, Nat.pow_succ]
          omega
        · rw [heq, Nat.pow_succ]
          have := Nat.two_pow_pos k
          omega
        · by_cases hlast : k = 24
          · subst hlast
            exact .inr ⟨rfl, rfl, by omega⟩
          · exact .inl ⟨by omega, if_neg hlast⟩
        · intro hsmall
          have hlast : k ≠ 24 := by
            rintro rfl
            omega
          rw [if_neg hlast]
          exact Int.mul_pos (by decide) (Int.pow_pos (by decide))
  · refine .inl ⟨grow_wrapped hmax granted, .inr ?_⟩
    rw [hmax]
    decide

/-- An insertion is a fatal error of the allocator, or adds the element. -/
theorem insert_stores (c : Comparator σ α) (granted : Bool) (elem : α) (s : σ) (hl : h.Stores l) :
    (insert c granted elem h s = .error .fatalError ∧ (granted = false ∨ h.maxSize < 0)) ∨
      ∃ h' s' l', insert c granted elem h s = .ok (h', s') ∧ h'.Stores l' ∧ l'.Perm (elem :: l) ∧
        (l.length < 2 ^ 30 → 0 < h'.maxSize) ∧
        (∀ le, c.Follows le → c.raised s = false → HeapOrder le l →
          c.raised s' = false ∧ HeapOrder le l') := by
  rcases grow_stores hl granted with ⟨hgrow, hwhy⟩ | ⟨g, hgrow, hholds, hcount, hsized, hpos⟩
  · refine .inl ⟨?_, hwhy⟩
    rw [insert, hgrow]
    rfl
  have hlen : (l ++ [elem]).length = l.length + 1 := by simp
  have hexcept : HoldsExcept g.elements (l ++ [elem]) l.length := by
    intro k x hk hx
    have hlt := lt_of_getElem? hx
    rw [getElem?_append_left (by omega)] at hx
    exact hholds k x hx
  have hlast : (l ++ [elem])[l.length]? = some elem := by simp
  obtain ⟨elements', i', s', l', hsift, hlen', hi', hs'⟩ :=
    siftUp_sifted c s hexcept hlast (by rw [hlen]; exact hsized.lt)
  have hl' : l'.length = l.length + 1 := hs'.perm.length_eq.trans hlen
  have hstore := store_eq elem (show i' < elements'.length by have := hsized.lt; omega)
  refine .inr ⟨{ g with
    elements := elements'.set i' (some elem)
    count := l.length + 1
    corrupted := g.corrupted || c.raised s' }, s', l', ?_, ⟨?_, hl'.symm, ?_⟩, ?_, hpos, ?_⟩
  · simp only [insert, hgrow, bind, Except.bind, hcount, hsift, hstore]
  · exact hs'.holds.fill (by have := hsized.lt; omega) hs'.hole
  · rw [hl']
    obtain ⟨k, hk, hrest⟩ := hsized
    exact ⟨k, by rw [length_set, hlen', hk], hrest⟩
  · exact hs'.perm.trans (perm_append_singleton elem l)
  · intro le hle hs horder
    exact hs'.order le hle hs (horder.upOrder_append elem)

/-! ### Deletion -/

theorem getElem?_append_of_some {x : α} (h : l[i]? = some x) (r : List α) : (l ++ r)[i]? = some x := by
  rwa [getElem?_append_left (lt_of_getElem? h)]

/-- The child that is picked is one of the two, and no lower than any. -/
theorem pickChild_spec (c : Comparator σ α) {count : ℕ} (s : σ) (hh : HoldsExcept elements l i)
    (hi : i * 2 + 2 < l.length) (hcount : i * 2 + 1 ≠ count) :
    ∃ j s', pickChild c elements count i s = .ok (j, s') ∧ (j = 2 * i + 1 ∨ j = 2 * i + 2) ∧
      ∀ le, c.Follows le → c.raised s = false → c.raised s' = false ∧
        ∀ z, l[j]? = some z → ∀ k x, 0 < k → parent k = i → l[k]? = some x → le x z := by
  obtain ⟨x, hx⟩ := exists_getElem? (l := l) (i := i * 2 + 1 + 1) (by omega)
  obtain ⟨y, hy⟩ := exists_getElem? (l := l) (i := i * 2 + 1) (by omega)
  refine ⟨if (c.cmp s x y).1 > 0 then i * 2 + 1 + 1 else i * 2 + 1, (c.cmp s x y).2, ?_, ?_, ?_⟩
  · simp only [pickChild, if_pos hcount, fetch_eq (hh _ _ (by omega) hx), fetch_eq (hh _ _ (by omega) hy),
      bind, Except.bind]
  · split_ifs
    · right
      omega
    · left
      omega
  · intro le hle hs
    refine ⟨hle.raised_cmp hs x y, ?_⟩
    intro z hz k w hk hki hw
    have hchild : w = y ∨ w = x := by
      rcases parent_child hk hki with rfl | rfl <;> rw [Nat.mul_comm] at hw
      · exact .inl (some.inj (hw.symm.trans hy))
      · exact .inr (some.inj (hw.symm.trans hx))
    split_ifs at hz with hr
    · cases hx.symm.trans hz
      rcases hchild with rfl | rfl
      · exact hle.le_of_cmp_pos hs hr
      · exact hle.refl _
    · cases hy.symm.trans hz
      rcases hchild with rfl | rfl
      · exact hle.refl _
      · exact hle.le_of_not_cmp_pos hs hr

theorem exchange_append {j : ℕ} (hi : i < l.length) (hj : j < l.length) (a b : α) (r : List α) :
    exchange (l ++ r) i j a b = exchange l i j a b ++ r := by
  rw [exchange, exchange, set_append_left _ _ hi, set_append_left _ _ (by simpa using hj)]

variable {bottom : α}

/-- The hole stays where it is, at least its children. -/
theorem Sifted.stay {s' : σ} (hh : HoldsExcept elements (l ++ [bottom]) i)
    (hole : ∀ y, (l ++ [bottom])[i]? = some y → y = bottom)
    (hstop : ∀ le, c.Follows le → c.raised s = false → c.raised s' = false ∧ ∀ k, 0 < k → parent k = i →
      InOrder le l k) :
    Sifted c (fun le => DownOrder le l i) bottom s l elements l i s' := by
  refine ⟨fun k x hk hx => hh k x hk (getElem?_append_of_some hx _), fun y hy => hole y (getElem?_append_of_some hy _),
    List.Perm.refl l, ?_⟩
  intro le hle hs hdown
  obtain ⟨hs', hkids⟩ := hstop le hle hs
  exact ⟨hs', hdown.heapOrder hkids⟩

/-- A hole without children stays where it is. -/
theorem Sifted.leaf (hh : HoldsExcept elements (l ++ [bottom]) i)
    (hole : ∀ y, (l ++ [bottom])[i]? = some y → y = bottom) (hi : l.length / 2 ≤ i) :
    Sifted c (fun le => DownOrder le l i) bottom s l elements l i s := by
  refine Sifted.stay hh hole fun le _ hs => ⟨hs, ?_⟩
  intro k hk hki x p hx
  have := parent_child hk hki
  have := lt_of_getElem? hx
  omega

variable (c : Comparator σ α)

/-- The slot after the elements still holds `bottom`, and with an odd comparator the hole may come to lie
there: then `bottom` is stored twice, and counted once. -/
theorem siftDown_sifted (turns : ℕ) (s : σ)
    (hh : HoldsExcept elements (l ++ [bottom]) i) (hole : ∀ y, (l ++ [bottom])[i]? = some y → y = bottom)
    (hi : i ≤ l.length) (hlen : l.length < elements.length) (hturns : l.length / 2 ≤ turns + i) :
    ∃ elements' i' s' l',
      siftDown c bottom l.length (l.length / 2) turns elements i s = .ok (elements', i', s') ∧
      elements'.length = elements.length ∧ i' < elements.length ∧
      Sifted c (fun le => DownOrder le l i) bottom s l elements' l' i' s' := by
  induction turns generalizing elements l i s with
  | zero =>
    exact ⟨elements, i, s, l, rfl, rfl, by omega, .leaf hh hole (by omega)⟩
  | succ turns ih =>
    rw [siftDown]
    by_cases hlim : i < l.length / 2
    · rw [if_pos hlim]
      have hlen1 : (l ++ [bottom]).length = l.length + 1 := by simp
      obtain ⟨j, s₁, hpick, hj, hmax⟩ := pickChild_spec c s hh (by omega) (show i * 2 + 1 ≠ l.length by omega)
      obtain ⟨z, hz⟩ := exists_getElem? (l := l ++ [bottom]) (i := j) (by omega)
      have hfetch := fetch_eq (hh j z (by omega) hz)
      have hil : l[i]? = some bottom := by
        obtain ⟨y, hy⟩ := exists_getElem? (l := l) (i := i) (by omega)
        rw [hy, hole y (getElem?_append_of_some hy _)]
      by_cases hr : (c.cmp s₁ bottom z).1 < 0
      · have hstore := store_eq z (show i < elements.length by omega)
        simp only [hpick, hfetch, bind, Except.bind, if_pos hr, hstore]
        by_cases hjl : j < l.length
        · have hzl : l[j]? = some z := by rwa [getElem?_append_left hjl] at hz
          have hll : (exchange l i j bottom z).length = l.length := length_exchange l i j bottom z
          have hmoved : HoldsExcept (elements.set i (some z)) (exchange l i j bottom z ++ [bottom]) j := by
            rw [← exchange_append (by omega) hjl]
            exact hh.move (getElem?_append_of_some hil _) (by omega) (by omega)
          have hole' : ∀ y, (exchange l i j bottom z ++ [bottom])[j]? = some y → y = bottom := by
            intro y hy
            rw [getElem?_append_left (by omega), exchange_right hjl] at hy
            exact (some.inj hy).symm
          obtain ⟨elements', i', s', l', hrun, hlen', hi', hs'⟩ :=
            ih (c.cmp s₁ bottom z).2 hmoved hole' (by omega) (by rw [length_set]; omega) (by omega)
          rw [hll] at hrun
          rw [length_set] at hlen' hi'
          refine ⟨elements', i', s', l', hrun, hlen', hi', hs'.trans (exchange_perm hil hzl) ?_⟩
          intro le hle hs hdown
          obtain ⟨hs₁, hmax⟩ := hmax le hle hs
          refine ⟨hle.raised_cmp hs₁ bottom z, ?_⟩
          refine hdown.move (by omega) ?_ hil hzl (hle.le_of_cmp_neg hs₁ hr) ?_
          · rcases hj with rfl | rfl
            · exact parent_left i
            · exact parent_right i
          · exact fun k x hk hki hx => hmax z hz k x hk hki (getElem?_append_of_some hx _)
        · -- the hole moves to the slot after the elements, which holds `bottom`
          have hjl' : j = l.length := by omega
          subst hjl'
          rw [getElem?_append_right le_rfl, Nat.sub_self] at hz
          cases hz
          have hfill : Holds (elements.set i (some bottom)) (l ++ [bottom]) := hh.fill (by omega) hole
          have hole' : ∀ y, (l ++ [bottom])[l.length]? = some y → y = bottom := by
            intro y hy
            rw [getElem?_append_right le_rfl, Nat.sub_self] at hy
            exact (some.inj hy).symm
          obtain ⟨elements', i', s', l', hrun, hlen', hi', hs'⟩ :=
            ih (c.cmp s₁ bottom bottom).2 (hfill.except l.length) hole'
              le_rfl (by rw [length_set]; omega) (by omega)
          rw [length_set] at hlen' hi'
          refine ⟨elements', i', s', l', hrun, hlen', hi', hs'.trans (List.Perm.refl l) ?_⟩
          intro le hle hs hdown
          exact absurd hr (hle.not_cmp_self_neg (hmax le hle hs).1 bottom)
      · refine ⟨elements, i, (c.cmp s₁ bottom z).2, l, ?_, rfl, by omega, .stay hh hole ?_⟩
        · simp only [hpick, hfetch, bind, Except.bind, if_neg hr]
        · intro le hle hs
          obtain ⟨hs₁, hmax⟩ := hmax le hle hs
          refine ⟨hle.raised_cmp hs₁ bottom z, ?_⟩
          intro k hk hki x p hx hp
          rw [hki, hil] at hp
          cases hp
          exact hle.trans _ _ _ (hmax z hz k x hk hki (getElem?_append_of_some hx _)) (hle.le_of_not_cmp_neg hs₁ hr)
    · rw [if_neg hlim]
      exact ⟨elements, i, s, l, rfl, rfl, by omega, .leaf hh hole (by omega)⟩

/-- What is left when the first of some elements goes and the last takes its place. -/
theorem perm_cons_set_dropLast (top : α) (rest : List α) (bottom : α)
    (hbottom : (top :: rest)[rest.length]? = some bottom) :
    (top :: ((top :: rest).take rest.length).set 0 bottom).Perm (top :: rest) := by
  rcases eq_nil_or_concat' rest with rfl | ⟨mid, last, rfl⟩
  · exact List.Perm.refl _
  have hlast : (top :: (mid ++ [last]))[(mid ++ [last]).length]? = some last := by simp
  rw [hlast] at hbottom
  cases hbottom
  have htake : (top :: (mid ++ [bottom])).take (mid ++ [bottom]).length = top :: mid := by simp
  rw [htake, set_cons_zero]
  exact (perm_append_singleton bottom mid).symm.cons top

variable (s : σ)

theorem deleteTop_nil (hl : h.Stores []) :
    deleteTop c h s = .ok (none, h, s) := if_pos hl.count

/-- A deletion takes the first element away. -/
theorem deleteTop_cons {top : α} {rest : List α} (hl : h.Stores (top :: rest)) :
    ∃ h' s' l', deleteTop c h s = .ok (some top, h', s') ∧ h'.Stores l' ∧
      (top :: l').Perm (top :: rest) ∧ h'.maxSize = h.maxSize ∧
      (∀ le, c.Follows le → c.raised s = false → HeapOrder le (top :: rest) →
        c.raised s' = false ∧ HeapOrder le l') := by
  obtain ⟨bottom, hbottom⟩ := exists_getElem? (l := top :: rest) (i := rest.length) (by simp)
  have hperm := perm_cons_set_dropLast top rest bottom hbottom
  set l := ((top :: rest).take rest.length).set 0 bottom with hl_def
  have hlen : l.length = rest.length := by simp [hl_def]
  have hcount : h.count = rest.length + 1 := hl.count
  have harr : rest.length < h.elements.length := hl.holds.length_le
  -- the array with the hole at its first position
  have hgetl : ∀ k, 0 < k → k < rest.length → l[k]? = (top :: rest)[k]? := by
    intro k hk hkr
    rw [hl_def, getElem?_set_ne (by omega), getElem?_take, if_pos hkr]
  have hexcept : HoldsExcept h.elements (l ++ [bottom]) 0 := by
    intro k x hk hx
    have hkl := lt_of_getElem? hx
    rw [length_append, length_singleton, hlen] at hkl
    apply hl.holds k x
    rcases Nat.lt_or_eq_of_le (Nat.le_of_lt_succ hkl) with hlt | rfl
    · rw [getElem?_append_left (by omega), hgetl k (by omega) hlt] at hx
      exact hx
    · rw [getElem?_append_right (by omega), hlen, Nat.sub_self] at hx
      rw [hbottom]
      exact hx
  have hole : ∀ y, (l ++ [bottom])[0]? = some y → y = bottom := by
    intro y hy
    rcases Nat.eq_zero_or_pos rest.length with h0 | h0
    · rw [getElem?_append_right (by omega), hlen, h0] at hy
      exact (some.inj hy).symm
    · rw [getElem?_append_left (by omega), hl_def, getElem?_set_self (by simpa using h0)] at hy
      exact (some.inj hy).symm
  obtain ⟨elements', i', s', l', hsift, hlen', hi', hs'⟩ :=
    siftDown_sifted c (rest.length / 2) s hexcept hole (Nat.zero_le _) (by omega) (by omega)
  rw [hlen] at hsift
  have hll : l'.length = rest.length := hs'.perm.length_eq.trans hlen
  have hstore := store_eq bottom (show i' < elements'.length by omega)
  have htop : fetch h.elements 0 = .ok top := fetch_eq (hl.holds 0 top rfl)
  have hbot : fetch h.elements rest.length = .ok bottom := fetch_eq (hl.holds _ _ hbottom)
  refine ⟨{ h with
    elements := elements'.set i' (some bottom)
    count := rest.length
    corrupted := h.corrupted || c.raised s' }, s', l', ?_, ⟨?_, hll.symm, ?_⟩, ?_, rfl, ?_⟩
  · simp [deleteTop, hcount, htop, hbot, bind, Except.bind, hsift, hstore]
  · exact hs'.holds.fill (by omega) hs'.hole
  · rw [hll]
    obtain ⟨k, hk, hrest⟩ := hl.sized.mono (show rest.length ≤ (top :: rest).length by simp)
    exact ⟨k, by rw [length_set, hlen', hk], hrest⟩
  · exact (hs'.perm.cons top).trans hperm
  · intro le hle hs horder
    exact hs'.order le hle hs ((horder.take rest.length).downOrder bottom)

/-! ### Runs -/

/-- There is memory for every insertion. -/
def Granted (ops : List (Op α)) : Prop := ∀ elem, Op.insert elem false ∉ ops

/-- One call stores what was stored and is not returned, with what it inserts. -/
theorem step_stores (hl : h.Stores l) (op : Op α) :
    (step c h s op = .error .fatalError ∧ ((∃ elem, op = .insert elem false) ∨ h.maxSize < 0)) ∨
      ∃ returned h' s' l', step c h s op = .ok (returned, h', s') ∧ h'.Stores l' ∧
        (returned.toList ++ l').Perm (inserted [op] ++ l) ∧
        (0 < h.maxSize → (inserted [op] ++ l).length ≤ 2 ^ 30 → 0 < h'.maxSize) ∧
        (∀ le, c.Follows le → c.raised s = false → HeapOrder le l →
          c.raised s' = false ∧ HeapOrder le l') := by
  cases op with
  | insert elem granted =>
    rcases insert_stores c granted elem s hl with
      ⟨herr, hwhy⟩ | ⟨h', s', l', hok, hl', hperm, hpos, horder⟩
    · refine .inl ⟨?_, hwhy.imp (fun hg => ⟨elem, by rw [hg]⟩) id⟩
      rw [step, herr]
      rfl
    refine .inr ⟨none, h', s', l', ?_, hl', hperm, fun _ hlen => hpos ?_, horder⟩
    · rw [step, hok]
      rfl
    · simp only [inserted, length_append, length_cons, length_nil] at hlen
      omega
  | deleteTop =>
    right
    cases l with
    | nil =>
      refine ⟨none, h, s, [], deleteTop_nil c s hl, hl, List.Perm.refl _, fun hpos _ => hpos, ?_⟩
      intro le _ hs horder
      exact ⟨hs, horder⟩
    | cons top rest =>
      obtain ⟨h', s', l', hok, hl', hperm, hmax, horder⟩ := deleteTop_cons c s hl
      exact ⟨some top, h', s', l', hok, hl', hperm, fun hpos _ => hmax ▸ hpos, horder⟩

theorem inserted_cons (op : Op α) (ops : List (Op α)) : inserted (op :: ops) = inserted [op] ++ inserted ops := by
  cases op <;> rfl

/-- A run is stopped by the allocator, or stores what was stored and is not returned, with what was
inserted. -/
theorem run_stores (hl : h.Stores l) (ops : List (Op α)) :
    (run c h s ops = .error .fatalError ∧
        (0 < h.maxSize → (inserted ops ++ l).length ≤ 2 ^ 30 → ¬ Granted ops)) ∨
      ∃ out h' s' l', run c h s ops = .ok (out, h', s') ∧ h'.Stores l' ∧
        (out ++ l').Perm (inserted ops ++ l) ∧
        (∀ le, c.Follows le → c.raised s = false → HeapOrder le l →
          c.raised s' = false ∧ HeapOrder le l') := by
  induction ops generalizing h l s with
  | nil =>
    refine .inr ⟨[], h, s, l, rfl, hl, List.Perm.refl _, ?_⟩
    intro le _ hs horder
    exact ⟨hs, horder⟩
  | cons op ops ih =>
    rcases step_stores c s hl op with
      ⟨herr, hwhy⟩ | ⟨returned, h₁, s₁, l₁, hok, hl₁, hperm, hpos, horder⟩
    · left
      refine ⟨by rw [run, herr]; rfl, fun hmax _ hgranted => ?_⟩
      rcases hwhy with ⟨elem, rfl⟩ | hneg
      · exact hgranted elem mem_cons_self
      · omega
    · have hlen := hperm.length_eq
      simp only [length_append] at hlen hpos
      rcases ih s₁ hl₁ with ⟨herr, hwhy⟩ | ⟨out, h', s', l', hrun, hl', hperm', horder'⟩
      · left
        refine ⟨by simp only [run, hok, bind, Except.bind, herr], fun hmax hsmall hgranted => ?_⟩
        simp only [inserted_cons op ops, length_append] at hsmall hwhy
        refine hwhy (hpos hmax (by omega)) (by omega) ?_
        intro elem hmem
        exact hgranted elem (mem_cons_of_mem op hmem)
      · right
        refine ⟨returned.toList ++ out, h', s', l', ?_, hl', ?_, ?_⟩
        · simp only [run, hok, bind, Except.bind, hrun]
        · rw [inserted_cons op ops, append_assoc]
          calc returned.toList ++ (out ++ l')
              ~ returned.toList ++ (inserted ops ++ l₁) := hperm'.append_left _
            _ ~ inserted ops ++ (returned.toList ++ l₁) := perm_append_comm_assoc _ _ _
            _ ~ inserted ops ++ (inserted [op] ++ l) := hperm.append_left _
            _ ~ inserted [op] ++ inserted ops ++ l := by
              rw [append_assoc]
              exact perm_append_comm_assoc _ _ _
        · intro le hle hs ho
          obtain ⟨hs₁, ho₁⟩ := horder le hle hs ho
          exact horder' le hle hs₁ ho₁

/-- Numbers compared by their difference. -/
def natCmp : Comparator Unit ℕ where
  call _ a b := ((a : ℤ) - b, ())
  raised _ := false

theorem natCmp_follows : natCmp.Follows (· ≤ ·) where
  total := Nat.le_total
  trans _ _ _ := Nat.le_trans
  quiet _ _ _ _ := rfl
  neg _ a b _ := by
    simp only [natCmp]
    omega
  pos _ a b _ := by
    simp only [natCmp]
    omega

end Heap

end PhpSandbox.Spl
