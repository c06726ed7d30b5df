import Mathlib.Data.List.Perm.Basic

/-!
# Binary heaps in an array

A binary heap lies in an array: the parent of position `i` is position `(i - 1) / 2`, and no element
is above its parent. An element is put in its place by moving a *hole*: the elements on its way are
moved one by one into the hole, and the element itself is stored last. Here the hole already holds the
element, so that a move of the hole is an exchange of two positions.

## The model

`parent i` is the parent's position. `exchange l i j` is `l` with positions `i` and `j` exchanged.
`HeapOrder le l` says that every element is at most its parent. `UpOrder` and `DownOrder` are the order
of a heap with a hole that is on its way up or down.

## What is proved

An exchange is a permutation; the hole's moves keep the two orders, and where the hole stops the order
is that of a heap; the first element of a heap is a greatest one.
-/

namespace PhpSandbox.Lib

open List

variable {α : Type*}

/-! ### Positions -/

/-- The position of the parent. -/
def parent (i : ℕ) : ℕ := (i - 1) / 2

theorem parent_lt {i : ℕ} (h : 0 < i) : parent i < i := by
  rw [parent]
  omega

theorem parent_child {i k : ℕ} (h : 0 < k) (hk : parent k = i) : k = 2 * i + 1 ∨ k = 2 * i + 2 := by
  rw [parent] at hk
  omega

theorem parent_left (i : ℕ) : parent (2 * i + 1) = i := by
  rw [parent]
  omega

theorem parent_right (i : ℕ) : parent (2 * i + 2) = i := by
  rw [parent]
  omega

/-! ### Exchanging two positions -/

/-- The list with the elements `a` at `i` and `b` at `j` exchanged. -/
def exchange (l : List α) (i j : ℕ) (a b : α) : List α := (l.set i b).set j a

@[simp] theorem length_exchange (l : List α) (i j : ℕ) (a b : α) : (exchange l i j a b).length = l.length := by
  simp [exchange]

variable {l : List α} {a b : α} {i j : ℕ}

theorem exchange_perm (hi : l[i]? = some a) (hj : l[j]? = some b) : (exchange l i j a b).Perm l := by
  obtain ⟨hi', rfl⟩ := List.getElem?_eq_some_iff.1 hi
  obtain ⟨hj', rfl⟩ := List.getElem?_eq_some_iff.1 hj
  exact set_set_perm hi' hj'

theorem exchange_right (hj : j < l.length) : (exchange l i j a b)[j]? = some a := by
  rw [exchange, getElem?_set_self (by simpa using hj)]

theorem exchange_left (hi : i < l.length) (hne : i ≠ j) : (exchange l i j a b)[i]? = some b := by
  rw [exchange, getElem?_set_ne hne.symm, getElem?_set_self hi]

theorem exchange_other {i j k : ℕ} (hi : k ≠ i) (hj : k ≠ j) : (exchange l i j a b)[k]? = l[k]? := by
  rw [exchange, getElem?_set_ne hj.symm, getElem?_set_ne hi.symm]

theorem lt_of_getElem? {i : ℕ} {a : α} (h : l[i]? = some a) : i < l.length :=
  (List.getElem?_eq_some_iff.1 h).1

/-! ### Heap order -/

variable (le : α → α → Prop) (l : List α)

/-- The elements at `k` and at its parent are in order. -/
def InOrder (k : ℕ) : Prop :=
  ∀ a p, l[k]? = some a → l[parent k]? = some p → le a p

/-- Every element is at most its parent. -/
def HeapOrder : Prop :=
  ∀ k, 0 < k → InOrder le l k

/-- The children of the hole are at most the hole's parent. -/
def Grand (i : ℕ) : Prop :=
  0 < i → ∀ k a p, 0 < k → parent k = i → l[k]? = some a → l[parent i]? = some p → le a p

/-- A hole at `i` on its way up: everything is in order except perhaps the hole and its parent. -/
structure UpOrder (l : List α) (i : ℕ) : Prop where
  except : ∀ k, 0 < k → k ≠ i → InOrder le l k
  grand : Grand le l i

/-- A hole at `i` on its way down: everything is in order except perhaps the hole and its children. -/
structure DownOrder (l : List α) (i : ℕ) : Prop where
  except : ∀ k, 0 < k → parent k ≠ i → InOrder le l k
  grand : Grand le l i

variable {le} {l : List α} {i j : ℕ} {a b : α}

theorem inOrder_exchange_other {k : ℕ} (h : InOrder le l k) (hki : k ≠ i) (hkj : k ≠ j)
    (hpi : parent k ≠ i) (hpj : parent k ≠ j) : InOrder le (exchange l i j a b) k := by
  intro x p hx hp
  rw [exchange_other hki hkj] at hx
  rw [exchange_other hpi hpj] at hp
  exact h x p hx hp

/-- The order between `k` and its parent, from what the two positions hold. -/
theorem inOrder_of {k : ℕ} {x p : α} (hx : l[k]? = some x) (hp : l[parent k]? = some p)
    (h : le x p) : InOrder le l k := by
  intro x' p' hx' hp'
  rw [hx] at hx'
  rw [hp] at hp'
  cases hx'
  cases hp'
  exact h

theorem HeapOrder.upOrder_append (h : HeapOrder le l) (a : α) : UpOrder le (l ++ [a]) l.length := by
  constructor
  · intro k hk hne x p hx hp
    have hkl : k < l.length := by
      have := lt_of_getElem? hx
      rw [length_append, length_singleton] at this
      omega
    have hpl : parent k < l.length := Nat.lt_trans (parent_lt hk) hkl
    rw [getElem?_append_left hkl] at hx
    rw [getElem?_append_left hpl] at hp
    exact h k hk x p hx hp
  · intro hi k x p hk hki hx
    have := lt_of_getElem? hx
    have := parent_lt hk
    rw [length_append, length_singleton] at *
    omega

/-- A hole that does not rise above its parent is in its place. -/
theorem UpOrder.heapOrder (h : UpOrder le l i) (hstop : 0 < i → InOrder le l i) : HeapOrder le l := by
  intro k hk
  by_cases hki : k = i
  · subst hki
    exact hstop hk
  · exact h.except k hk hki

/-- The hole moves to its parent, which is below it. -/
theorem UpOrder.move (htrans : ∀ x y z, le x y → le y z → le x z) (h : UpOrder le l i) (hi : 0 < i)
    (ha : l[i]? = some a) (hb : l[parent i]? = some b) (hba : le b a) :
    UpOrder le (exchange l i (parent i) a b) (parent i) := by
  have hlt := parent_lt hi
  have hleft : (exchange l i (parent i) a b)[i]? = some b :=
    exchange_left (lt_of_getElem? ha) (by omega)
  have hright : (exchange l i (parent i) a b)[parent i]? = some a :=
    exchange_right (lt_of_getElem? hb)
  constructor
  · intro k hk hkp
    by_cases hki : k = i
    · subst hki
      exact inOrder_of hleft hright hba
    by_cases hpi : parent k = i
    · -- a child of the old hole now hangs under the old parent
      intro x p hx hp
      rw [exchange_other hki hkp] at hx
      rw [hpi, hleft] at hp
      cases hp
      exact h.grand hi k x b hk hpi hx hb
    · by_cases hpp : parent k = parent i
      · -- the old hole's sibling now hangs under the hole
        intro x p hx hp
        rw [exchange_other hki hkp] at hx
        rw [hpp, hright] at hp
        cases hp
        exact htrans _ _ _ (h.except k hk hki x b hx (by rw [hpp]; exact hb)) hba
      · exact inOrder_exchange_other (h.except k hk hki) hki hkp hpi hpp
  · intro hp0 k x p hk hkp hx hp
    have hpp := parent_lt hp0
    rw [exchange_other (by omega) (by omega)] at hp
    have hbp : le b p := h.except (parent i) hp0 (by omega) b p hb hp
    by_cases hki : k = i
    · subst hki
      rw [hleft] at hx
      cases hx
      exact hbp
    · rw [exchange_other hki (by have := parent_lt hk; omega)] at hx
      exact htrans _ _ _ (h.except k hk hki x b hx (by rw [hkp]; exact hb)) hbp

theorem HeapOrder.downOrder (h : HeapOrder le l) (a : α) : DownOrder le (l.set 0 a) 0 := by
  constructor
  · intro k hk hpk x p hx hp
    rw [getElem?_set_ne (by omega)] at hx hp
    exact h k hk x p hx hp
  · intro h0
    exact absurd h0 (Nat.lt_irrefl 0)

/-- The part of a heap before a position is a heap. -/
theorem HeapOrder.take (h : HeapOrder le l) (n : ℕ) : HeapOrder le (l.take n) := by
  intro k hk x p hx hp
  rw [getElem?_take] at hx hp
  split_ifs at hx hp
  exact h k hk x p hx hp

/-- A hole that is at least its children is in its place. -/
theorem DownOrder.heapOrder (h : DownOrder le l i)
    (hstop : ∀ k, 0 < k → parent k = i → InOrder le l k) : HeapOrder le l := by
  intro k hk
  by_cases hki : parent k = i
  · exact hstop k hk hki
  · exact h.except k hk hki

/-- The hole moves to a child that is above it and no lower than its other child. -/
theorem DownOrder.move (h : DownOrder le l i) (hj : 0 < j) (hji : parent j = i)
    (ha : l[i]? = some a) (hb : l[j]? = some b) (hab : le a b)
    (hmax : ∀ k x, 0 < k → parent k = i → l[k]? = some x → le x b) :
    DownOrder le (exchange l i j a b) j := by
  have hlt : i < j := by
    have := parent_lt hj
    omega
  have hleft : (exchange l i j a b)[i]? = some b := exchange_left (lt_of_getElem? ha) (by omega)
  have hright : (exchange l i j a b)[j]? = some a := exchange_right (lt_of_getElem? hb)
  constructor
  · intro k hk hpk
    by_cases hkj : k = j
    · subst hkj
      exact inOrder_of hright (by rw [hji]; exact hleft) hab
    by_cases hpi : parent k = i
    · -- the sibling of the child that moved up
      intro x p hx hp
      rw [exchange_other (by have := parent_lt hk; omega) hkj] at hx
      rw [hpi, hleft] at hp
      cases hp
      exact hmax k x hk hpi hx
    · by_cases hki : k = i
      · -- the child that moved up, under the parent of the old hole
        subst hki
        intro x p hx hp
        rw [hleft] at hx
        cases hx
        rw [exchange_other (by have := parent_lt hk; omega) hpk] at hp
        exact h.grand hk j b p hj hji hb hp
      · exact inOrder_exchange_other (h.except k hk hpi) hki hkj hpi hpk
  · intro _ k x p hk hkj hx hp
    have := parent_lt hk
    rw [exchange_other (by omega) (by omega)] at hx
    rw [hji, hleft] at hp
    cases hp
    exact h.except k hk (by omega) x b hx (by rw [hkj]; exact hb)

/-- The first element of a heap is a greatest one. -/
theorem HeapOrder.le_top (hrefl : ∀ x, le x x) (htrans : ∀ x y z, le x y → le y z → le x z)
    (h : HeapOrder le l) {top : α} (htop : l[0]? = some top) : ∀ x ∈ l, le x top := by
  have main : ∀ (k : ℕ) x, l[k]? = some x → le x top := by
    intro k
    induction k using Nat.strongRecOn with
    | ind k ih =>
      intro x hx
      by_cases hk : k = 0
      · subst hk
        rw [htop] at hx
        cases hx
        exact hrefl top
      · have hlt := parent_lt (Nat.pos_of_ne_zero hk)
        obtain ⟨p, hp⟩ : ∃ p, l[parent k]? = some p := by
          refine ⟨l.get ⟨parent k, Nat.lt_trans hlt (lt_of_getElem? hx)⟩, ?_⟩
          exact getElem?_eq_getElem _
        exact htrans _ _ _ (h k (Nat.pos_of_ne_zero hk) x p hx hp) (ih _ hlt p hp)
  intro x hx
  obtain ⟨k, hk⟩ := getElem?_of_mem hx
  exact main k x hk

end PhpSandbox.Lib
