import Mathlib.Data.List.Induction
import Mathlib.Data.List.Nodup

/-!
# Doubly linked lists in memory

Nodes have a link to the next node and one to the node before; the links of all nodes are two functions.
`Linked next prev before xs after` says that the nodes `xs` are linked one after the other, that the first links back
to `before` and that the last links on to `after`. The lemmas say what writes to the links do: a node is taken out
(`Linked.remove`), put between two others (`Linked.insert`) or put in the place of another (`Linked.replace`).

`walk` is a loop along one of the links.
-/

namespace PhpSandbox.Lib

open List Option Function

variable {κ : Type*}

/-- Nodes that are linked one after the other, between `before` and `after`. -/
def Linked (next prev : κ → Option κ) : Option κ → List κ → Option κ → Prop
  | _, [], _ => True
  | before, x :: xs, after => prev x = before ∧ next x = xs.head?.or after ∧ Linked next prev (some x) xs after

/-- The loop that follows links until it stops at a node; `none` if it takes more than `n` steps. -/
def walk (next : κ → Option κ) (stop : κ → Bool) : ℕ → Option κ → Option (Option κ)
  | _, none => some none
  | 0, some _ => none
  | n + 1, some x => if stop x then some (some x) else walk next stop n (next x)

section Linked

variable {next prev next' prev' : κ → Option κ} {before after : Option κ} {xs ys : List κ}

theorem linked_append :
    Linked next prev before (xs ++ ys) after ↔
      Linked next prev before xs (ys.head?.or after) ∧ Linked next prev (xs.getLast?.or before) ys after := by
  induction xs generalizing before with
  | nil => simp [Linked]
  | cons x xs ih =>
    have hlast : (x :: xs).getLast?.or before = xs.getLast?.or (some x) := by
      cases xs <;> simp [getLast?_cons]
    have hhead : (xs ++ ys).head?.or after = xs.head?.or (ys.head?.or after) := by
      cases xs <;> simp
    rw [cons_append, Linked, Linked, ih, hlast, hhead, and_assoc, and_assoc]

/-- Links of other nodes do not matter. -/
theorem Linked.congr (h : Linked next prev before xs after) (hnext : ∀ x ∈ xs, next' x = next x)
    (hprev : ∀ x ∈ xs, prev' x = prev x) : Linked next' prev' before xs after := by
  induction xs generalizing before with
  | nil => exact trivial
  | cons x xs ih =>
    obtain ⟨h1, h2, h3⟩ := h
    refine ⟨(hprev x mem_cons_self).trans h1, (hnext x mem_cons_self).trans h2, ih h3 ?_ ?_⟩
    · exact fun y hy => hnext y (mem_cons_of_mem _ hy)
    · exact fun y hy => hprev y (mem_cons_of_mem _ hy)

/-- What a node in the middle links to. -/
theorem Linked.links {x : κ} (h : Linked next prev none (xs ++ x :: ys) none) :
    prev x = xs.getLast? ∧ next x = ys.head? := by
  obtain ⟨-, h1, h2, -⟩ := linked_append.mp h
  rw [or_none] at h1 h2
  exact ⟨h1, h2⟩

theorem getLast?_ne_of_disjoint (h : List.Disjoint xs ys) : ∀ x ∈ ys, xs.getLast? ≠ some x :=
  fun _ hx heq => h (mem_of_getLast? heq) hx

theorem head?_ne_of_disjoint (h : List.Disjoint xs ys) : ∀ x ∈ xs, ys.head? ≠ some x :=
  fun _ hx heq => h hx (mem_of_mem_head? heq)

/-- The list from its other end. -/
theorem Linked.reverse (h : Linked next prev before xs after) : Linked prev next after xs.reverse before := by
  induction xs generalizing before with
  | nil => exact trivial
  | cons x xs ih =>
    obtain ⟨h1, h2, h3⟩ := h
    rw [reverse_cons, linked_append]
    refine ⟨ih h3, ?_, h1, trivial⟩
    rw [h2, getLast?_reverse]

/-- The loop finds the first node to stop at. -/
theorem Linked.walk_eq (h : Linked next prev before xs none) (stop : κ → Bool) {n : ℕ} (hn : xs.length ≤ n) :
    walk next stop n xs.head? = some (xs.find? stop) := by
  induction xs generalizing before n with
  | nil => cases n <;> rfl
  | cons x xs ih =>
    obtain ⟨n, rfl⟩ := Nat.exists_eq_add_of_le' (Nat.one_le_of_lt (Nat.lt_of_lt_of_le (Nat.succ_pos _) hn))
    obtain ⟨-, h2, h3⟩ := h
    rw [head?_cons, walk, find?_cons]
    cases hx : stop x with
    | true => rfl
    | false =>
      rw [h2, or_none]
      exact ih h3 (Nat.le_of_succ_le_succ hn)

end Linked

section Write

variable [DecidableEq κ]

/-- A write to the link of a node, if there is one. -/
def setAt (f : κ → Option κ) (p v : Option κ) : κ → Option κ :=
  match p with
  | some x => update f x v
  | none => f

variable {f : κ → Option κ}

theorem setAt_of_ne {p v : Option κ} {x : κ} (h : p ≠ some x) : setAt f p v x = f x := by
  cases p with
  | none => rfl
  | some y =>
    apply update_of_ne
    rintro rfl
    exact h rfl

variable {next prev : κ → Option κ} {before after : Option κ} {xs ys : List κ} {x y : κ}

theorem update_of_not_mem_list {xs : List κ} {x : κ} (hx : x ∉ xs) (v : Option κ) : ∀ z ∈ xs, update f x v z = f z := by
  intro z hz
  apply update_of_ne
  rintro rfl
  exact hx hz

section Ends

variable (h : Linked next prev before xs after)

include h

theorem Linked.setNext_of_not_mem {p : Option κ} (hp : ∀ x ∈ xs, p ≠ some x) (v : Option κ) :
    Linked (setAt next p v) prev before xs after :=
  h.congr (fun x hx => setAt_of_ne (hp x hx)) fun _ _ => rfl

theorem Linked.setPrev_of_not_mem {p : Option κ} (hp : ∀ x ∈ xs, p ≠ some x) (v : Option κ) :
    Linked next (setAt prev p v) before xs after :=
  h.congr (fun _ _ => rfl) fun x hx => setAt_of_ne (hp x hx)

/-- The last node gets another link. -/
theorem Linked.setNext_getLast (hxs : xs.Nodup) (v : Option κ) :
    Linked (setAt next xs.getLast? v) prev before xs v := by
  induction xs using reverseRecOn with
  | nil => exact trivial
  | append_singleton xs x _ =>
    obtain ⟨h1, h2, -, -⟩ := linked_append.mp h
    obtain ⟨hnodup, -, hdisj⟩ := nodup_append.mp hxs
    rw [linked_append, getLast?_concat]
    refine ⟨h1.setNext_of_not_mem ?_ v, h2, ?_, trivial⟩
    · rintro y hy ⟨⟩
      exact hdisj x hy x mem_cons_self rfl
    · exact update_self x v next

/-- The first node gets another link. -/
theorem Linked.setPrev_head (hxs : xs.Nodup) (v : Option κ) : Linked next (setAt prev xs.head? v) v xs after := by
  have hrev := h.reverse.setNext_getLast (nodup_reverse.mpr hxs) v
  rw [getLast?_reverse] at hrev
  have hback := hrev.reverse
  rwa [reverse_reverse] at hback

end Ends

/-- Two lists are joined, whatever was between them. -/
theorem Linked.join {v w : Option κ} (hx : Linked next prev none xs v) (hy : Linked next prev w ys none)
    (hnodup : (xs ++ ys).Nodup) :
    Linked (setAt next xs.getLast? ys.head?) (setAt prev ys.head? xs.getLast?) none (xs ++ ys) none := by
  obtain ⟨hxs, hys, hdisj⟩ := nodup_append'.mp hnodup
  rw [linked_append, or_none, or_none]
  constructor
  · exact (hx.setNext_getLast hxs _).setPrev_of_not_mem (head?_ne_of_disjoint hdisj) _
  · exact (hy.setPrev_head hys _).setNext_of_not_mem (getLast?_ne_of_disjoint hdisj) _

/-- **A node is taken out.** -/
theorem Linked.remove (h : Linked next prev none (xs ++ x :: ys) none) (hnodup : (xs ++ x :: ys).Nodup) :
    Linked (setAt next (prev x) (next x)) (setAt prev (next x) (prev x)) none (xs ++ ys) none := by
  obtain ⟨hprev, hnext⟩ := h.links
  obtain ⟨h1, -, -, h2⟩ := linked_append.mp h
  rw [hprev, hnext]
  exact h1.join h2 (nodup_cons.mp (nodup_middle.mp hnodup)).2

/-- **A node is put between two others**, whatever was between them. -/
theorem Linked.insert {v w : Option κ} (hx : Linked next prev none xs v) (hy : Linked next prev w ys none)
    (hnodup : (xs ++ x :: ys).Nodup) :
    Linked (setAt (update next x ys.head?) xs.getLast? (some x))
      (setAt (update prev x xs.getLast?) ys.head? (some x)) none (xs ++ x :: ys) none := by
  obtain ⟨hxs, hxys, hdisj⟩ := nodup_append'.mp hnodup
  obtain ⟨hnot, hys⟩ := nodup_cons.mp hxys
  have hx' : x ∉ xs := fun h => hdisj h mem_cons_self
  have hdisj' : List.Disjoint xs ys := fun _ h1 h2 => hdisj h1 (mem_cons_of_mem _ h2)
  have hxu : Linked (update next x ys.head?) (update prev x xs.getLast?) none xs v :=
    hx.congr (update_of_not_mem_list hx' _) (update_of_not_mem_list hx' _)
  have hyu : Linked (update next x ys.head?) (update prev x xs.getLast?) w ys none :=
    hy.congr (update_of_not_mem_list hnot _) (update_of_not_mem_list hnot _)
  rw [linked_append, or_none]
  refine ⟨?_, ?_, ?_, ?_⟩
  · exact (hxu.setNext_getLast hxs _).setPrev_of_not_mem (head?_ne_of_disjoint hdisj') _
  · rw [setAt_of_ne fun h => hnot (mem_of_mem_head? h), update_self, or_none]
  · rw [setAt_of_ne fun h => hx' (mem_of_getLast? h), update_self, or_none]
  · exact (hyu.setPrev_head hys _).setNext_of_not_mem (getLast?_ne_of_disjoint hdisj') _

/-- **A node is put in the place of another.** -/
theorem Linked.replace (h : Linked next prev none (xs ++ x :: ys) none) (hnodup : (xs ++ x :: ys).Nodup)
    (hy : y ∉ xs ++ x :: ys) :
    Linked (setAt (update next y (next x)) (prev x) (some y))
      (setAt (update prev y (prev x)) (next x) (some y)) none (xs ++ y :: ys) none := by
  obtain ⟨hprev, hnext⟩ := h.links
  obtain ⟨h1, -, -, h2⟩ := linked_append.mp h
  rw [hprev, hnext]
  apply h1.insert h2
  rw [nodup_middle, nodup_cons] at hnodup ⊢
  refine ⟨fun hmem => hy ?_, hnodup.2⟩
  rw [mem_append, mem_cons]
  exact (mem_append.mp hmem).imp_right .inr

end Write

/-! ### Positions -/

section Position

variable {x y : κ} {xs xs₁ xs₂ : List κ} {i : ℕ}

theorem exists_split_of_getElem? (h : xs[i]? = some x) : ∃ xs₁ xs₂, xs = xs₁ ++ x :: xs₂ ∧ xs₁.length = i := by
  obtain ⟨hi, rfl⟩ := List.getElem?_eq_some_iff.mp h
  refine ⟨xs.take i, xs.drop (i + 1), ?_, ?_⟩
  · rw [getElem_cons_drop, take_append_drop]
  · rw [length_take, Nat.min_eq_left (Nat.le_of_lt hi)]

theorem getElem?_middle : (xs₁ ++ x :: xs₂)[xs₁.length]? = some x := by
  rw [getElem?_append_right (Nat.le_refl _), Nat.sub_self, getElem?_cons_zero]

theorem eraseIdx_middle : (xs₁ ++ x :: xs₂).eraseIdx xs₁.length = xs₁ ++ xs₂ := by
  rw [eraseIdx_append_of_length_le (Nat.le_refl _), Nat.sub_self, eraseIdx_cons_zero]

theorem set_middle : (xs₁ ++ x :: xs₂).set xs₁.length y = xs₁ ++ y :: xs₂ := by
  rw [set_append_right _ _ (Nat.le_refl _), Nat.sub_self, set_cons_zero]

variable {next prev : κ → Option κ}

/-- The node after the one at a position. -/
theorem Linked.next_eq (h : Linked next prev none xs none) (hi : xs[i]? = some x) : next x = xs[i + 1]? := by
  obtain ⟨xs₁, xs₂, rfl, rfl⟩ := exists_split_of_getElem? hi
  rw [h.links.2, getElem?_append_right (Nat.le_add_right _ 1), Nat.add_sub_cancel_left,
    getElem?_cons_succ, head?_eq_getElem?]

/-- The node before it. -/
theorem Linked.prev_eq (h : Linked next prev none xs none)
    (hi : xs[i]? = some x) : prev x = if i = 0 then none else xs[i - 1]? := by
  obtain ⟨xs₁, xs₂, rfl, rfl⟩ := exists_split_of_getElem? hi
  rw [h.links.1, getLast?_eq_getElem?]
  cases xs₁ with
  | nil => rfl
  | cons z zs =>
    rw [if_neg (by simp), getElem?_append_left (by simp)]

/-- Where a position is when another one is taken out. -/
def shift (j i : ℕ) : ℕ := if j < i then i - 1 else i

variable (h : (xs₁ ++ x :: xs₂).Nodup)

include h

theorem getElem?_eq_middle_iff : (xs₁ ++ x :: xs₂)[i]? = some x ↔ i = xs₁.length := by
  have hmiddle := @getElem?_inj _ xs₁.length i _ (by simp) h
  rw [getElem?_middle] at hmiddle
  rw [eq_comm, hmiddle, eq_comm]

/-- What is at a position, after a node is taken out: if it is that node, then the one after it. -/
theorem getElem?_shift [DecidableEq κ] (i : ℕ) :
    (xs₁ ++ xs₂)[shift xs₁.length i]? =
      if (xs₁ ++ x :: xs₂)[i]? = some x then xs₂.head? else (xs₁ ++ x :: xs₂)[i]? := by
  simp only [getElem?_eq_middle_iff h, shift]
  rw [← eraseIdx_middle (x := x), getElem?_eraseIdx]
  rcases Nat.lt_trichotomy i xs₁.length with hlt | rfl | hgt
  · rw [if_neg (Nat.lt_asymm hlt), if_pos hlt, if_neg (Nat.ne_of_lt hlt)]
  · rw [if_neg (Nat.lt_irrefl _), if_neg (Nat.lt_irrefl _), if_pos rfl, head?_eq_getElem?,
      getElem?_append_right (Nat.le_add_right _ 1), Nat.add_sub_cancel_left, getElem?_cons_succ]
  · rw [if_pos hgt, if_neg (by omega), if_neg (Nat.ne_of_gt hgt), Nat.sub_add_cancel (by omega)]

/-- What is at a position, after another node is put in the place of one. -/
theorem getElem?_replaced [DecidableEq κ] (i : ℕ) :
    (xs₁ ++ y :: xs₂)[i]? =
      if (xs₁ ++ x :: xs₂)[i]? = some x then some y else (xs₁ ++ x :: xs₂)[i]? := by
  simp only [getElem?_eq_middle_iff h]
  rw [← set_middle (x := x), getElem?_set]
  simp [eq_comm]

end Position

end PhpSandbox.Lib
