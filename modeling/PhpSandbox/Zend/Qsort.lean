import Mathlib.Data.List.Nodup
import Mathlib.GroupTheory.Perm.Basic
import Mathlib.Tactic.Linarith

/-!
# `zend_qsort_r`

The sort of `Zend/zend_qsort.c`: a quicksort whose pivot is the element in the middle,
and which keeps the segments that are still to be sorted on a stack of
`QSORT_STACK_SIZE` entries.

## The model

Addresses are the numbers of elements, counted from `base`, so that the address before
the first element is `-1`. The array is a function on them. `compare` is the comparison
with its context, and `siz` the size of an element, which matters for the choice of the
pivot only: the offset of the middle is kept in a `uint`. `_zend_qsort_swap`, which goes
over the two elements by `int`s and then by the `char`s that are left, is not modelled as
these two loops: it is taken as an exchange of the two elements.

## What is proved

`partition_spec`: what is left of the pivot is not above it, and what is right of it not
below. `qsortLoop_round`: what one round of the loop does, for any `compare`.
`zendQsortR_safe`: the stack is never full, no element of another array is touched, and
the result is the elements, in order if `compare` is a total preorder.
-/

namespace PhpSandbox.Zend.Qsort

open List

/-- The array. -/
abbrev Mem (α : Type) := ℤ → α

/-- `QSORT_STACK_SIZE`. -/
def qsortStackSize : ℕ := 64

section Model

variable {α : Type} (compare : α → α → ℤ) (siz : ℕ) (a : Mem α)

/-- `_zend_qsort_swap`. -/
def zendQsortSwap (i j : ℤ) : Mem α := a ∘ Equiv.swap i j

/-- The first loop of a partition. -/
def scanUp (a : Mem α) (b seg1 seg2 : ℤ) : ℤ :=
  if seg1 < seg2 ∧ 0 < compare (a b) (a seg1) then scanUp a b (seg1 + 1) seg2 else seg1
termination_by (seg2 - seg1).toNat
decreasing_by omega

/-- The second loop of a partition. -/
def scanDown (a : Mem α) (b seg1 seg2 : ℤ) : ℤ :=
  if seg1 ≤ seg2 ∧ 0 < compare (a seg2) (a b) then scanDown a b seg1 (seg2 - 1) else seg2
termination_by (seg2 - seg1 + 1).toNat
decreasing_by omega

/-- The first loop stops at the first element that is not below the pivot, or where the second one begins. -/
theorem scanUp_spec (b seg1 seg2 : ℤ) :
    seg1 ≤ scanUp compare a b seg1 seg2 ∧ scanUp compare a b seg1 seg2 ≤ max seg1 seg2 ∧
      (∀ i, seg1 ≤ i → i < scanUp compare a b seg1 seg2 → 0 < compare (a b) (a i)) ∧
      (scanUp compare a b seg1 seg2 < seg2 → compare (a b) (a (scanUp compare a b seg1 seg2)) ≤ 0) := by
  induction seg1 using scanUp.induct compare a b seg2 with
  | case1 seg1 h ih =>
    rw [scanUp, if_pos h]
    obtain ⟨hle, hmax, hbelow, hstop⟩ := ih
    refine ⟨by omega, by omega, ?_, hstop⟩
    intro i hi hlt
    by_cases heq : i = seg1
    · rw [heq]
      exact h.2
    · exact hbelow i (by omega) hlt
  | case2 seg1 h =>
    rw [scanUp, if_neg h]
    refine ⟨le_rfl, by omega, by omega, ?_⟩
    intro hlt
    exact not_lt.mp fun hpos => h ⟨hlt, hpos⟩

/-- The second loop stops at the last element that is not above the pivot, or before the first one's end. -/
theorem scanDown_spec (b seg1 seg2 : ℤ) :
    scanDown compare a b seg1 seg2 ≤ seg2 ∧ min (seg1 - 1) seg2 ≤ scanDown compare a b seg1 seg2 ∧
      (∀ i, scanDown compare a b seg1 seg2 < i → i ≤ seg2 → 0 < compare (a i) (a b)) ∧
      (seg1 ≤ scanDown compare a b seg1 seg2 → compare (a (scanDown compare a b seg1 seg2)) (a b) ≤ 0) := by
  induction seg2 using scanDown.induct compare a b seg1 with
  | case1 seg2 h ih =>
    rw [scanDown, if_pos h]
    obtain ⟨hle, hmin, habove, hstop⟩ := ih
    refine ⟨by omega, by omega, ?_, hstop⟩
    intro i hlt hi
    by_cases heq : i = seg2
    · rw [heq]
      exact h.2
    · exact habove i hlt (by omega)
  | case2 seg2 h =>
    rw [scanDown, if_neg h]
    refine ⟨le_rfl, by omega, by omega, ?_⟩
    intro hle
    exact not_lt.mp fun hpos => h ⟨hle, hpos⟩

variable {a : Mem α}

theorem scan_lt {b seg1 seg2 : ℤ}
    (h : ¬ scanDown compare a b (scanUp compare a b seg1 seg2) seg2 ≤ scanUp compare a b seg1 seg2) :
    (scanDown compare a b (scanUp compare a b seg1 seg2) seg2 - 1 - (scanUp compare a b seg1 seg2 + 1)).toNat <
      (seg2 - seg1).toNat := by
  have hup := (scanUp_spec compare a b seg1 seg2).1
  have hdown := (scanDown_spec compare a b (scanUp compare a b seg1 seg2) seg2).1
  omega

/-- The loop of a partition: the array, and `seg2` at its end. -/
def partitionLoop (a : Mem α) (b seg1 seg2 : ℤ) : Mem α × ℤ :=
  let seg1' := scanUp compare a b seg1 seg2
  let seg2' := scanDown compare a b seg1' seg2
  if seg2' ≤ seg1' then (a, seg2') else partitionLoop (zendQsortSwap a seg1' seg2') b (seg1' + 1) (seg2' - 1)
termination_by (seg2 - seg1).toNat
decreasing_by exact scan_lt compare ‹_›

/-- The place of the pivot in a segment whose last element is `n` elements from its first. -/
def pivotOffset (n : ℤ) : ℤ := ((n.toNat * siz / 2 % 2 ^ 32 / siz : ℕ) : ℤ)

/-- The segment from `b` to `e` with the pivot where it belongs, and its place. -/
def partition (a : Mem α) (b e : ℤ) : Mem α × ℤ :=
  let a := zendQsortSwap a b (b + pivotOffset siz (e - b))
  let r := partitionLoop compare a b (b + 1) e
  (zendQsortSwap r.1 b r.2, r.2)

/-! The addresses that are read or written, in their order. -/

/-- What the first loop compares. -/
def scanUpTouched (a : Mem α) (b seg1 seg2 : ℤ) : List ℤ :=
  if seg1 < seg2 then
    b :: seg1 :: if 0 < compare (a b) (a seg1) then scanUpTouched a b (seg1 + 1) seg2 else []
  else []
termination_by (seg2 - seg1).toNat
decreasing_by omega

/-- What the second loop compares. -/
def scanDownTouched (a : Mem α) (b seg1 seg2 : ℤ) : List ℤ :=
  if seg1 ≤ seg2 then
    seg2 :: b :: if 0 < compare (a seg2) (a b) then scanDownTouched a b seg1 (seg2 - 1) else []
  else []
termination_by (seg2 - seg1 + 1).toNat
decreasing_by omega

/-- What the loop of a partition touches. -/
def partitionLoopTouched (a : Mem α) (b seg1 seg2 : ℤ) : List ℤ :=
  let seg1' := scanUp compare a b seg1 seg2
  let seg2' := scanDown compare a b seg1' seg2
  scanUpTouched compare a b seg1 seg2 ++ scanDownTouched compare a b seg1' seg2 ++
    if seg2' ≤ seg1' then []
    else seg1' :: seg2' :: partitionLoopTouched (zendQsortSwap a seg1' seg2') b (seg1' + 1) (seg2' - 1)
termination_by (seg2 - seg1).toNat
decreasing_by exact scan_lt compare ‹_›

/-- What a partition touches. -/
def partitionTouched (a : Mem α) (b e : ℤ) : List ℤ :=
  let pivot := b + pivotOffset siz (e - b)
  b :: pivot :: (partitionLoopTouched compare (zendQsortSwap a b pivot) b (b + 1) e ++
    [b, (partition compare siz a b e).2])

end Model

section Swap

variable {α : Type} {a : Mem α} {i j k : ℤ}

theorem swap_left : zendQsortSwap a i j i = a j := congrArg a (Equiv.swap_apply_left i j)

theorem swap_right : zendQsortSwap a i j j = a i := congrArg a (Equiv.swap_apply_right i j)

theorem swap_of_ne (hi : k ≠ i) (hj : k ≠ j) : zendQsortSwap a i j k = a k :=
  congrArg a (Equiv.swap_apply_of_ne_of_ne hi hj)

end Swap

/-! ### Rearranging a segment -/

section PermIn

variable {α : Type} {b e i j : ℤ} {a a' a'' : Mem α}

/-- The elements from `b` to `e` are rearranged, and no other ones. -/
def PermIn (b e : ℤ) (a a' : Mem α) : Prop :=
  ∃ σ : Equiv.Perm ℤ, (∀ k, k < b ∨ e < k → σ k = k) ∧ a' = a ∘ σ

theorem PermIn.refl (b e : ℤ) (a : Mem α) : PermIn b e a a := ⟨1, fun _ _ => rfl, rfl⟩

theorem PermIn.trans (h : PermIn b e a a') (h' : PermIn b e a' a'') : PermIn b e a a'' := by
  obtain ⟨σ, hσ, rfl⟩ := h
  obtain ⟨τ, hτ, rfl⟩ := h'
  refine ⟨σ * τ, ?_, rfl⟩
  intro k hk
  rw [Equiv.Perm.mul_apply, hτ k hk, hσ k hk]

theorem PermIn.mono {b' e' : ℤ} (h : PermIn b e a a') (hb : b' ≤ b) (he : e ≤ e') : PermIn b' e' a a' := by
  obtain ⟨σ, hσ, rfl⟩ := h
  exact ⟨σ, fun k hk => hσ k (by omega), rfl⟩

theorem permIn_swap (hi : b ≤ i ∧ i ≤ e) (hj : b ≤ j ∧ j ≤ e) (a : Mem α) : PermIn b e a (zendQsortSwap a i j) := by
  refine ⟨Equiv.swap i j, ?_, rfl⟩
  intro k hk
  exact Equiv.swap_apply_of_ne_of_ne (by omega) (by omega)

/-- Outside of the segment nothing is changed. -/
theorem PermIn.eq_of_not_mem (h : PermIn b e a a') (hi : i < b ∨ e < i) : a' i = a i := by
  obtain ⟨σ, hσ, rfl⟩ := h
  rw [Function.comp_apply, hσ i hi]

/-- A permutation that keeps every place outside of the segment has its places as images of its places. -/
theorem mem_segment_iff {σ : Equiv.Perm ℤ} (hσ : ∀ k, k < b ∨ e < k → σ k = k) (i : ℤ) :
    b ≤ σ i ∧ σ i ≤ e ↔ b ≤ i ∧ i ≤ e := by
  constructor
  · intro hin
    by_contra hout
    rw [hσ i (by omega)] at hin
    exact hout hin
  · intro hin
    by_contra hout
    have hfix : σ (σ i) = σ i := hσ _ (by omega)
    rw [σ.injective hfix] at hout
    exact hout hin

/-- An element of the segment was in it before. -/
theorem PermIn.exists_eq (h : PermIn b e a a') (hi : b ≤ i ∧ i ≤ e) : ∃ k, b ≤ k ∧ k ≤ e ∧ a' i = a k := by
  obtain ⟨σ, hσ, rfl⟩ := h
  obtain ⟨hk, hk'⟩ := (mem_segment_iff hσ i).mpr hi
  exact ⟨σ i, hk, hk', rfl⟩

end PermIn

/-! ### The partition -/

section Partition

variable {α : Type} (compare : α → α → ℤ) (siz : ℕ) {a : Mem α}

/-- `x` is not above the pivot, as far as one of the two comparisons says. -/
def Low (p x : α) : Prop := 0 < compare p x ∨ compare x p ≤ 0

/-- `x` is not below the pivot. -/
def High (p x : α) : Prop := 0 < compare x p ∨ compare p x ≤ 0

/-- The array is split at `s`. -/
structure Split (a : Mem α) (p : α) (b s e : ℤ) : Prop where
  low : ∀ i, b < i → i ≤ s → Low compare p (a i)
  high : ∀ i, s < i → i ≤ e → High compare p (a i)

variable {b e seg1 seg2 : ℤ}

/-- The loop of a partition keeps what is left of `seg1` low and what is right of `seg2` high. -/
theorem partitionLoop_spec (hb : b < seg1) (hseg : seg1 ≤ seg2 + 1) (he : seg2 ≤ e)
    (hlow : ∀ i, b < i → i < seg1 → Low compare (a b) (a i))
    (hhigh : ∀ i, seg2 < i → i ≤ e → High compare (a b) (a i)) :
    PermIn (b + 1) e a (partitionLoop compare a b seg1 seg2).1 ∧
      b ≤ (partitionLoop compare a b seg1 seg2).2 ∧ (partitionLoop compare a b seg1 seg2).2 ≤ e ∧
      Split compare (partitionLoop compare a b seg1 seg2).1 (a b) b (partitionLoop compare a b seg1 seg2).2 e := by
  induction a, seg1, seg2 using partitionLoop.induct compare b with
  | case1 a seg1 seg2 u d h =>
    obtain ⟨hu, humax, hbelow, -⟩ : _ ≤ u ∧ u ≤ _ ∧ _ ∧ _ := scanUp_spec compare a b seg1 seg2
    obtain ⟨hd, hdmin, habove, hdstop⟩ : d ≤ _ ∧ _ ≤ d ∧ _ ∧ _ := scanDown_spec compare a b u seg2
    rw [partitionLoop, if_pos h]
    refine ⟨PermIn.refl _ _ _, show b ≤ d by omega, show d ≤ e by omega, ?_, ?_⟩
    · intro i hi (hid : i ≤ d)
      by_cases hleft : i < seg1
      · exact hlow i hi hleft
      by_cases hscan : i < u
      · exact .inl (hbelow i (by omega) hscan)
      · -- both loops stopped at this element
        have heq : i = d := by omega
        rw [heq]
        exact .inr (hdstop (by omega))
    · intro i (hid : d < i) hi
      by_cases hright : seg2 < i
      · exact hhigh i hright hi
      · exact .inl (habove i hid (by omega))
  | case2 a seg1 seg2 u d h ih =>
    obtain ⟨hu, humax, hbelow, hustop⟩ : _ ≤ u ∧ u ≤ _ ∧ _ ∧ _ := scanUp_spec compare a b seg1 seg2
    obtain ⟨hd, hdmin, habove, hdstop⟩ : d ≤ _ ∧ _ ≤ d ∧ _ ∧ _ := scanDown_spec compare a b u seg2
    have hpivot : zendQsortSwap a u d b = a b := swap_of_ne (by omega) (by omega)
    obtain ⟨hperm, hlo, hhi, hsplit⟩ := ih (by omega) (by omega) (by omega)
      (fun i hi hiu => by
        rw [hpivot]
        rcases eq_or_ne i u with rfl | hne
        · rw [swap_left]
          exact .inr (hdstop (by omega))
        · rw [swap_of_ne hne (by omega)]
          by_cases hleft : i < seg1
          · exact hlow i hi hleft
          · exact .inl (hbelow i (by omega) (by omega)))
      (fun i hi hie => by
        rw [hpivot]
        rcases eq_or_ne i d with rfl | hne
        · rw [swap_right]
          exact .inr (hustop (by omega))
        · rw [swap_of_ne (by omega) hne]
          by_cases hright : seg2 < i
          · exact hhigh i hright hie
          · exact .inl (habove i (by omega) (by omega)))
    rw [hpivot] at hsplit
    rw [partitionLoop, if_neg h]
    refine ⟨?_, hlo, hhi, hsplit⟩
    exact (permIn_swap ⟨by omega, by omega⟩ ⟨by omega, by omega⟩ a).trans hperm

theorem pivotOffset_bounds {n : ℤ} (hn : 0 ≤ n) : 0 ≤ pivotOffset siz n ∧ pivotOffset siz n ≤ n := by
  refine ⟨Int.natCast_nonneg _, ?_⟩
  have hle : n.toNat * siz / 2 % 2 ^ 32 / siz ≤ n.toNat :=
    calc n.toNat * siz / 2 % 2 ^ 32 / siz ≤ n.toNat * siz / siz :=
          Nat.div_le_div_right ((Nat.mod_le _ _).trans (Nat.div_le_self _ _))
      _ ≤ n.toNat := Nat.div_le_of_le_mul (Nat.mul_comm _ _).le
  unfold pivotOffset
  omega

/-- The segment is rearranged, with the pivot between what is low and what is high. -/
structure Partitioned (a : Mem α) (b e : ℤ) (r : Mem α × ℤ) : Prop where
  perm : PermIn b e a r.1
  left_le : b ≤ r.2
  le_right : r.2 ≤ e
  low : ∀ i, b ≤ i → i < r.2 → Low compare (r.1 r.2) (r.1 i)
  high : ∀ i, r.2 < i → i ≤ e → High compare (r.1 r.2) (r.1 i)

variable (a : Mem α)

/-- **A partition**. -/
theorem partition_spec {b e : ℤ} (h : b < e) : Partitioned compare a b e (partition compare siz a b e) := by
  have hpivot := pivotOffset_bounds siz (show 0 ≤ e - b by omega)
  unfold partition
  dsimp only
  have hfirst : PermIn b e a (zendQsortSwap a b (b + pivotOffset siz (e - b))) :=
    permIn_swap ⟨le_rfl, h.le⟩ ⟨by omega, by omega⟩ a
  generalize zendQsortSwap a b (b + pivotOffset siz (e - b)) = a₁ at hfirst
  have hloop := partitionLoop_spec compare (show b < b + 1 by omega) (show b + 1 ≤ e + 1 by omega) (le_refl e)
    (fun i (hi : b < i) (hi' : i < b + 1) => show Low compare (a₁ b) (a₁ i) by omega)
    (fun i (hi : e < i) (hi' : i ≤ e) => show High compare (a₁ b) (a₁ i) by omega)
  generalize partitionLoop compare a₁ b (b + 1) e = r at hloop
  obtain ⟨hperm, hlo, hhi, hsplit⟩ := hloop
  have hb : r.1 b = a₁ b := hperm.eq_of_not_mem (by omega)
  have hat : zendQsortSwap r.1 b r.2 r.2 = a₁ b := by rw [swap_right, hb]
  refine ⟨?_, hlo, hhi, ?_, ?_⟩
  · exact (hfirst.trans (hperm.mono (by omega) le_rfl)).trans (permIn_swap ⟨le_rfl, h.le⟩ ⟨hlo, hhi⟩ r.1)
  · intro i hi (his : i < r.2)
    show Low compare (zendQsortSwap r.1 b r.2 r.2) (zendQsortSwap r.1 b r.2 i)
    rw [hat]
    rcases eq_or_ne i b with rfl | hne
    · rw [swap_left]
      exact hsplit.low r.2 his le_rfl
    · rw [swap_of_ne hne (by omega)]
      exact hsplit.low i (by omega) his.le
  · intro i (his : r.2 < i) hi
    show High compare (zendQsortSwap r.1 b r.2 r.2) (zendQsortSwap r.1 b r.2 i)
    rw [hat, swap_of_ne (by omega) (by omega)]
    exact hsplit.high i his hi

theorem scanUpTouched_inside (hb : b ≤ e) (hb1 : b ≤ seg1) (he : seg2 ≤ e) :
    ∀ k ∈ scanUpTouched compare a b seg1 seg2, b ≤ k ∧ k ≤ e := by
  induction seg1 using scanUpTouched.induct compare a b seg2 with
  | case1 seg1 h ih =>
    rw [scanUpTouched, if_pos h]
    refine forall_mem_cons.mpr ⟨⟨le_rfl, hb⟩, forall_mem_cons.mpr ⟨⟨hb1, by omega⟩, ?_⟩⟩
    split_ifs
    · exact ih (by omega)
    · exact fun k hk => nomatch hk
  | case2 seg1 h => simp [scanUpTouched, h]

theorem scanDownTouched_inside (hb : b ≤ e) (hb1 : b ≤ seg1) (he : seg2 ≤ e) :
    ∀ k ∈ scanDownTouched compare a b seg1 seg2, b ≤ k ∧ k ≤ e := by
  induction seg2 using scanDownTouched.induct compare a b seg1 with
  | case1 seg2 h ih =>
    rw [scanDownTouched, if_pos h]
    refine forall_mem_cons.mpr ⟨⟨by omega, he⟩, forall_mem_cons.mpr ⟨⟨le_rfl, hb⟩, ?_⟩⟩
    split_ifs
    · exact ih (by omega)
    · exact fun k hk => nomatch hk
  | case2 seg2 h => simp [scanDownTouched, h]

theorem partitionLoopTouched_inside (hb : b ≤ e) (hb1 : b ≤ seg1) (he : seg2 ≤ e) :
    ∀ k ∈ partitionLoopTouched compare a b seg1 seg2, b ≤ k ∧ k ≤ e := by
  induction a, seg1, seg2 using partitionLoopTouched.induct compare b with
  | case1 a seg1 seg2 u d ih =>
    have hu : _ ≤ u := (scanUp_spec compare a b seg1 seg2).1
    have hd : d ≤ _ := (scanDown_spec compare a b u seg2).1
    rw [partitionLoopTouched]
    refine forall_mem_append.mpr ⟨forall_mem_append.mpr
      ⟨scanUpTouched_inside compare a hb hb1 he, scanDownTouched_inside compare a hb (by omega) he⟩, ?_⟩
    by_cases h : d ≤ u
    · rw [if_pos h]
      exact fun k hk => nomatch hk
    · rw [if_neg h]
      exact forall_mem_cons.mpr ⟨show b ≤ u ∧ u ≤ e by omega,
        forall_mem_cons.mpr ⟨show b ≤ d ∧ d ≤ e by omega, ih h (by omega) (by omega)⟩⟩

theorem partitionTouched_inside {b e : ℤ} (h : b < e) : ∀ k ∈ partitionTouched compare siz a b e, b ≤ k ∧ k ≤ e := by
  have hpivot := pivotOffset_bounds siz (show 0 ≤ e - b by omega)
  have hspec := partition_spec compare siz a h
  have hlo := hspec.left_le
  have hhi := hspec.le_right
  have hloop := partitionLoopTouched_inside compare (zendQsortSwap a b (b + pivotOffset siz (e - b))) h.le
    (show b ≤ b + 1 by omega) (le_refl e)
  simp only [partitionTouched, forall_mem_cons, forall_mem_append, not_mem_nil, false_implies, implies_true, and_true]
  exact ⟨by omega, by omega, hloop, by omega, by omega⟩

end Partition

/-! ### The loop -/

section Loop

variable {α : Type} (compare : α → α → ℤ) (siz : ℕ)

/-- The number of elements of a segment. -/
def segLength (b e : ℤ) : ℕ := (e - b + 1).toNat

/-- What is left to do: the elements of all segments, and the segments on the stack. -/
def work (stack : List (ℤ × ℤ)) (b e : ℤ) : ℕ :=
  2 * segLength b e + (stack.map fun seg => 2 * segLength seg.1 seg.2 + 1).sum

/-- The loop over the segments, from the segment from `b` to `e` on; nothing if the stack is full. The longer part
of a segment goes on the stack. -/
def qsortLoop (stack : List (ℤ × ℤ)) (b e : ℤ) (a : Mem α) : Option (Mem α) :=
  if h : b < e then
    let r := partition compare siz a b e
    if r.2 - b ≤ e - r.2 then
      if r.2 + 1 < e then
        if stack.length < qsortStackSize then qsortLoop ((r.2 + 1, e) :: stack) b (r.2 - 1) r.1 else none
      else qsortLoop stack b (r.2 - 1) r.1
    else if b < r.2 - 1 then
      if stack.length < qsortStackSize then qsortLoop ((b, r.2 - 1) :: stack) (r.2 + 1) e r.1 else none
    else qsortLoop stack (r.2 + 1) e r.1
  else
    match stack with
    | [] => some a
    | (b, e) :: stack => qsortLoop stack b e a
termination_by work stack b e
decreasing_by
  all_goals simp only [work, segLength, map_cons, sum_cons]
  all_goals first
    | omega
    | (have hlo := (partition_spec compare siz a h).left_le
       have hhi := (partition_spec compare siz a h).le_right
       omega)

/-- The two parts of a segment with the pivot at `s`, the shorter one first. -/
def parts (b s e : ℤ) : (ℤ × ℤ) × (ℤ × ℤ) :=
  if s - b ≤ e - s then ((b, s - 1), (s + 1, e)) else ((s + 1, e), (b, s - 1))

/-- A segment of two elements or more goes on the stack. -/
def push (seg : ℤ × ℤ) (stack : List (ℤ × ℤ)) : List (ℤ × ℤ) := if seg.1 < seg.2 then seg :: stack else stack

variable {b s e : ℤ}

theorem work_push_lt (hb : b ≤ s) (he : s ≤ e) (stack : List (ℤ × ℤ)) :
    work (push (parts b s e).2 stack) (parts b s e).1.1 (parts b s e).1.2 < work stack b e := by
  rw [parts, push]
  split_ifs <;> simp only [work, segLength, map_cons, sum_cons] <;> omega

/-- What the loop touches. -/
def qsortTouched (stack : List (ℤ × ℤ)) (b e : ℤ) (a : Mem α) : List ℤ :=
  if b < e then
    let r := partition compare siz a b e
    partitionTouched compare siz a b e ++
      qsortTouched (push (parts b r.2 e).2 stack) (parts b r.2 e).1.1 (parts b r.2 e).1.2 r.1
  else
    match stack with
    | [] => []
    | (b, e) :: stack => qsortTouched stack b e a
termination_by work stack b e
decreasing_by
  · have hr := partition_spec compare siz a ‹b < e›
    exact work_push_lt hr.left_le hr.le_right stack
  · simp only [work, map_cons, sum_cons]
    omega

/-- `zend_qsort_r`. -/
def zendQsortR : List α → Option (List α)
  | [] => some []
  | x :: l =>
    (qsortLoop compare siz [] 0 l.length fun i => (x :: l).getD i.toNat x).map fun a =>
      (List.range (l.length + 1)).map fun i => a i

/-- The elements that `zend_qsort_r` touches. -/
def zendQsortTouched : List α → List ℤ
  | [] => []
  | x :: l => qsortTouched compare siz [] 0 l.length fun i => (x :: l).getD i.toNat x

/-! ### The order of the result -/

/-- `compare` is a total preorder, of which it says whether the first element comes first. -/
structure IsPreorder : Prop where
  total : ∀ x y, compare x y ≤ 0 ∨ compare y x ≤ 0
  trans : ∀ x y z, compare x y ≤ 0 → compare y z ≤ 0 → compare x z ≤ 0

/-- The segment is in order. -/
def SortedOn (b e : ℤ) (a : Mem α) : Prop := ∀ i j, b ≤ i → i < j → j ≤ e → compare (a i) (a j) ≤ 0

/-- The segments are sorted, one after the other. -/
def SortsAll : List (ℤ × ℤ) → Mem α → Mem α → Prop
  | [], a, a' => a' = a
  | (b, e) :: segs, a, a'' => ∃ a', PermIn b e a a' ∧ SortedOn compare b e a' ∧ SortsAll segs a' a''

/-- The segments are as short as the size of the stack asks for: each has less than half of the elements that the
one under it may have. -/
def StackOk : List (ℤ × ℤ) → Prop
  | [] => True
  | seg :: segs => segLength seg.1 seg.2 < 2 ^ (qsortStackSize - segs.length) ∧ StackOk segs

variable {compare}

theorem IsPreorder.of_low (hc : IsPreorder compare) {p x : α} (h : Low compare p x) : compare x p ≤ 0 := by
  rcases h with h | h
  · exact (hc.total x p).resolve_right (not_le.mpr h)
  · exact h

theorem IsPreorder.of_high (hc : IsPreorder compare) {p x : α} (h : High compare p x) : compare p x ≤ 0 := by
  rcases h with h | h
  · exact (hc.total p x).resolve_right (not_le.mpr h)
  · exact h

variable {b e : ℤ}

theorem sortedOn_of_le (h : e ≤ b) (a : Mem α) : SortedOn compare b e a := by
  intro i j hi hij hj
  omega

variable {a a' : Mem α} {stack : List (ℤ × ℤ)}

theorem SortedOn.congr (h : SortedOn compare b e a) (heq : ∀ i, b ≤ i → i ≤ e → a' i = a i) :
    SortedOn compare b e a' := by
  intro i j hi hij hj
  rw [heq i hi (by omega), heq j (by omega) hj]
  exact h i j hi hij hj

/-- A segment whose two parts are in order. -/
theorem sortedOn_of_split (hc : IsPreorder compare) (hleft : SortedOn compare b (s - 1) a)
    (hright : SortedOn compare (s + 1) e a) (hlow : ∀ i, b ≤ i → i < s → compare (a i) (a s) ≤ 0)
    (hhigh : ∀ i, s < i → i ≤ e → compare (a s) (a i) ≤ 0) : SortedOn compare b e a := by
  intro i j hi hij hj
  rcases lt_trichotomy j s with hjs | rfl | hjs
  · exact hleft i j hi hij (by omega)
  · exact hlow i hi hij
  · rcases lt_trichotomy i s with his | rfl | his
    · exact hc.trans _ _ _ (hlow i hi his) (hhigh j hjs hj)
    · exact hhigh j hjs hj
    · exact hright i j (by omega) hij hj

/-- Two segments that are apart are sorted, one after the other. -/
structure SortsTwo (compare : α → α → ℤ) (b₁ e₁ b₂ e₂ : ℤ) (a a' : Mem α) : Prop where
  mem_left : ∀ i, b₁ ≤ i → i ≤ e₁ → ∃ k, b₁ ≤ k ∧ k ≤ e₁ ∧ a' i = a k
  mem_right : ∀ i, b₂ ≤ i → i ≤ e₂ → ∃ k, b₂ ≤ k ∧ k ≤ e₂ ∧ a' i = a k
  other : ∀ i, (i < b₁ ∨ e₁ < i) → (i < b₂ ∨ e₂ < i) → a' i = a i
  left : SortedOn compare b₁ e₁ a'
  right : SortedOn compare b₂ e₂ a'

variable {b₁ e₁ b₂ e₂ : ℤ}

theorem sortsTwo_of_sorts {a₁ a₂ : Mem α} (hapart : e₁ < b₂ ∨ e₂ < b₁) (h₁ : PermIn b₁ e₁ a a₁)
    (hs₁ : SortedOn compare b₁ e₁ a₁) (h₂ : PermIn b₂ e₂ a₁ a₂) (hs₂ : SortedOn compare b₂ e₂ a₂) :
    SortsTwo compare b₁ e₁ b₂ e₂ a a₂ := by
  have hkeep (i : ℤ) (hi : b₁ ≤ i) (hi' : i ≤ e₁) : a₂ i = a₁ i := h₂.eq_of_not_mem (by omega)
  constructor
  · intro i hi hi'
    rw [hkeep i hi hi']
    exact h₁.exists_eq ⟨hi, hi'⟩
  · intro i hi hi'
    obtain ⟨k, hk, hk', heq⟩ := h₂.exists_eq ⟨hi, hi'⟩
    exact ⟨k, hk, hk', heq.trans (h₁.eq_of_not_mem (by omega))⟩
  · intro i hi₁ hi₂
    rw [h₂.eq_of_not_mem hi₂, h₁.eq_of_not_mem hi₁]
  · exact hs₁.congr hkeep
  · exact hs₂

theorem SortsTwo.symm (h : SortsTwo compare b₁ e₁ b₂ e₂ a a') : SortsTwo compare b₂ e₂ b₁ e₁ a a' :=
  ⟨h.mem_right, h.mem_left, fun i hi hi' => h.other i hi' hi, h.right, h.left⟩

/-- A partition whose two parts are sorted. -/
theorem Partitioned.sorted (hc : IsPreorder compare) {r : Mem α × ℤ} (h : Partitioned compare a b e r)
    (hparts : SortsTwo compare b (r.2 - 1) (r.2 + 1) e r.1 a') :
    SortedOn compare b e a' := by
  have hpivot : a' r.2 = r.1 r.2 := hparts.other r.2 (by omega) (by omega)
  refine sortedOn_of_split hc hparts.left hparts.right ?_ ?_
  · intro i hi his
    obtain ⟨k, hk, hks, heq⟩ := hparts.mem_left i hi (by omega)
    rw [heq, hpivot]
    exact hc.of_low (h.low k hk (by omega))
  · intro i his hi
    obtain ⟨k, hks, hk, heq⟩ := hparts.mem_right i (by omega) hi
    rw [heq, hpivot]
    exact hc.of_high (h.high k (by omega) hk)

variable {segs : List (ℤ × ℤ)}

theorem Partitioned.sortsAll (hc : IsPreorder compare) {r : Mem α × ℤ}
    (h : Partitioned compare a b e r)
    (hsorts : SortsAll compare ((parts b r.2 e).1 :: (parts b r.2 e).2 :: segs) r.1 a') :
    SortsAll compare ((b, e) :: segs) a a' := by
  have hlo := h.left_le
  have hhi := h.le_right
  rw [parts] at hsorts
  split_ifs at hsorts
  · obtain ⟨a₁, h₁, hs₁, a₂, h₂, hs₂, hrest⟩ := hsorts
    refine ⟨a₂, ?_, h.sorted hc (sortsTwo_of_sorts (by omega) h₁ hs₁ h₂ hs₂), hrest⟩
    exact (h.perm.trans (h₁.mono le_rfl (by omega))).trans (h₂.mono (by omega) le_rfl)
  · obtain ⟨a₁, h₁, hs₁, a₂, h₂, hs₂, hrest⟩ := hsorts
    refine ⟨a₂, ?_, h.sorted hc (sortsTwo_of_sorts (by omega) h₁ hs₁ h₂ hs₂).symm, hrest⟩
    exact (h.perm.trans (h₁.mono (by omega) le_rfl)).trans (h₂.mono le_rfl (by omega))

/-- A segment that does not go on the stack is in order. -/
theorem sortsAll_of_push {seg seg' : ℤ × ℤ}
    (hsorts : SortsAll compare (seg :: push seg' segs) a a') : SortsAll compare (seg :: seg' :: segs) a a' := by
  rw [push] at hsorts
  split_ifs at hsorts with h
  · exact hsorts
  · obtain ⟨a₁, h₁, hs₁, hrest⟩ := hsorts
    exact ⟨a₁, h₁, hs₁, a₁, PermIn.refl _ _ _, sortedOn_of_le (not_lt.mp h) _, hrest⟩

/-- A segment that is partitioned leaves room on the stack, and its shorter part is short enough for the place
above. -/
theorem StackOk.room (h : StackOk ((b, e) :: stack)) (hlt : b < e) :
    stack.length < qsortStackSize ∧
      segLength b e < 2 * 2 ^ (qsortStackSize - (stack.length + 1)) := by
  obtain ⟨hlen, -⟩ := h
  have hroom : stack.length < qsortStackSize := by
    by_contra hfull
    rw [Nat.sub_eq_zero_of_le (not_lt.mp hfull), pow_zero] at hlen
    simp only [segLength] at hlen
    omega
  refine ⟨hroom, ?_⟩
  have hnext : qsortStackSize - (stack.length + 1) + 1 = qsortStackSize - stack.length := by omega
  rwa [← Nat.pow_succ', Nat.succ_eq_add_one, hnext]

/-- The longer part goes on the stack, and the shorter one is next. -/
theorem StackOk.parts (h : StackOk ((b, e) :: stack)) (hlt : b < e) (hb : b ≤ s) (he : s ≤ e) :
    StackOk ((parts b s e).1 :: push (parts b s e).2 stack) := by
  have hroom := (h.room hlt).2
  obtain ⟨hlen, hstack⟩ := h
  rw [Qsort.parts, push]
  split_ifs <;> simp only [StackOk, segLength, length_cons] at hroom hlen ⊢ <;>
    exact ⟨by omega, by first | exact hstack | exact ⟨by omega, hstack⟩⟩

theorem parts_inside (hb : b ≤ s) (he : s ≤ e) {seg : ℤ × ℤ}
    (h : seg ∈ (parts b s e).1 :: push (parts b s e).2 stack) : (b ≤ seg.1 ∧ seg.2 ≤ e) ∨ seg ∈ stack := by
  rw [parts, push] at h
  split_ifs at h <;> simp only [mem_cons] at h <;> grind

/-- A round of the loop: there is room on the stack. -/
theorem qsortLoop_round (a : Mem α) (h : b < e) (hstack : StackOk ((b, e) :: stack)) :
    let r := partition compare siz a b e
    qsortLoop compare siz stack b e a =
      qsortLoop compare siz (push (parts b r.2 e).2 stack) (parts b r.2 e).1.1 (parts b r.2 e).1.2 r.1 := by
  intro r
  rw [qsortLoop.eq_def, dif_pos h, parts, push]
  dsimp only
  rw [if_pos (hstack.room h).1, if_pos (hstack.room h).1]
  split_ifs <;> rfl

/-- **The loop**: its stack is never full, it touches the segments only and rearranges their elements, and sorts
all of them. -/
theorem qsortLoop_spec (stack : List (ℤ × ℤ)) (b e : ℤ) (a : Mem α) {lo hi : ℤ} (hstack : StackOk ((b, e) :: stack))
    (hin : ∀ seg ∈ (b, e) :: stack, lo ≤ seg.1 ∧ seg.2 ≤ hi) :
    (∀ k ∈ qsortTouched compare siz stack b e a, lo ≤ k ∧ k ≤ hi) ∧
      ∃ a', qsortLoop compare siz stack b e a = some a' ∧ PermIn lo hi a a' ∧
        (IsPreorder compare → SortsAll compare ((b, e) :: stack) a a') := by
  induction hn : work stack b e using Nat.strong_induction_on generalizing stack b e a with
  | _ n ih =>
    obtain ⟨⟨hb, he⟩, hrest⟩ := forall_mem_cons.mp hin
    by_cases h : b < e
    · have hr := partition_spec compare siz a h
      obtain ⟨htouch, a', hloop, hperm, hsorts⟩ := ih _ (hn ▸ work_push_lt hr.left_le hr.le_right stack) _ _ _
        (partition compare siz a b e).1 (hstack.parts h hr.left_le hr.le_right) (fun seg hseg => by
          rcases parts_inside hr.left_le hr.le_right hseg with hpart | hold
          · omega
          · exact hrest seg hold) rfl
      refine ⟨?_, a', (qsortLoop_round siz a h hstack).trans hloop, (hr.perm.mono hb he).trans hperm,
        fun hc => hr.sortsAll hc (sortsAll_of_push (hsorts hc))⟩
      rw [qsortTouched.eq_def, if_pos h]
      refine forall_mem_append.mpr ⟨fun k hk => ?_, htouch⟩
      have := partitionTouched_inside compare siz a h k hk
      omega
    · rw [qsortTouched.eq_def, if_neg h, qsortLoop.eq_def, dif_neg h]
      cases stack with
      | nil =>
        exact ⟨fun k hk => (nomatch hk), a, rfl, PermIn.refl _ _ _,
          fun _ => ⟨a, PermIn.refl _ _ _, sortedOn_of_le (by omega) a, rfl⟩⟩
      | cons seg stack =>
        have hless : work stack seg.1 seg.2 < n := by
          rw [← hn]
          simp only [work, map_cons, sum_cons]
          omega
        obtain ⟨htouch, a', hloop, hperm, hsorts⟩ := ih _ hless stack seg.1 seg.2 a hstack.2 hrest rfl
        exact ⟨htouch, a', hloop, hperm, fun hc =>
          ⟨a, PermIn.refl _ _ _, sortedOn_of_le (by omega) a, hsorts hc⟩⟩

/-- The elements of a list as an array. -/
theorem map_range_getD (x : α) (l : List α) : ((List.range l.length).map fun i : ℕ => l.getD (i : ℤ).toNat x) = l := by
  refine ext_getElem (by simp) fun i hi hi' => ?_
  simp [getElem?_eq_getElem hi']

/-- A rearranged array has the same elements. -/
theorem PermIn.perm {n : ℕ} (h : PermIn 0 n a a') :
    ((List.range (n + 1)).map fun i : ℕ => a' i).Perm ((List.range (n + 1)).map fun i : ℕ => a i) := by
  obtain ⟨σ, hσ, rfl⟩ := h
  set places : List ℤ := (List.range (n + 1)).map fun i : ℕ => (i : ℤ) with hplaces
  have hnodup : places.Nodup := List.Nodup.map Nat.cast_injective nodup_range
  have hmem (k : ℤ) : k ∈ places ↔ 0 ≤ k ∧ k ≤ n := by
    rw [hplaces, mem_map]
    constructor
    · rintro ⟨i, hi, rfl⟩
      rw [mem_range] at hi
      omega
    · rintro ⟨hk, hk'⟩
      exact ⟨k.toNat, mem_range.mpr (by omega), by omega⟩
  have hperm : (places.map σ).Perm places := by
    refine (perm_ext_iff_of_nodup (hnodup.map σ.injective) hnodup).mpr fun k => ?_
    obtain ⟨i, rfl⟩ := σ.surjective k
    rw [mem_map_of_injective σ.injective, hmem, hmem, mem_segment_iff hσ]
  have := hperm.map a
  rwa [map_map, hplaces, map_map, map_map] at this

theorem stackOk_init (n : ℕ) (h : n + 1 < 2 ^ qsortStackSize) : StackOk [((0 : ℤ), (n : ℤ))] := by
  refine ⟨?_, trivial⟩
  simp only [segLength, length_nil, Nat.sub_zero]
  omega

/-- The loop over a whole array. -/
theorem qsortLoop_init (x : α) (l : List α) (hl : (x :: l).length < 2 ^ qsortStackSize) :
    let a : Mem α := fun i => (x :: l).getD i.toNat x
    (∀ k ∈ qsortTouched compare siz [] 0 l.length a, 0 ≤ k ∧ k ≤ l.length) ∧
      ∃ a', qsortLoop compare siz [] 0 l.length a = some a' ∧ PermIn 0 l.length a a' ∧
        (IsPreorder compare → SortsAll compare [(0, (l.length : ℤ))] a a') :=
  qsortLoop_spec siz [] 0 l.length _ (stackOk_init l.length hl) (by simp)

/-- The result of `zend_qsort_r`: the stack is never full. -/
theorem zendQsortR_spec {l : List α} (hl : l.length < 2 ^ qsortStackSize) :
    ∃ l', zendQsortR compare siz l = some l' ∧ l'.Perm l ∧
      (IsPreorder compare → l'.Pairwise fun x y => compare x y ≤ 0) := by
  cases l with
  | nil => exact ⟨[], rfl, List.Perm.refl [], fun _ => List.Pairwise.nil⟩
  | cons x l =>
    obtain ⟨-, a', hloop, hperm, hsorts⟩ := qsortLoop_init siz x l hl
    refine ⟨_, by rw [zendQsortR, hloop, Option.map_some], ?_, fun hc => ?_⟩
    · have := hperm.perm
      rwa [← length_cons (a := x), map_range_getD] at this
    · obtain ⟨_, -, hsorted, rfl⟩ := hsorts hc
      rw [pairwise_map]
      refine List.Pairwise.imp_of_mem ?_ pairwise_lt_range
      intro i j hi hj hij
      rw [mem_range] at hj
      exact hsorted i j (by omega) (by omega) (by omega)

/-- **`zend_qsort_r`** with any comparison: it ends with the elements rearranged, touches no other ones, its stack is
never full, and the result is in order if there is one. -/
theorem zendQsortR_safe {l : List α} (hl : l.length < 2 ^ qsortStackSize) :
    (∀ k ∈ zendQsortTouched compare siz l, 0 ≤ k ∧ k < l.length) ∧
      ∃ l', zendQsortR compare siz l = some l' ∧ l'.Perm l ∧
        (IsPreorder compare → l'.Pairwise fun x y => compare x y ≤ 0) := by
  refine ⟨?_, zendQsortR_spec siz hl⟩
  cases l with
  | nil => exact fun k hk => nomatch hk
  | cons x l =>
    intro k hk
    have := (qsortLoop_init siz x l hl).1 k hk
    rw [length_cons]
    omega

/-- A comparison that always says that its first argument comes last. -/
theorem zendQsortR_safe_inconsistent :
    ∃ l', zendQsortR (fun _ _ : ℕ => 1) 8 [3, 1, 2] = some l' ∧ l'.Perm [3, 1, 2] := by
  obtain ⟨-, l', h, hperm, -⟩ := @zendQsortR_safe ℕ (fun _ _ => 1) 8 [3, 1, 2] (by decide)
  exact ⟨l', h, hperm⟩

end Loop

end PhpSandbox.Zend.Qsort
