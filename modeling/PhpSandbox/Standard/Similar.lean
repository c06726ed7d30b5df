import PhpSandbox.Lib.CString
import Mathlib.Data.List.ProdSigma

/-!
# Similar texts

`php_similar_char` and `php_similar_str` of `ext/standard/string.c`: the longest part that two texts have in common is
found, and then the same on both sides of it. What is counted is a common subsequence (`phpSimilarChar_spec`).
-/

namespace PhpSandbox.Standard.Similar

open Lib List

/-- The innermost loop of `php_similar_str`: how far two texts agree. -/
def agree : Bytes → Bytes → ℕ
  | c :: s, d :: t => if c = d then agree s t + 1 else 0
  | _, _ => 0

/-- `pos1`, `pos2` and `max`. -/
structure Match (txt1 txt2 : Bytes) where
  pos1 : ℕ
  pos2 : ℕ
  max : ℕ
  /-- The texts agree there. -/
  agrees : max ≤ agree (txt1.drop pos1) (txt2.drop pos2)

variable {txt1 txt2 : Bytes}

/-- One turn of the loops of `php_similar_str`. -/
def better (m : Match txt1 txt2) (pq : ℕ × ℕ) : Match txt1 txt2 :=
  if m.max < agree (txt1.drop pq.1) (txt2.drop pq.2) then ⟨pq.1, pq.2, _, le_rfl⟩ else m

/-- `php_similar_str`. -/
def phpSimilarStr (txt1 txt2 : Bytes) : Match txt1 txt2 :=
  (range txt1.length ×ˢ range txt2.length).foldl better ⟨0, 0, 0, Nat.zero_le _⟩

variable (m : Match txt1 txt2)

theorem le_max_foldl (l : List (ℕ × ℕ)) : m.max ≤ (l.foldl better m).max ∧
    ∀ pq ∈ l, agree (txt1.drop pq.1) (txt2.drop pq.2) ≤ (l.foldl better m).max := by
  induction l generalizing m with
  | nil => simp
  | cons pq l ih =>
    have hone : m.max ≤ (better m pq).max ∧ agree (txt1.drop pq.1) (txt2.drop pq.2) ≤ (better m pq).max := by
      rw [better]
      split_ifs with hlt
      · exact ⟨hlt.le, le_rfl⟩
      · exact ⟨le_rfl, Nat.le_of_not_lt hlt⟩
    obtain ⟨hle, hall⟩ := ih (better m pq)
    exact ⟨hone.1.trans hle, forall_mem_cons.mpr ⟨hone.2.trans hle, hall⟩⟩

/-- What agrees stands in both texts. -/
theorem take_agree_isPrefix (s t : Bytes) : s.take (agree s t) <+: t ∧ agree s t ≤ s.length := by
  fun_induction agree s t with
  | case1 s c t ih => simpa using ih
  | case2 | case3 => simp

/-- The common part stands between what is before it and what is behind it. -/
theorem Match.split : ∃ u, u.length = m.max ∧ txt1 = txt1.take m.pos1 ++ u ++ txt1.drop (m.pos1 + m.max) ∧
    txt2 = txt2.take m.pos2 ++ u ++ txt2.drop (m.pos2 + m.max) := by
  obtain ⟨hpre, hle⟩ := take_agree_isPrefix (txt1.drop m.pos1) (txt2.drop m.pos2)
  have hlen : ((txt1.drop m.pos1).take m.max).length = m.max := by
    rw [length_take, Nat.min_eq_left (m.agrees.trans hle)]
  have hsplit : ∀ {u t : Bytes} {p : ℕ}, u <+: t.drop p → t = t.take p ++ u ++ t.drop (p + u.length) := by
    intro u t p h
    rw [append_assoc, ← drop_drop, prefix_iff_eq_append.mp h, take_append_drop]
  have h1 := hsplit <| take_prefix m.max (txt1.drop m.pos1)
  have h2 := hsplit ((take_prefix_take_left m.agrees).trans hpre)
  rw [hlen] at h1 h2
  exact ⟨_, hlen, h1, h2⟩

/-- `php_similar_char`. -/
def phpSimilarChar (txt1 txt2 : Bytes) : ℕ :=
  let m := phpSimilarStr txt1 txt2
  if m.max = 0 then 0
  else
    m.max +
      (if m.pos1 ≠ 0 ∧ m.pos2 ≠ 0 then phpSimilarChar (txt1.take m.pos1) (txt2.take m.pos2) else 0) +
      (if m.pos1 + m.max < txt1.length ∧ m.pos2 + m.max < txt2.length then
        phpSimilarChar (txt1.drop (m.pos1 + m.max)) (txt2.drop (m.pos2 + m.max))
      else 0)
termination_by txt1.length
decreasing_by
  all_goals
    have hmax : (phpSimilarStr txt1 txt2).max ≠ 0 := ‹_›
    obtain ⟨u, hu, h1, -⟩ := (phpSimilarStr txt1 txt2).split
    have := congrArg length h1
    simp only [length_append, length_take, length_drop] at this ⊢
    omega

/-- What is counted is a common subsequence. -/
theorem exists_common (txt1 txt2 : Bytes) : ∃ s, s.length = phpSimilarChar txt1 txt2 ∧ s <+ txt1 ∧ s <+ txt2 := by
  have hif : ∀ (p : Prop) [Decidable p] {n : ℕ} {t1 t2 : Bytes}, (p → ∃ s, s.length = n ∧ s <+ t1 ∧ s <+ t2) →
      ∃ s, s.length = (if p then n else 0) ∧ s <+ t1 ∧ s <+ t2 := by
    intro p _ n t1 t2 h
    split_ifs with hp
    · exact h hp
    · exact ⟨[], rfl, nil_sublist _, nil_sublist _⟩
  fun_induction phpSimilarChar txt1 txt2 with
  | case1 => exact ⟨[], rfl, nil_sublist _, nil_sublist _⟩
  | case2 txt1 txt2 m hmax ihleft ihright =>
    obtain ⟨u, hu, h1, h2⟩ := m.split
    obtain ⟨s, hs, hs1, hs2⟩ := hif (m.pos1 ≠ 0 ∧ m.pos2 ≠ 0) fun _ => ihleft
    obtain ⟨s', hs', hs1', hs2'⟩ := hif _ ihright
    refine ⟨s ++ u ++ s', ?_, ?_, ?_⟩
    · rw [length_append, length_append, hs, hs', hu, Nat.add_comm _ m.max]
    · rw [h1]
      exact (hs1.append (Sublist.refl u)).append hs1'
    · rw [h2]
      exact (hs2.append (Sublist.refl u)).append hs2'

/-- **`php_similar_char` counts a common subsequence**, and nothing only if there is nothing in common. -/
theorem phpSimilarChar_spec (txt1 txt2 : Bytes) :
    (∃ s, s.length = phpSimilarChar txt1 txt2 ∧ s <+ txt1 ∧ s <+ txt2) ∧
      phpSimilarChar txt1 txt2 ≤ min txt1.length txt2.length ∧
      (phpSimilarChar txt1 txt2 = 0 ↔ ∀ c ∈ txt1, c ∉ txt2) := by
  obtain ⟨s, hs, h1, h2⟩ := exists_common txt1 txt2
  refine ⟨⟨s, hs, h1, h2⟩, hs ▸ le_min h1.length_le h2.length_le, fun h c hc1 hc2 => ?_, fun h => ?_⟩
  · -- where `c` stands in both texts they agree
    obtain ⟨s, t, rfl⟩ := append_of_mem hc1
    obtain ⟨s', t', rfl⟩ := append_of_mem hc2
    have hpos : 0 < (phpSimilarStr (s ++ c :: t) (s' ++ c :: t')).max := by
      refine Nat.lt_of_lt_of_le ?_ ((le_max_foldl _ _).2 (s.length, s'.length) (by simp))
      simp [agree]
    rw [phpSimilarChar, if_neg hpos.ne'] at h
    omega
  · rw [← hs]
    cases s with
    | nil => rfl
    | cons c s => exact absurd (h2.subset mem_cons_self) (h c (h1.subset mem_cons_self))

end PhpSandbox.Standard.Similar
