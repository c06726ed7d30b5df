import Mathlib.Data.List.Nodup
import Mathlib.Data.Int.Basic

/-!
# The slots of the scoreboard

`sapi/fpm/fpm/fpm_scoreboard.c` keeps one slot for each child that a pool may have. A slot is taken when a child is
prepared and given back when it is reaped or could not be forked. `free_proc` is a hint where a free slot may be; it may
be stale, and then the slots are searched.

The model keeps the `used` flags of the slots; the statistics that the slots hold do not matter here. What is proved:
a slot that is given out was free (`procAlloc_some`), there is none to give out only if all are used
(`procAlloc_eq_none_iff`), and both operations touch their slot only.
-/

namespace PhpSandbox.Fpm

/-- `struct fpm_scoreboard_s`. -/
structure Scoreboard where
  /-- `procs[i]->used`, for all `i < nprocs`. -/
  procs : List Bool
  freeProc : ℤ

namespace Scoreboard

variable (sb : Scoreboard)

/-- `nprocs`. -/
def nprocs : ℤ := sb.procs.length

/-- `fpm_scoreboard_init_main` for a pool: all slots are zeroed. -/
def init (pmMaxChildren : ℤ) : Scoreboard where
  procs := List.replicate pmMaxChildren.toNat false
  freeProc := 0

/-- `fpm_scoreboard_proc_free`. -/
def procFree (childIndex : ℤ) : Scoreboard :=
  if childIndex < 0 ∨ childIndex ≥ sb.nprocs then sb
  else
    { procs := sb.procs.set childIndex.toNat false
      freeProc := childIndex }

/-- The slot that `fpm_scoreboard_proc_alloc` tries: the hint if it is free, and the first free one otherwise. -/
def candidate : ℤ :=
  if sb.freeProc ≥ 0 ∧ sb.freeProc < sb.nprocs ∧ sb.procs[sb.freeProc.toNat]? = some false then sb.freeProc
  else sb.procs.findIdx (! ·)

/-- `fpm_scoreboard_proc_alloc`: the slot, or `none` for `-1`. -/
def procAlloc : Option (ℤ × Scoreboard) :=
  let i := sb.candidate
  if i < 0 ∨ i ≥ sb.nprocs then none
  else
    some (i,
      { procs := sb.procs.set i.toNat true
        freeProc := if i + 1 ≥ sb.nprocs then 0 else i + 1 })

/-- Slot `i` is used. -/
def Used (i : ℤ) : Prop := 0 ≤ i ∧ sb.procs[i.toNat]? = some true

instance (sb : Scoreboard) (i : ℤ) : Decidable (sb.Used i) := inferInstanceAs (Decidable (_ ∧ _))

variable {sb sb' : Scoreboard} {i j : ℤ}

theorem Used.lt (h : sb.Used i) : i < sb.nprocs := by
  obtain ⟨h0, hget⟩ := h
  have := (List.getElem?_eq_some_iff.1 hget).1
  rw [nprocs]
  omega

theorem not_used_init (n i : ℤ) : ¬ (init n).Used i := by
  rintro ⟨-, hget⟩
  rw [init, List.getElem?_replicate] at hget
  split_ifs at hget
  cases hget

/-- A slot that is given out is one of the pool's. -/
theorem candidate_nonneg (sb : Scoreboard) : 0 ≤ sb.candidate := by
  rw [candidate]
  split_ifs with h
  · exact h.1
  · exact Int.natCast_nonneg _

theorem candidate_free (h : sb.candidate < sb.nprocs) : sb.procs[sb.candidate.toNat]? = some false := by
  rw [candidate] at h ⊢
  split_ifs at h ⊢ with hint
  · exact hint.2.2
  have hlt : sb.procs.findIdx (! ·) < sb.procs.length := by
    rw [nprocs] at h
    omega
  have hfound : (!sb.procs.get ⟨_, hlt⟩) = true := List.findIdx_getElem
  rw [Int.toNat_natCast, List.getElem?_eq_getElem hlt]
  simpa using hfound

theorem candidate_full (h : ¬ sb.candidate < sb.nprocs) : ∀ b ∈ sb.procs, b = true := by
  rw [candidate] at h
  split_ifs at h with hint
  · exact absurd hint.2.1 h
  intro b hb
  by_contra hne
  have hlt : sb.procs.findIdx (! ·) < sb.procs.length := by
    refine List.findIdx_lt_length_of_exists ⟨b, hb, ?_⟩
    simpa using hne
  rw [nprocs] at h
  omega

/-- **Allocation fails only if all slots are used.** -/
theorem procAlloc_eq_none_iff : sb.procAlloc = none ↔ ∀ i, 0 ≤ i → i < sb.nprocs → sb.Used i := by
  have h0 := candidate_nonneg sb
  constructor
  · intro h i hi hlt
    have hfull : ¬ sb.candidate < sb.nprocs := by
      intro hc
      rw [procAlloc, if_neg (by omega)] at h
      cases h
    rw [nprocs] at hlt
    have hlt' : i.toNat < sb.procs.length := by omega
    refine ⟨hi, ?_⟩
    rw [List.getElem?_eq_getElem hlt', candidate_full hfull _ (List.getElem_mem hlt')]
  · intro h
    rw [procAlloc, if_pos]
    by_contra hc
    have hused := (h sb.candidate h0 (by omega)).2
    rw [candidate_free (by omega)] at hused
    cases hused

theorem used_set (hi : 0 ≤ i) (hlt : i < sb.nprocs) (b : Bool) (f : ℤ) :
    Used { procs := sb.procs.set i.toNat b, freeProc := f } j ↔ if j = i then b = true else sb.Used j := by
  rw [nprocs] at hlt
  by_cases hj : j = i
  · subst hj
    rw [if_pos rfl, Used, List.getElem?_set_self (by omega)]
    simp [hi]
  rw [if_neg hj, Used, Used]
  constructor
  · rintro ⟨h0, hget⟩
    rw [List.getElem?_set_ne (by omega)] at hget
    exact ⟨h0, hget⟩
  · rintro ⟨h0, hget⟩
    refine ⟨h0, ?_⟩
    rw [List.getElem?_set_ne (by omega)]
    exact hget

/-- A slot that is given out was free; it is used now, and nothing else has changed. -/
theorem procAlloc_some (h : sb.procAlloc = some (i, sb')) :
    ¬ sb.Used i ∧ sb'.nprocs = sb.nprocs ∧ ∀ j, sb'.Used j ↔ j = i ∨ sb.Used j := by
  have h0 := candidate_nonneg sb
  by_cases hc : sb.candidate < 0 ∨ sb.candidate ≥ sb.nprocs
  · rw [procAlloc, if_pos hc] at h
    cases h
  rw [procAlloc, if_neg hc] at h
  cases h
  refine ⟨?_, ?_, ?_⟩
  · rintro ⟨-, hused⟩
    rw [candidate_free (by omega)] at hused
    cases hused
  · simp [nprocs]
  · intro j
    rw [used_set h0 (by omega)]
    split_ifs with hj <;> simp [hj]

/-- A slot that is given back is free, and nothing else has changed. -/
theorem used_procFree (h : sb.Used i) : (sb.procFree i).Used j ↔ j ≠ i ∧ sb.Used j := by
  have hlt := h.lt
  have h0 := h.1
  rw [procFree, if_neg (by omega), used_set h0 hlt]
  split_ifs with hj <;> simp [hj]

@[simp] theorem nprocs_procFree (sb : Scoreboard) (i : ℤ) : (sb.procFree i).nprocs = sb.nprocs := by
  rw [procFree]
  split_ifs <;> simp [nprocs]

end Scoreboard

end PhpSandbox.Fpm
