import Mathlib.Data.List.Nodup

/-!
# Insertion-ordered maps

A map that remembers the order of its keys' first insertion, as a list of
pairs: updating a key that is there changes its value in place, updating one
that is not appends it. `updateAll` runs a list of updates; what it leaves for a
key is the value of the last update of it (`find_updateAll`), and further
updates are without effect just when they leave every key's last value as it
was (`updateAll_append_eq_iff`).
-/

namespace PhpSandbox.Lib

open List

variable {κ β : Type*} [DecidableEq κ]

/-- Update key `k` to `v`. -/
def update (m : List (κ × β)) (k : κ) (v : β) : List (κ × β) :=
  match m with
  | [] => [(k, v)]
  | p :: m => if p.1 = k then (k, v) :: m else p :: update m k v

/-- Run a list of updates. -/
def updateAll (m : List (κ × β)) (us : List (κ × β)) : List (κ × β) :=
  us.foldl (fun m u => update m u.1 u.2) m

/-- The value of the first pair with key `k`. -/
def find (m : List (κ × β)) (k : κ) : Option β := (m.find? fun p => p.1 = k).map Prod.snd

/-- The value of the last pair with key `k`. -/
def lastValue (us : List (κ × β)) (k : κ) : Option β := find us.reverse k

@[simp] theorem find_nil (k : κ) : find ([] : List (κ × β)) k = none := rfl

theorem find_cons (p : κ × β) (m : List (κ × β)) (k : κ) :
    find (p :: m) k = if p.1 = k then some p.2 else find m k := by
  unfold find
  by_cases h : p.1 = k <;> simp [h]

variable (m : List (κ × β))

@[simp] theorem updateAll_nil : updateAll m [] = m := rfl

theorem updateAll_cons (u : κ × β) (us : List (κ × β)) : updateAll m (u :: us) = updateAll (update m u.1 u.2) us := rfl

theorem updateAll_append (m us vs : List (κ × β)) :
    updateAll m (us ++ vs) = updateAll (updateAll m us) vs := foldl_append

/-- Updates of values that a function is applied to. -/
theorem updateAll_map {γ : Type*} (f : β → γ) (m us : List (κ × β)) :
    updateAll (m.map (Prod.map id f)) (us.map (Prod.map id f)) = (updateAll m us).map (Prod.map id f) := by
  have hupdate : ∀ (m : List (κ × β)) k v,
      update (m.map (Prod.map id f)) k (f v) = (update m k v).map (Prod.map id f) := by
    intro m k v
    induction m with
    | nil => rfl
    | cons p m ih =>
      rw [map_cons, update, update, ih, Prod.map_fst, id]
      split_ifs <;> rfl
  induction us generalizing m with
  | nil => rfl
  | cons u us ih => exact (congrArg (updateAll · _) (hupdate m u.1 u.2)).trans (ih _)

theorem find_update (k : κ) (v : β) (k' : κ) : find (update m k v) k' = if k = k' then some v else find m k' := by
  induction m with
  | nil => rw [update, find_cons]
  | cons p m ih =>
    rw [update]
    by_cases hp : p.1 = k
    · rw [if_pos hp, find_cons, find_cons, hp]
      split_ifs <;> rfl
    rw [if_neg hp, find_cons, find_cons, ih]
    by_cases hk : k = k'
    · subst hk
      rw [if_neg hp, if_pos rfl, if_pos rfl]
    · rw [if_neg hk, if_neg hk]

theorem lastValue_append (us vs : List (κ × β)) (k : κ) :
    lastValue (us ++ vs) k = (lastValue vs k).or (lastValue us k) := by
  unfold lastValue find
  rw [reverse_append, find?_append]
  cases find? (fun p => decide (p.1 = k)) vs.reverse <;> rfl

/-- A list of updates leaves for each key the value of the last update of it. -/
theorem find_updateAll (us : List (κ × β)) (k : κ) : find (updateAll m us) k = (lastValue us k).or (find m k) := by
  induction us generalizing m with
  | nil => rfl
  | cons u us ih =>
    rw [updateAll_cons, ih, find_update, ← singleton_append, lastValue_append]
    have hu : lastValue [u] k = if u.1 = k then some u.2 else none := by
      rw [lastValue, reverse_singleton, find_cons]
      rfl
    rw [hu]
    split_ifs <;> cases lastValue us k <;> rfl

/-- The keys of a map after an update. -/
theorem keys_update (k : κ) (v : β) :
    (update m k v).map Prod.fst = if k ∈ m.map Prod.fst then m.map Prod.fst else m.map Prod.fst ++ [k] := by
  induction m with
  | nil => rfl
  | cons p m ih =>
    rw [update]
    split_ifs with hp hk hk
    · simp [hp]
    · exact absurd (by simp [hp]) hk
    · have hk' : k ∈ m.map Prod.fst := by
        rcases mem_cons.mp hk with h | h
        · exact absurd h.symm hp
        · exact h
      rw [map_cons, ih, if_pos hk', map_cons]
    · have hk' : k ∉ m.map Prod.fst := fun h => hk (mem_cons_of_mem _ h)
      rw [map_cons, ih, if_neg hk', map_cons, cons_append]

variable {m : List (κ × β)} {k : κ}

theorem mem_keys_update {v : β} {k' : κ} : k' ∈ (update m k v).map Prod.fst ↔ k' ∈ m.map Prod.fst ∨ k' = k := by
  rw [keys_update]
  split_ifs with hk
  · exact (or_iff_left_of_imp fun h => h ▸ hk).symm
  · rw [mem_append, mem_singleton]

theorem length_update_le (m : List (κ × β)) (k : κ) (v : β) : (update m k v).length ≤ m.length + 1 := by
  have h := congrArg List.length (keys_update m k v)
  rw [length_map] at h
  rw [h]
  split_ifs
  · rw [length_map]
    exact Nat.le_succ _
  · exact Nat.le_of_eq (by rw [length_append, length_map, length_singleton])

/-- A new key is put at the end. -/
theorem update_of_not_mem (hk : k ∉ m.map Prod.fst) (v : β) : update m k v = m ++ [(k, v)] := by
  induction m with
  | nil => rfl
  | cons p m ih =>
    have hne : p.1 ≠ k := fun h => hk (by simp [h])
    rw [update, if_neg hne, ih fun h => hk (mem_cons_of_mem _ h), cons_append]

/-- A key that is there keeps its place. -/
theorem update_middle {m₁ m₂ : List (κ × β)} (hk : k ∉ m₁.map Prod.fst) (v v' : β) :
    update (m₁ ++ (k, v) :: m₂) k v' = m₁ ++ (k, v') :: m₂ := by
  induction m₁ with
  | nil => rw [nil_append, update, if_pos rfl, nil_append]
  | cons p m₁ ih =>
    have hne : p.1 ≠ k := fun h => hk (by simp [h])
    rw [cons_append, update, if_neg hne, ih fun h => hk (mem_cons_of_mem _ h), cons_append]

omit [DecidableEq κ] in
/-- Keys that are new stay so when another one is put at the end. -/
theorem not_mem_keys_append {ks : List κ} (hnew : ∀ k' ∈ k :: ks, k' ∉ m.map Prod.fst) (hk : k ∉ ks) (v : β) :
    ∀ k' ∈ ks, k' ∉ (m ++ [(k, v)]).map Prod.fst := by
  intro k' hk' hmem
  rw [map_append, mem_append] at hmem
  rcases hmem with hmem | hmem
  · exact hnew k' (mem_cons_of_mem _ hk') hmem
  · cases mem_singleton.mp hmem
    exact hk hk'

theorem nodup_keys_update (h : (m.map Prod.fst).Nodup) (k : κ) (v : β) : ((update m k v).map Prod.fst).Nodup := by
  rw [keys_update]
  split_ifs with hk
  · exact h
  · exact nodup_append.mpr ⟨h, nodup_singleton k, by
      rintro a ha b hb rfl
      exact hk (mem_singleton.mp hb ▸ ha)⟩

theorem nodup_keys_updateAll (h : (m.map Prod.fst).Nodup) (us : List (κ × β)) :
    ((updateAll m us).map Prod.fst).Nodup := by
  induction us generalizing m with
  | nil => exact h
  | cons u us ih => exact ih (nodup_keys_update h u.1 u.2)

/-- Updates of keys that are there leave the order of the keys. -/
theorem keys_updateAll_of_subset {us : List (κ × β)} (h : ∀ u ∈ us, u.1 ∈ m.map Prod.fst) :
    (updateAll m us).map Prod.fst = m.map Prod.fst := by
  induction us generalizing m with
  | nil => rfl
  | cons u us ih =>
    have hk : (update m u.1 u.2).map Prod.fst = m.map Prod.fst := by
      rw [keys_update, if_pos (h u (mem_cons_self ..))]
    rw [updateAll_cons, ih fun w hw => hk ▸ h w (mem_cons_of_mem _ hw), hk]

theorem find_isSome_iff (m : List (κ × β)) (k : κ) : (find m k).isSome ↔ k ∈ m.map Prod.fst := by
  simp [find]

theorem find_of_mem (hm : (m.map Prod.fst).Nodup) {x : κ × β} (hx : x ∈ m) : find m x.1 = some x.2 := by
  induction m with
  | nil => cases hx
  | cons p m ih =>
    obtain ⟨hp, hm⟩ := nodup_cons.mp hm
    rw [find_cons]
    rcases mem_cons.mp hx with rfl | hx
    · rw [if_pos rfl]
    have hne : p.1 ≠ x.1 := by
      intro h
      rw [h] at hp
      exact hp (mem_map_of_mem hx)
    rw [if_neg hne, ih hm hx]

/-- The keys that a list of updates leaves: those that were there, and those it updates. -/
theorem mem_keys_updateAll (m us : List (κ × β)) (k : κ) :
    k ∈ (updateAll m us).map Prod.fst ↔ k ∈ m.map Prod.fst ∨ k ∈ us.map Prod.fst := by
  induction us generalizing m with
  | nil => simp
  | cons u us ih =>
    rw [updateAll_cons, ih, mem_keys_update, map_cons, mem_cons, or_assoc]

/-- Two maps with the same keys in the same order and the same values are the same. -/
theorem eq_of_find {m' : List (κ × β)} (hk : m.map Prod.fst = m'.map Prod.fst) (hn : (m.map Prod.fst).Nodup)
    (h : ∀ k, find m k = find m' k) : m = m' := by
  induction m generalizing m' with
  | nil => exact (map_eq_nil_iff.mp hk.symm).symm
  | cons p m ih =>
    cases m' with
    | nil => simp at hk
    | cons p' m' =>
      obtain ⟨hp, hkm⟩ := List.cons.inj hk
      obtain ⟨hpm, hnm⟩ := nodup_cons.mp hn
      have hv := h p.1
      rw [find_cons, if_pos rfl, find_cons, if_pos hp.symm, Option.some.injEq] at hv
      rw [Prod.ext hp hv, ih hkm hnm fun k => ?_]
      by_cases hkp : p.1 = k
      · -- the key of the head is in neither tail
        subst hkp
        have h1 : find m p.1 = none := by
          rw [← Option.not_isSome_iff_eq_none, find_isSome_iff]
          exact hpm
        have h2 : find m' p.1 = none := by
          rw [← Option.not_isSome_iff_eq_none, find_isSome_iff, ← hkm]
          exact hpm
        rw [h1, h2]
      · have := h k
        rwa [find_cons, if_neg hkp, find_cons, if_neg (hp ▸ hkp)] at this

/-- **When further updates are without effect**: just when they leave every key's last
value as it was. -/
theorem updateAll_append_eq_iff (us vs : List (κ × β)) :
    updateAll [] us = updateAll [] (us ++ vs) ↔ ∀ k, lastValue us k = lastValue (us ++ vs) k := by
  have hfind : ∀ ws : List (κ × β), ∀ k, find (updateAll [] ws) k = lastValue ws k := by
    intro ws k
    rw [find_updateAll, find_nil, Option.or_none]
  constructor
  · intro h k
    rw [← hfind us, ← hfind (us ++ vs), h]
  · intro h
    have hn : ((updateAll [] us).map Prod.fst).Nodup :=
      nodup_keys_updateAll (m := []) nodup_nil us
    refine eq_of_find ?_ hn fun k => ?_
    · rw [updateAll_append]
      refine (keys_updateAll_of_subset fun v hv => ?_).symm
      rw [← find_isSome_iff, hfind, h, lastValue_append, Option.isSome_or, Bool.or_eq_true]
      left
      rw [lastValue, find_isSome_iff]
      exact mem_map.mpr ⟨v, mem_reverse.mpr hv, rfl⟩
    · rw [hfind, hfind, h]

end PhpSandbox.Lib
