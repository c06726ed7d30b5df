import Mathlib.Algebra.Group.Int.Defs
import Mathlib.Algebra.Group.Nat.Defs
import Mathlib.Data.List.Infix

/-!
# Byte strings and the C functions that search them

A C string is the list of its bytes before the terminating NUL. The search
functions of `<string.h>` are given over an arbitrary type with decidable
equality, as functions returning the index where C returns a pointer, together
with the one lemma each that says what the index is. A list of names kept in
one string (`a:b:c`) is read in two ways by C code, and both are here:
`List.splitOn`, which has an entry between any two separators, and `entries`,
the loop `while (*p) { end = strchr(p, sep); … }`, which sees no entry after a
separator at the very end.
-/

namespace PhpSandbox.Lib

open List Option

/-- A byte string. -/
abbrev Bytes := List UInt8

/-- The bytes of a string constant (ASCII). -/
def ascii (s : String) : Bytes := s.toList.map fun c => UInt8.ofNat c.toNat

/-- A condition on the bytes of a string is decided by reading the string, not by going through all bytes. -/
instance (priority := 1100) (s : Bytes) (p : UInt8 → Prop) [DecidablePred p] : Decidable (∀ c ∈ s, p c) :=
  decidableBAll p s

/-- A fact about all bytes, from one about the numbers below 256. -/
theorem forall_uint8 {p : UInt8 → Prop} (h : ∀ n < 256, p (UInt8.ofNat n)) (c : UInt8) : p c := by
  have := h c.toNat c.toNat_lt
  rwa [UInt8.ofNat_toNat] at this

variable {α : Type*} [DecidableEq α]

/-! ### `strstr` -/

/-- `strstr(hay, needle)`: the index of the first occurrence. -/
def strstr (needle : List α) : List α → Option ℕ
  | [] => if needle = [] then some 0 else none
  | c :: cs => if needle <+: c :: cs then some 0 else (strstr needle cs).map (· + 1)

variable {needle hay : List α}

/-- `strstr` goes through the ends of the text, the longest first. -/
theorem strstr_eq_findIdx? : strstr needle hay = hay.tails.findIdx? (needle <+: ·) := by
  induction hay with
  | nil => simp [strstr]
  | cons c cs ih => simp [strstr, findIdx?_cons, ih]

/-- `strstr` returns `k` just when the needle is at `k` and at no earlier index. -/
theorem strstr_eq_some_iff {k : ℕ} :
    strstr needle hay = some k ↔
      k ≤ hay.length ∧ needle <+: hay.drop k ∧ ∀ j < k, ¬ needle <+: hay.drop j := by
  rw [strstr_eq_findIdx?, findIdx?_eq_some_iff_getElem]
  simp only [length_tails, Nat.lt_succ_iff, getElem_tails, decide_eq_true_eq, exists_prop]

/-- `strstr` returns NULL just when the needle is nowhere in the text. -/
theorem strstr_eq_none_iff : strstr needle hay = none ↔ ¬ needle <:+: hay := by
  simp [strstr_eq_findIdx?, infix_iff_prefix_suffix, imp_not_comm]

/-- A needle the text begins with is found at once. -/
theorem strstr_eq_zero (h : needle <+: hay) : strstr needle hay = some 0 :=
  strstr_eq_some_iff.mpr ⟨Nat.zero_le _, by simpa using h, fun j hj => absurd hj (Nat.not_lt_zero j)⟩

variable {c : α}

/-- A single byte is found at the end of the text before its first occurrence. -/
theorem strstr_singleton {pre post : List α} (h : c ∉ pre) : strstr [c] (pre ++ c :: post) = some pre.length := by
  induction pre with
  | nil => exact strstr_eq_zero (by simp)
  | cons d pre ih =>
    obtain ⟨hd, hpre⟩ := not_or.mp (mt mem_cons.mpr h)
    have hp : ¬ [c] <+: d :: (pre ++ c :: post) := by
      rw [cons_prefix_cons]
      exact fun hcd => hd hcd.1
    simp [strstr, hp, ih hpre]

/-! ### The first occurrence -/

/-- What is before the first `c` and what is behind it (`memchr`). -/
def cut (c : α) : List α → Option (List α × List α)
  | [] => none
  | d :: s => if d = c then some ([], s) else (cut c s).map fun (u, t) => (d :: u, t)

theorem cut_append {u : List α} (hu : c ∉ u) (t : List α) : cut c (u ++ c :: t) = some (u, t) := by
  induction u with
  | nil => simp [cut]
  | cons d u ih =>
    obtain ⟨hd, hu⟩ := not_or.mp (mt mem_cons.mpr hu)
    simp [cut, ih hu, Ne.symm hd]

theorem cut_eq_none_iff {s : List α} : cut c s = none ↔ c ∉ s := by
  induction s with
  | nil => simp [cut]
  | cons d s ih => 
    rw [cut]
    split_ifs with hd
    · simp [hd]
    · simp [ih, Ne.symm hd]

theorem cut_eq_some_iff {s u t : List α} : cut c s = some (u, t) ↔ c ∉ u ∧ s = u ++ c :: t := by
  refine ⟨fun h => ?_, fun ⟨hu, hs⟩ => hs ▸ cut_append hu t⟩
  have hmem : c ∈ s := by
    by_contra hs
    rw [cut_eq_none_iff.mpr hs] at h
    cases h
  obtain ⟨v, r, rfl, hv⟩ := eq_append_cons_of_mem hmem
  rw [cut_append hv] at h
  cases h
  exact ⟨hv, rfl⟩

/-! ### The last occurrence -/

/-- What is before the last `c` (where `strrchr` puts the end of the string). -/
def beforeLast (c : α) : List α → Option (List α)
  | [] => none
  | d :: s =>
    match beforeLast c s with
    | some u => some (d :: u)
    | none => if d = c then some [] else none

theorem beforeLast_eq_none_iff {s : List α} : beforeLast c s = none ↔ c ∉ s := by
  induction s with
  | nil => simp [beforeLast]
  | cons d s ih =>
    rw [beforeLast, mem_cons, not_or, ← ih]
    cases beforeLast c s with
    | some u => simp
    | none => simp [eq_comm]

theorem beforeLast_append (u : List α) {t : List α} (ht : c ∉ t) : beforeLast c (u ++ c :: t) = some u := by
  induction u with
  | nil => simp [beforeLast, beforeLast_eq_none_iff.mpr ht]
  | cons d u ih => simp [beforeLast, ih]

theorem beforeLast_eq_some_iff {s u : List α} : beforeLast c s = some u ↔ ∃ t, c ∉ t ∧ s = u ++ c :: t := by
  refine ⟨fun h => ?_, fun ⟨t, ht, hs⟩ => hs ▸ beforeLast_append u ht⟩
  induction s generalizing u with
  | nil => cases h
  | cons d s ih =>
    rw [beforeLast] at h
    split at h
    next v hv =>
      cases h
      obtain ⟨t, ht, rfl⟩ := ih hv
      exact ⟨t, ht, rfl⟩
    next hs =>
      split_ifs at h with hd
      cases h
      exact ⟨s, beforeLast_eq_none_iff.mp hs, by rw [hd, nil_append]⟩

/-! ### Lists of names in one string -/

/-- The entries that the loop `while (*p)` over a separated list visits. -/
def entries (sep : α) (s : List α) : List (List α) :=
  if (s.splitOn sep).getLast? = some [] then (s.splitOn sep).dropLast else s.splitOn sep

@[simp] theorem entries_nil (sep : α) : entries sep [] = [] := rfl

variable {sep : α}

/-- The loop cuts off the first entry and goes on after its separator. -/
theorem entries_append_cons {e : List α} (he : sep ∉ e) (s : List α) :
    entries sep (e ++ sep :: s) = e :: entries sep s := by
  have hs := splitOn_ne_nil sep s
  unfold entries
  rw [splitOn_append_cons_self_of_not_mem he, getLast?_cons_of_ne_nil hs, dropLast_cons_of_ne_nil hs]
  split <;> rfl

/-- A text without the separator is one entry. -/
theorem entries_of_not_mem {e : List α} (he : sep ∉ e) (hne : e ≠ []) : entries sep e = [e] := by
  unfold entries
  rw [splitOn_eq_singleton he]
  simp [hne]

/-- The pieces of a text with a separator behind each of them, the last one's perhaps left out. -/
theorem entries_of_terminated {pieces : List (List α)} {text : List α} (hpieces : ∀ p ∈ pieces, sep ∉ p ∧ p ≠ [])
    (h : text = pieces.flatMap (· ++ [sep]) ∨ text ++ [sep] = pieces.flatMap (· ++ [sep])) :
    entries sep text = pieces := by
  induction pieces generalizing text with
  | nil =>
    rcases h with rfl | h
    · rfl
    · simp at h
  | cons p pieces ih =>
    obtain ⟨⟨hsep, hne⟩, hpieces⟩ := forall_mem_cons.mp hpieces
    rw [flatMap_cons] at h
    rcases h with rfl | h
    · rw [append_assoc, singleton_append, entries_append_cons hsep, ih hpieces (.inl rfl)]
    rcases eq_nil_or_concat pieces with rfl | ⟨front, q, rfl⟩
    · rw [flatMap_nil, append_nil] at h
      rw [append_cancel_right h, entries_of_not_mem hsep hne]
    -- all but the last separator
    have hlast : (front.concat q).flatMap (· ++ [sep]) = front.flatMap (· ++ [sep]) ++ q ++ [sep] := by simp
    have htext : text = p ++ sep :: (front.flatMap (· ++ [sep]) ++ q) := by
      refine append_cancel_right (h.trans ?_)
      rw [hlast]
      simp
    rw [htext, entries_append_cons hsep, ih hpieces (.inr hlast.symm)]

/-- A separator at the end is followed by an empty piece. -/
theorem splitOn_concat (sep : α) (s : List α) : (s ++ [sep]).splitOn sep = s.splitOn sep ++ [[]] := by
  induction s with
  | nil => simp [splitOn_cons_eq_if_modifyHead]
  | cons c s ih =>
    obtain ⟨e, es, hes⟩ := exists_cons_of_ne_nil (splitOn_ne_nil sep s)
    rw [cons_append, splitOn_cons_eq_if_modifyHead, splitOn_cons_eq_if_modifyHead, ih, hes]
    split_ifs <;> rfl

/-- Cutting a text at its first separator. -/
theorem exists_first_separator (sep : α) (s : List α) : sep ∉ s ∨ ∃ e t, sep ∉ e ∧ s = e ++ sep :: t := by
  by_cases h : sep ∈ s
  · obtain ⟨e, t, rfl, he⟩ := eq_append_cons_of_mem h
    exact .inr ⟨e, t, he, rfl⟩
  · exact .inl h

/-- A piece of a split text stands in it, and the separator not in the piece. -/
theorem mem_splitOn {s e : List α} (h : e ∈ s.splitOn sep) : e <:+: s ∧ sep ∉ e := by
  rcases exists_first_separator sep s with hs | ⟨u, t, hu, rfl⟩
  · rw [splitOn_eq_singleton hs, mem_singleton] at h
    exact ⟨h ▸ infix_rfl, h ▸ hs⟩
  rw [splitOn_append_cons_self_of_not_mem hu] at h
  rcases mem_cons.mp h with rfl | h
  · exact ⟨(prefix_append _ _).isInfix, hu⟩
  · obtain ⟨hin, he⟩ := mem_splitOn h
    exact ⟨hin.trans ((suffix_cons sep t).trans (suffix_append u _)).isInfix, he⟩
termination_by s.length
decreasing_by grind

theorem first_separator_unique {e e' t t' : List α} (he : sep ∉ e) (he' : sep ∉ e')
    (h : e ++ sep :: t = e' ++ sep :: t') : e = e' := by
  have hsplit := splitOn_append_cons_self_of_not_mem he t
  rw [h, splitOn_append_cons_self_of_not_mem he' t'] at hsplit
  exact (List.cons.inj hsplit).1.symm

end PhpSandbox.Lib
