import Mathlib.Data.List.MinMax
import Mathlib.Data.List.Nodup

/-!
# Translation by the longest match

A text is translated from left to right by rules, each with a pattern and its
replacement: where patterns match, one of the longest of them is replaced and the text
goes on behind it; where none does, one character is copied. What is replaced is not
looked at again.

`Translates` is this as a relation, since two rules may have the same pattern, and
`translate` as a function. `Translates.eq_translate`: where the patterns are different,
there is no other translation.
-/

namespace PhpSandbox.Lib.LongestMatch

open List

variable {α : Type}

/-- A pattern with what replaces it. -/
structure Rule (α : Type) where
  /-- The pattern. -/
  pat : List α
  /-- The replacement. -/
  repl : List α

/-- No pattern matches at the beginning of the text. -/
def NoMatch (rules : List (Rule α)) (t : List α) : Prop := ∀ q ∈ rules, ¬ q.pat <+: t

/-- The rule matches at the beginning of the text, and none with a longer pattern does. -/
structure IsLongest (rules : List (Rule α)) (t : List α) (p : Rule α) : Prop where
  mem : p ∈ rules
  matches_at : p.pat <+: t
  longest : ∀ q ∈ rules, q.pat <+: t → q.pat.length ≤ p.pat.length

/-- What a text can be translated to. -/
inductive Translates (rules : List (Rule α)) : List α → List α → Prop
  /-- The end of the text. -/
  | nil : Translates rules [] []
  /-- A match. -/
  | replace {t r : List α} {p : Rule α} (hp : IsLongest rules t p) (h : Translates rules (t.drop p.pat.length) r) :
    Translates rules t (p.repl ++ r)
  /-- No match. -/
  | copy {c : α} {t r : List α} (hnone : NoMatch rules (c :: t)) (h : Translates rules t r) :
    Translates rules (c :: t) (c :: r)

section Translates

variable {rules rules' : List (Rule α)} {t r : List α}

/-- Characters at which nothing matches are copied. -/
theorem Translates.copy_take {n : ℕ} (hn : n ≤ t.length) (hnone : ∀ k < n, NoMatch rules (t.drop k))
    (h : Translates rules (t.drop n) r) : Translates rules t (t.take n ++ r) := by
  induction n generalizing t with
  | zero => exact h
  | succ n ih =>
    cases t with
    | nil => cases hn
    | cons c t =>
      refine .copy (hnone 0 (Nat.succ_pos n)) (ih (Nat.le_of_succ_le_succ hn) ?_ h)
      intro k hk
      exact hnone (k + 1) (Nat.succ_lt_succ hk)

/-- A text in which nothing matches is copied. -/
theorem Translates.refl (hnone : ∀ k < t.length, NoMatch rules (t.drop k)) : Translates rules t t := by
  have hend : Translates rules (t.drop t.length) [] := by
    rw [drop_length]
    exact .nil
  have := Translates.copy_take le_rfl hnone hend
  rwa [take_length, append_nil] at this

/-- Rules that match nowhere in the text make no difference. -/
theorem Translates.of_matching (h : Translates rules t r) (hsub : ∀ p ∈ rules, p ∈ rules')
    (hmatch : ∀ p ∈ rules', ∀ u, u.length ≤ t.length → p.pat <+: u → p ∈ rules) : Translates rules' t r := by
  induction h with
  | nil => exact .nil
  | @replace t r p hp h ih =>
    refine .replace ⟨hsub p hp.mem, hp.matches_at, ?_⟩ (ih fun q hq u hu => hmatch q hq u ?_)
    · intro q hq hpre
      exact hp.longest q (hmatch q hq t le_rfl hpre) hpre
    · rw [length_drop] at hu
      omega
  | @copy c t r hnone h ih =>
    refine .copy ?_ (ih fun q hq u hu => hmatch q hq u (by rw [length_cons]; omega))
    intro q hq hpre
    exact hnone q (hmatch q hq _ le_rfl hpre) hpre

/-- Patterns that are different match one at a time. -/
theorem IsLongest.unique {p q : Rule α} (hnodup : (rules.map Rule.pat).Nodup) (hp : IsLongest rules t p)
    (hq : IsLongest rules t q) : p = q := by
  have hlen : p.pat.length = q.pat.length :=
    le_antisymm (hq.longest p hp.mem hp.matches_at) (hp.longest q hq.mem hq.matches_at)
  have hpat : p.pat = q.pat := (prefix_of_prefix_length_le hp.matches_at hq.matches_at hlen.le).eq_of_length hlen
  exact inj_on_of_nodup_map hnodup hp.mem hq.mem hpat

end Translates

/-! ### The translation as a function -/

section Function

variable [DecidableEq α] (rules : List (Rule α))

/-- The first of the longest patterns that match. -/
def longest (t : List α) : Option (Rule α) :=
  (rules.filter fun q => q.pat <+: t).argmax fun q => q.pat.length

/-- The translation, behind `skip` characters. -/
def translateFrom : ℕ → List α → List α
  | _, [] => []
  | skip + 1, _ :: t => translateFrom skip t
  | 0, c :: t =>
    match longest rules (c :: t) with
    | some p => p.repl ++ translateFrom (p.pat.length - 1) t
    | none => c :: translateFrom 0 t

/-- **The plain translation**: at each position the longest pattern that matches is replaced, and where none does
one character is copied. -/
def translate (t : List α) : List α := translateFrom rules 0 t

variable {rules} {t r : List α}

theorem translate_cons (c : α) (t : List α) :
    translate rules (c :: t) =
      match longest rules (c :: t) with
      | some p => p.repl ++ translateFrom rules (p.pat.length - 1) t
      | none => c :: translate rules t := by
  rw [translate, translateFrom.eq_def]
  rfl

theorem translateFrom_eq (skip : ℕ) (t : List α) : translateFrom rules skip t = translate rules (t.drop skip) := by
  induction t generalizing skip with
  | nil => cases skip <;> rfl
  | cons c t ih =>
    cases skip with
    | zero => rfl
    | succ skip => exact ih skip

theorem longest_eq_some {p : Rule α} (h : longest rules t = some p) : IsLongest rules t p := by
  have hmem := argmax_mem h
  rw [mem_filter, decide_eq_true_iff] at hmem
  refine ⟨hmem.1, hmem.2, ?_⟩
  intro q hq hpre
  exact le_of_mem_argmax (f := fun q : Rule α => q.pat.length)
    (mem_filter.mpr ⟨hq, decide_eq_true hpre⟩) h

theorem longest_eq_none (h : longest rules t = none) : NoMatch rules t := by
  intro q hq hpre
  have hmem : q ∈ rules.filter fun q => q.pat <+: t := mem_filter.mpr ⟨hq, decide_eq_true hpre⟩
  rw [argmax_eq_none.mp h] at hmem
  cases hmem

/-- **Where the patterns are different, there is one translation.** -/
theorem Translates.eq_translate (hnodup : (rules.map Rule.pat).Nodup) (hne : ∀ p ∈ rules, p.pat ≠ [])
    (h : Translates rules t r) : r = translate rules t := by
  induction h with
  | nil => rfl
  | @replace t r p hp h ih =>
    cases t with
    | nil => exact absurd (prefix_nil.mp hp.matches_at) (hne p hp.mem)
    | cons c t =>
      have hlongest : longest rules (c :: t) = some p := by
        cases hl : longest rules (c :: t) with
        | none => exact absurd hp.matches_at (longest_eq_none hl p hp.mem)
        | some q => rw [(longest_eq_some hl).unique hnodup hp]
      have hdrop : (c :: t).drop p.pat.length = t.drop (p.pat.length - 1) := by
        obtain ⟨n, hn⟩ := Nat.exists_eq_succ_of_ne_zero (length_pos_iff.mpr (hne p hp.mem)).ne'
        rw [hn]
        rfl
      rw [ih, translate_cons, hlongest]
      show p.repl ++ _ = p.repl ++ _
      rw [translateFrom_eq, hdrop]
  | @copy c t r hnone h ih =>
    have hlongest : longest rules (c :: t) = none := by
      cases hl : longest rules (c :: t) with
      | none => rfl
      | some q => exact absurd (longest_eq_some hl).matches_at (hnone q (longest_eq_some hl).mem)
    rw [ih, translate_cons, hlongest]

end Function

end PhpSandbox.Lib.LongestMatch
