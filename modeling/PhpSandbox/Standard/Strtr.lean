import PhpSandbox.Lib.LongestMatch
import PhpSandbox.Var.Serialize
import PhpSandbox.Zend.Qsort

/-!
# `strtr` with an array

`php_strtr_array` of `ext/standard/string.c` looks for all patterns at once. With `m` the
length of the shortest pattern, a table says for the hash of the last bytes of a window of
`m` bytes how far the window can be moved (`php_strtr_populate_shift`). Where it cannot
be moved, the patterns with that hash are tried, the longer ones first: they are sorted
(`zend_qsort_r`), and another table has the place of the first one for each hash.

## The model

A text is a list of bytes, and `&S(text)[pos]` what is left of it. The tables are
functions on their indexes. `convert_to_string` of the values is a parameter. A call can
end in a `Fault`: a read outside of the text, as when no pattern is left, or a full stack
in the sort; `steps` is a number of rounds that is never reached. `phpStrtrArrayReads`
lists the reads of the text, with sizes in 64 bits.

## What is proved

`Prepared.noMatch_of_lt_shift`: no pattern begins in a window that is passed over.
`Prepared.bucket_eq`: the patterns that are tried are those with the hash, the longer ones
first. `phpStrtrArray_translates_iff`: the result is the translation by the longest match
(`Lib.LongestMatch`), as long as its length is an `int`. `phpStrtrArrayReads_inside_iff`:
with no pattern left the text is read before its beginning.
-/

namespace PhpSandbox.Standard.Strtr

open Lib Lib.LongestMatch Zend Zend.Qsort List Function

/-- `PATNREPL`. -/
abbrev PatNRepl := Rule UInt8

/-- `SHIFT_TAB_SIZE`. -/
def shiftTabSize : ℕ := 2 ^ 13

/-- `HASH_TAB_SIZE`. -/
def hashTabSize : ℕ := 2 ^ 10

/-- `php_strtr_hash`. -/
def phpStrtrHash (str : Bytes) (len : ℕ) : UInt16 := (str.take len).foldl (fun res c => res * 33 + c.toUInt16) 0

/-! ### The tables -/

/-- `SHIFT_TAB`. -/
structure ShiftTab where
  tableMask : UInt16
  entries : UInt16 → ℕ

/-- `HASH_TAB`. -/
structure HashTab where
  tableMask : UInt16
  /-- `entries`; there is one more than `HASH_TAB_SIZE`. -/
  entries : ℕ → ℤ

/-- `shift->entries[h] = MIN(shift->entries[h], n)`. -/
def ShiftTab.lower (shift : ShiftTab) (h : UInt16) (n : ℕ) : ShiftTab :=
  { shift with entries := update shift.entries h (min (shift.entries h) n) }

/-- `hash->entries[i] = n`. -/
def HashTab.set (hash : HashTab) (i : ℕ) (n : ℤ) : HashTab :=
  { hash with entries := update hash.entries i n }

variable (patterns : List PatNRepl) (B m : ℕ) (tableMask : UInt16)

/-- `php_strtr_populate_shift`. -/
def phpStrtrPopulateShift : ShiftTab :=
  patterns.foldl (fun shift p => (List.range (m - B + 1)).foldl (fun shift j =>
    shift.lower (phpStrtrHash (p.pat.drop j) B &&& shift.tableMask) (m - j - B)) shift)
    ⟨tableMask, fun _ => m - B + 1⟩

/-- The hash by which the patterns are sorted. -/
def suffixHash (p : PatNRepl) : UInt16 :=
  phpStrtrHash (p.pat.drop (m - B)) B &&& tableMask

/-- `php_strtr_compare_hash_suffix`. -/
def phpStrtrCompareHashSuffix (a b : PatNRepl) : ℤ :=
  if suffixHash B m tableMask a > suffixHash B m tableMask b then 1
  else if suffixHash B m tableMask a < suffixHash B m tableMask b then -1
  else if a.pat.length > b.pat.length then -1
  else if a.pat.length < b.pat.length then 1
  else 0

/-- The entries for the patterns from number `i` on; the one before has the hash `lastH`. -/
def firstEntries (i : ℕ) (lastH : UInt16) (hash : HashTab) : List UInt16 → HashTab
  | [] => hash
  | h :: hs =>
    if h ≠ lastH then firstEntries (i + 1) h (hash.set h.toNat i) hs else firstEntries (i + 1) lastH hash hs

/-- The empty entries below `i` get the value of the next one, from the last one on. -/
def fillEntries : ℕ → HashTab → HashTab
  | 0, hash => hash
  | i + 1, hash => fillEntries i (if hash.entries i = -1 then hash.set i (hash.entries (i + 1)) else hash)

/-- `res->hash`, for the hashes of the sorted patterns. -/
def hashTab (hs : List UInt16) : HashTab :=
  fillEntries hashTabSize ((firstEntries 0 (-1) ⟨tableMask, fun _ => -1⟩ hs).set hashTabSize hs.length)

/-- `PPRES`. -/
structure PPres where
  /-- Size of suffixes, -/
  B : ℕ
  /-- size of prefixes, -/
  Bp : ℕ
  /-- minimum pattern length. -/
  m : ℕ
  /-- Table mapping hash to allowed shift. -/
  shift : ShiftTab
  /-- Table mapping hash to the first pattern with it. -/
  hash : HashTab
  /-- `prefix`. -/
  prefixes : List UInt16
  /-- The patterns, sorted. -/
  patterns : List PatNRepl

/-- How a call can go wrong. -/
inductive Fault where
  /-- The stack of `zend_qsort_r` is full. -/
  | qsortStack
  /-- A read outside of the text. -/
  | outOfBounds
  /-- The loop goes on for longer than the text. -/
  | steps

/-- `STRLEN` has 64 bits. -/
def strlenMax : ℕ := 2 ^ 64 - 1

/-- The minimum pattern length. -/
def minLength : ℕ :=
  patterns.foldl (fun m p => if p.pat.length < m then p.pat.length else m) strlenMax

/-- `sizeof(PATNREPL)`. -/
def sizeofPatNRepl : ℕ := 32

/-- `php_strtr_array_prepare`. -/
def phpStrtrArrayPrepare (B Bp : ℕ) : Except Fault PPres :=
  let m := minLength patterns
  let B := min B m
  let Bp := min Bp m
  let shiftMask := UInt16.ofNat (shiftTabSize - 1)
  let hashMask := UInt16.ofNat (hashTabSize - 1)
  match zendQsortR (phpStrtrCompareHashSuffix B m hashMask) sizeofPatNRepl patterns with
  | none => .error .qsortStack
  | some sorted => .ok {
      B := B
      Bp := Bp
      m := m
      shift := phpStrtrPopulateShift patterns B m shiftMask
      hash := hashTab hashMask (sorted.map (suffixHash B m hashMask))
      prefixes := sorted.map fun p => phpStrtrHash p.pat Bp
      patterns := sorted }

/-! ### The search -/

/-- The pattern is in the text at `pos`: its length, and `memcmp`. -/
def matchesAt (text : Bytes) (pos : ℕ) (p : PatNRepl) : Bool :=
  !(p.pat.length > text.length - pos || p.pat ≠ (text.drop pos).take p.pat.length)

/-- The patterns from `offset_start` to `offset_end`, with the hashes of their prefixes. -/
def PPres.bucket (d : PPres) (h2 : UInt16) : List (PatNRepl × UInt16) :=
  ((d.patterns.zip d.prefixes).drop (d.hash.entries h2.toNat).toNat).take
    ((d.hash.entries (h2.toNat + 1)).toNat - (d.hash.entries h2.toNat).toNat)

/-- The loop over the patterns of a hash: the first one that is in the text. -/
def PPres.find (d : PPres) (text : Bytes) (pos : ℕ) (h : UInt16) : Option PatNRepl :=
  let prefixH := phpStrtrHash (text.drop pos) d.Bp
  ((d.bucket (h &&& d.hash.tableMask)).find? fun e => e.2 == prefixH && matchesAt text pos e.1).map Prod.fst

/-- The loop of `php_strtr_array_do_repl`. -/
def doReplLoop (d : PPres) (text : Bytes) (lastpos : ℕ) : ℕ → ℕ → ℕ → Bytes → Except Fault Bytes
  | 0, _, _, _ => .error .steps
  | fuel + 1, pos, nextwpos, result =>
    if pos ≤ lastpos then
      -- the hash is of the bytes from `pos + m - B` to `pos + m`
      if text.length < pos + d.m then .error .outOfBounds
      else
        let h := phpStrtrHash (text.drop (pos + d.m - d.B)) d.B &&& d.shift.tableMask
        let shift := d.shift.entries h
        if 0 < shift then doReplLoop d text lastpos fuel (pos + shift) nextwpos result
        else
          match d.find text pos h with
          | some p =>
            doReplLoop d text lastpos fuel (pos + p.pat.length) (pos + p.pat.length)
              (result ++ (text.drop nextwpos).take (pos - nextwpos) ++ p.repl)
          | none => doReplLoop d text lastpos fuel (pos + 1) nextwpos result
    else .ok (result ++ (text.drop nextwpos).take (text.length - nextwpos))

/-- `php_strtr_array_do_repl`. `lastpos` is computed in a `STRLEN`. -/
def phpStrtrArrayDoRepl (text : Bytes) (d : PPres) : Except Fault Bytes :=
  doReplLoop d text ((text.length + 2 ^ 64 - d.m) % 2 ^ 64) (text.length + 1) 0 0 []

/-! ### The function -/

section Array

variable {ν : Type} (convertToString : ν → Bytes)

/-- The text of a key. -/
def keyText : ArrayKey → Bytes
  | .index h => Var.printLong h
  | .name arKey => arKey

/-- `php_strtr_array_prepare_repls`: nothing, if a pattern is empty. -/
def phpStrtrArrayPrepareRepls (slen : ℕ) : List (ArrayKey × ν) → Option (List PatNRepl)
  | [] => some []
  | (key, entry) :: pats =>
    if (keyText key).length = 0 then none
    else if slen < (keyText key).length then phpStrtrArrayPrepareRepls slen pats
    else (phpStrtrArrayPrepareRepls slen pats).map (⟨keyText key, convertToString entry⟩ :: ·)

/-- What is returned. -/
inductive Returned where
  /-- A string: the bytes at `Z_STRVAL`, and `Z_STRLEN`, which is an `int`. -/
  | string (val : Bytes) (len : ℤ)
  | false

variable (text : Bytes) (pats : List (ArrayKey × ν))

/-- `php_strtr_array`. -/
def phpStrtrArray : Except Fault Returned :=
  if pats.length = 0 then .ok (.string text (Var.toInt text.length))
  else
    match phpStrtrArrayPrepareRepls convertToString text.length pats with
    | none => .ok .false
    | some patterns => do
      let data ← phpStrtrArrayPrepare patterns 2 2
      let result ← phpStrtrArrayDoRepl text data
      return .string result (Var.toInt result.length)

/-! The bytes of the text that are read: where each read begins, and its length. -/

/-- The difference of two `STRLEN`s. -/
def subStrlen (a b : ℕ) : ℕ := (a + 2 ^ 64 - b) % 2 ^ 64

/-- The calls of `memcmp` in the loop over the patterns of a hash. -/
def memcmpReads (text : Bytes) (pos : ℕ) (prefixH : UInt16) : List (PatNRepl × UInt16) → List (ℕ × ℕ)
  | [] => []
  | (p, h) :: rest =>
    if h ≠ prefixH ∨ subStrlen text.length pos < p.pat.length then memcmpReads text pos prefixH rest
    else (pos, p.pat.length) ::
      if p.pat = (text.drop pos).take p.pat.length then [] else memcmpReads text pos prefixH rest

/-- What the loop of `php_strtr_array_do_repl` reads. -/
def doReplReads (d : PPres) (text : Bytes) (lastpos : ℕ) : ℕ → ℕ → ℕ → List (ℕ × ℕ)
  | 0, _, _ => []
  | fuel + 1, pos, nextwpos =>
    if pos ≤ lastpos then
      let h := phpStrtrHash (text.drop (pos + d.m - d.B)) d.B &&& d.shift.tableMask
      (subStrlen (pos + d.m) d.B, d.B) ::
        if 0 < d.shift.entries h then
          doReplReads d text lastpos fuel ((pos + d.shift.entries h) % 2 ^ 64) nextwpos
        else
          (pos, d.Bp) ::
            (memcmpReads text pos (phpStrtrHash (text.drop pos) d.Bp) (d.bucket (h &&& d.hash.tableMask)) ++
              match d.find text pos h with
              | some p => (nextwpos, subStrlen pos nextwpos) ::
                doReplReads d text lastpos fuel ((pos + p.pat.length) % 2 ^ 64) ((pos + p.pat.length) % 2 ^ 64)
              | none => doReplReads d text lastpos fuel ((pos + 1) % 2 ^ 64) nextwpos)
    else [(nextwpos, subStrlen text.length nextwpos)]

/-- What `php_strtr_array` reads in `php_strtr_array_do_repl`. -/
def phpStrtrArrayReads : List (ℕ × ℕ) :=
  if pats.length = 0 then []
  else
    match phpStrtrArrayPrepareRepls convertToString text.length pats with
    | none => []
    | some patterns =>
      match phpStrtrArrayPrepare patterns 2 2 with
      | .ok d => doReplReads d text (subStrlen text.length d.m) (text.length + 1) 0 0
      | .error _ => []

/-- The bytes of a read are in the text. -/
def Inside (r : ℕ × ℕ) : Prop := r.1 + r.2 ≤ text.length

instance (text : Bytes) (r : ℕ × ℕ) : Decidable (Inside text r) := inferInstanceAs (Decidable (_ ≤ _))

end Array

/-! ### Hashes -/

/-- The bytes of a pattern are those of a text that begins with it. -/
theorem take_drop_of_isPrefix {p t : Bytes} (h : p <+: t) {j n : ℕ} (hjn : j + n ≤ p.length) :
    (p.drop j).take n = (t.drop j).take n := by
  obtain ⟨rest, rfl⟩ := h
  rw [drop_append_of_le_length (by omega), take_append_of_le_length (by rw [length_drop]; omega)]

theorem phpStrtrHash_of_isPrefix {p t : Bytes} (h : p <+: t) {j n : ℕ} (hjn : j + n ≤ p.length) :
    phpStrtrHash (p.drop j) n = phpStrtrHash (t.drop j) n := by
  rw [phpStrtrHash, take_drop_of_isPrefix h hjn, phpStrtrHash]

/-! ### The shift table -/

section Shift

/-- Entries are only lowered. -/
def Below (s s' : ShiftTab) : Prop := s'.tableMask = s.tableMask ∧ ∀ k, s'.entries k ≤ s.entries k

theorem Below.trans {s s' s'' : ShiftTab} (h : Below s s') (h' : Below s' s'') : Below s s'' :=
  ⟨h'.1.trans h.1, fun k => (h'.2 k).trans (h.2 k)⟩

variable (s : ShiftTab) (h : UInt16)

theorem lower_entries (n : ℕ) (k : UInt16) :
    (s.lower h n).entries k = if k = h then min (s.entries h) n else s.entries k := update_apply ..

theorem below_lower (n : ℕ) : Below s (s.lower h n) := by
  refine ⟨rfl, fun k => ?_⟩
  rw [lower_entries]
  split_ifs with hk
  · rw [hk]
    exact min_le_left _ _
  · exact le_rfl

theorem lower_entries_self (n : ℕ) : (s.lower h n).entries h ≤ n := by
  rw [lower_entries, if_pos rfl]
  exact min_le_right _ _

variable {β : Type} {f : ShiftTab → β → ShiftTab}

theorem below_foldl (hf : ∀ s b, Below s (f s b)) (l : List β) (s : ShiftTab) : Below s (l.foldl f s) := by
  induction l generalizing s with
  | nil => exact ⟨rfl, fun _ => le_rfl⟩
  | cons b l ih => exact (hf s b).trans (ih (f s b))

/-- What a round makes true and lowering keeps is true in the end. -/
theorem foldl_of_mem {P : β → ShiftTab → Prop} (hf : ∀ s b, Below s (f s b)) (hP : ∀ s b, P b (f s b))
    (hkeep : ∀ b s s', Below s s' → P b s → P b s') {l : List β} {b : β} (hb : b ∈ l) (s : ShiftTab) :
    P b (l.foldl f s) := by
  induction l generalizing s with
  | nil => cases hb
  | cons c l ih =>
    rcases mem_cons.mp hb with rfl | hb
    · exact hkeep b _ _ (below_foldl hf l (f s b)) (hP s b)
    · exact ih hb (f s c)

/-- The round for one place of a pattern. -/
def lowerAt (p : PatNRepl) (B m : ℕ) (shift : ShiftTab) (j : ℕ) : ShiftTab :=
  shift.lower (phpStrtrHash (p.pat.drop j) B &&& shift.tableMask) (m - j - B)

theorem phpStrtrPopulateShift_spec (patterns : List PatNRepl) (B m : ℕ) (tableMask : UInt16) :
    Below ⟨tableMask, fun _ => m - B + 1⟩ (phpStrtrPopulateShift patterns B m tableMask) ∧
      ∀ p ∈ patterns, ∀ j < m - B + 1, (phpStrtrPopulateShift patterns B m tableMask).entries
        (phpStrtrHash (p.pat.drop j) B &&& tableMask) ≤ m - j - B := by
  have hat (p : PatNRepl) (s : ShiftTab) (j : ℕ) : Below s (lowerAt p B m s j) := below_lower _ _ _
  have hround (s : ShiftTab) (p : PatNRepl) : Below s ((List.range (m - B + 1)).foldl (lowerAt p B m) s) :=
    below_foldl (hat p) _ s
  have hall : Below ⟨tableMask, fun _ => m - B + 1⟩ (phpStrtrPopulateShift patterns B m tableMask) :=
    below_foldl hround patterns _
  refine ⟨hall, fun p hp j hj => ?_⟩
  have hentry : (phpStrtrPopulateShift patterns B m tableMask).entries (phpStrtrHash (p.pat.drop j) B &&&
      (phpStrtrPopulateShift patterns B m tableMask).tableMask) ≤ m - j - B := by
    refine foldl_of_mem (P := fun p s => ∀ j < m - B + 1, s.entries (phpStrtrHash (p.pat.drop j) B &&& s.tableMask) ≤
      m - j - B) hround ?_ ?_ hp _ j hj
    · intro s p j hj
      refine foldl_of_mem (P := fun j s => s.entries (phpStrtrHash (p.pat.drop j) B &&& s.tableMask) ≤ m - j - B)
        (hat p) ?_ ?_ (mem_range.mpr hj) s
      · exact fun s j => lower_entries_self s _ _
      · rintro j s s' ⟨hmask, hle⟩ hj
        rw [hmask]
        exact (hle _).trans hj
    · rintro p s s' ⟨hmask, hle⟩ hs j hj
      rw [hmask]
      exact (hle _).trans (hs j hj)
  rwa [hall.1] at hentry

end Shift

/-! ### The hash table -/

section Hash

theorem set_entries (hash : HashTab) (i : ℕ) (n : ℤ) (k : ℕ) :
    (hash.set i n).entries k = if k = i then n else hash.entries k := update_apply ..

/-- How many hashes are below `k`. -/
def rank (hs : List UInt16) (k : ℕ) : ℕ := hs.countP fun h => h.toNat < k

variable {hs : List UInt16} {k : ℕ}

theorem rank_eq_length (h : ∀ g ∈ hs, g.toNat < k) : rank hs k = hs.length :=
  countP_eq_length.mpr fun g hg => decide_eq_true (h g hg)

theorem rank_succ_of_not_mem (h : k ∉ hs.map UInt16.toNat) : rank hs (k + 1) = rank hs k := by
  refine countP_congr fun g hg => ?_
  have hne : g.toNat ≠ k := fun heq => h (mem_map.mpr ⟨g, hg, heq⟩)
  simp only [decide_eq_true_eq]
  omega

/-- The first loop: the place of the first pattern with a hash, if there is one. -/
theorem firstEntries_entries (hsorted : hs.Pairwise fun g h => g.toNat ≤ h.toNat) {lastH : UInt16}
    (hlast : lastH ∈ hs → ∀ h ∈ hs, lastH.toNat ≤ h.toNat) (i : ℕ) (hash : HashTab) (k : ℕ) :
    (firstEntries i lastH hash hs).entries k =
      if k ∈ hs.map UInt16.toNat ∧ k ≠ lastH.toNat then ((i + rank hs k : ℕ) : ℤ) else hash.entries k := by
  induction hs generalizing i lastH hash with
  | nil => simp [firstEntries]
  | cons h hs ih =>
    obtain ⟨hle, hsorted⟩ := pairwise_cons.mp hsorted
    have hhk (hk : k ∈ hs.map UInt16.toNat) : h.toNat ≤ k := by
      obtain ⟨g, hg, rfl⟩ := mem_map.mp hk
      exact hle g hg
    have hrank (hk : h.toNat < k) : rank (h :: hs) k = rank hs k + 1 := countP_cons_of_pos (decide_eq_true hk)
    rw [firstEntries]
    by_cases hne : h ≠ lastH
    · have hnot (hk : k ∈ hs.map UInt16.toNat) : k ≠ lastH.toNat := by
        rintro rfl
        obtain ⟨g, hg, heq⟩ := mem_map.mp hk
        have hin : lastH ∈ hs := UInt16.toNat_inj.mp heq ▸ hg
        have hback := hlast (mem_cons_of_mem _ hin) h mem_cons_self
        exact hne (UInt16.toNat_inj.mp (le_antisymm (hle lastH hin) hback))
      have hzero : rank (h :: hs) h.toNat = 0 := by
        refine countP_eq_zero.mpr (forall_mem_cons.mpr ⟨by simp, fun g hg => ?_⟩)
        simpa using hle g hg
      have hne' : h.toNat ≠ lastH.toNat := fun heq => hne (UInt16.toNat_inj.mp heq)
      rw [if_pos hne, ih hsorted fun _ => hle, set_entries]
      grind
    · rw [if_neg hne, ← not_not.mp hne, ih hsorted fun _ => hle]
      grind

/-- The second loop. -/
theorem fillEntries_spec {hash : HashTab} {i : ℕ}
    (hlow : ∀ k < i, hash.entries k = if k ∈ hs.map UInt16.toNat then (rank hs k : ℤ) else -1)
    (hhigh : ∀ k, i ≤ k → k ≤ hashTabSize → hash.entries k = rank hs k) (hi : i ≤ hashTabSize) (k : ℕ)
    (hk : k ≤ hashTabSize) : (fillEntries i hash).entries k = rank hs k := by
  induction i generalizing hash with
  | zero => exact hhigh k (Nat.zero_le k) hk
  | succ i ih =>
    have hnext := hhigh (i + 1) le_rfl hi
    have hother (k : ℕ) (hki : k ≠ i) :
        (if hash.entries i = -1 then hash.set i (hash.entries (i + 1)) else hash).entries k = hash.entries k := by
      split_ifs
      · rw [set_entries, if_neg hki]
      · rfl
    have hrank : (if hash.entries i = -1 then hash.set i (hash.entries (i + 1)) else hash).entries i = rank hs i := by
      have hentry := hlow i (Nat.lt_succ_self i)
      by_cases hmem : i ∈ hs.map UInt16.toNat
      · rw [if_pos hmem] at hentry
        rw [if_neg (by omega), hentry]
      · -- no pattern has this hash, so that no more are below the next one
        rw [if_neg hmem] at hentry
        rw [if_pos hentry, set_entries, if_pos rfl, hnext, rank_succ_of_not_mem hmem]
    refine ih ?_ ?_ (by omega)
    · intro k hki
      rw [hother k (by omega)]
      exact hlow k (by omega)
    · intro k hik hk
      rcases Nat.eq_or_lt_of_le hik with rfl | hlt
      · exact hrank
      · rw [hother k (by omega)]
        exact hhigh k hlt hk

/-- **The hash table**: an entry is the number of patterns with a smaller hash. -/
theorem hashTab_entries (hsorted : hs.Pairwise fun g h => g.toNat ≤ h.toNat)
    (hsmall : ∀ h ∈ hs, h.toNat < hashTabSize) (tableMask : UInt16) (hk : k ≤ hashTabSize) :
    (hashTab tableMask hs).entries k = rank hs k := by
  have hfirst := firstEntries_entries hsorted (fun hin => absurd (hsmall (-1) hin) (by decide)) 0
    ⟨tableMask, fun _ => -1⟩
  rw [hashTab]
  refine fillEntries_spec ?_ ?_ le_rfl k hk
  · intro k hk
    have hne : k ≠ (-1 : UInt16).toNat := by
      rintro rfl
      exact absurd hk (by decide)
    rw [set_entries, if_neg (by omega), hfirst k, Nat.zero_add]
    simp only [hne, ne_eq, not_false_eq_true, and_true]
  · intro k hk hk'
    have heq : k = hashTabSize := le_antisymm hk' hk
    rw [set_entries, if_pos heq, heq, rank_eq_length hsmall]

end Hash

/-! ### The patterns of a hash -/

section Bucket

variable {α : Type} {f : α → ℕ} {l : List α} (h : l.Pairwise fun x y => f x ≤ f y)

include h

variable (k : ℕ)

/-- A list that is sorted by `f` has first what is below `k`. -/
theorem filter_lt_append : (l.filter fun x => f x < k) ++ (l.filter fun x => k ≤ f x) = l := by
  induction l with
  | nil => rfl
  | cons x l ih =>
    rw [pairwise_cons] at h
    by_cases hx : f x < k
    · rw [filter_cons_of_pos (by simpa using hx), filter_cons_of_neg (by simpa using hx), cons_append, ih h.2]
    have hall : ∀ y ∈ x :: l, k ≤ f y := by
      intro y hy
      rcases mem_cons.mp hy with rfl | hy
      · exact not_lt.mp hx
      · exact (not_lt.mp hx).trans (h.1 y hy)
    rw [filter_eq_nil_iff.mpr fun y hy => by simpa using hall y hy,
      filter_eq_self.mpr fun y hy => by simpa using hall y hy]
    rfl

theorem cut_countP : l.take (l.countP fun x => f x < k) = (l.filter fun x => f x < k) ∧
    l.drop (l.countP fun x => f x < k) = l.filter fun x => k ≤ f x := by
  refine append_inj ((take_append_drop _ _).trans (filter_lt_append h k).symm) ?_
  rw [length_take_of_le countP_le_length, countP_eq_length_filter]

/-- What has the value `k` stands between what is below `k` and what is not below `k + 1`. -/
theorem take_drop_countP :
    (l.drop (l.countP fun x => f x < k)).take ((l.countP fun x => f x < k + 1) - l.countP fun x => f x < k) =
      l.filter fun x => f x = k := by
  have hcount : (l.filter fun x => f x < k + 1).countP (fun x => f x < k) = l.countP fun x => f x < k := by
    rw [countP_filter]
    refine countP_congr fun x _ => ?_
    simp only [Bool.and_eq_true, decide_eq_true_eq]
    omega
  rw [← drop_take, (cut_countP h _).1, ← hcount, (cut_countP (h.filter _) _).2, filter_filter]
  refine filter_congr fun x _ => ?_
  rw [← Bool.decide_and, decide_eq_decide]
  omega

end Bucket

section Compare

variable (B m : ℕ) (tableMask : UInt16)

/-- Smaller hashes come first, and among those with one hash the longer patterns. -/
theorem compare_le_iff (a b : PatNRepl) :
    phpStrtrCompareHashSuffix B m tableMask a b ≤ 0 ↔
      (suffixHash B m tableMask a).toNat < (suffixHash B m tableMask b).toNat ∨
        (suffixHash B m tableMask a).toNat = (suffixHash B m tableMask b).toNat ∧ b.pat.length ≤ a.pat.length := by
  unfold phpStrtrCompareHashSuffix
  simp only [gt_iff_lt, UInt16.lt_iff_toNat_lt]
  split_ifs <;> omega

theorem isPreorder_compare : IsPreorder (phpStrtrCompareHashSuffix B m tableMask) := by
  constructor
  · intro a b
    rw [compare_le_iff, compare_le_iff]
    omega
  · intro a b c
    rw [compare_le_iff, compare_le_iff, compare_le_iff]
    omega

end Compare

/-! ### What is prepared -/

section Prepared

theorem minLength_spec (patterns : List PatNRepl) :
    minLength patterns ≤ strlenMax ∧ (∀ p ∈ patterns, minLength patterns ≤ p.pat.length) ∧
      (minLength patterns = strlenMax ∨ ∃ p ∈ patterns, p.pat.length = minLength patterns) := by
  have hfold (patterns : List PatNRepl) (n : ℕ) :
      let m := patterns.foldl (fun m p => if p.pat.length < m then p.pat.length else m) n
      m ≤ n ∧ (∀ p ∈ patterns, m ≤ p.pat.length) ∧ (m = n ∨ ∃ p ∈ patterns, p.pat.length = m) := by
    induction patterns generalizing n with
    | nil => exact ⟨le_rfl, nofun, .inl rfl⟩
    | cons p patterns ih =>
      obtain ⟨hle, hall, hex⟩ := ih (if p.pat.length < n then p.pat.length else n)
      rw [foldl_cons]
      refine ⟨hle.trans (by split_ifs <;> omega), ?_, ?_⟩
      · intro q hq
        rcases mem_cons.mp hq with rfl | hq
        · exact hle.trans (by split_ifs <;> omega)
        · exact hall q hq
      · rcases hex with heq | ⟨q, hq, heq⟩
        · by_cases hlt : p.pat.length < n
          · rw [if_pos hlt] at heq ⊢
            exact .inr ⟨p, mem_cons_self, heq.symm⟩
          · rw [if_neg hlt] at heq ⊢
            exact .inl heq
        · exact .inr ⟨q, mem_cons_of_mem _ hq, heq⟩
  exact hfold patterns strlenMax

/-- `shift->table_mask`. -/
def shiftMask : UInt16 := UInt16.ofNat (shiftTabSize - 1)

/-- `hash->table_mask`. -/
def hashMask : UInt16 := UInt16.ofNat (hashTabSize - 1)

/-- What `php_strtr_array_prepare` makes of the patterns. -/
structure Prepared (patterns : List PatNRepl) (d : PPres) : Prop where
  m_mem : ∃ p ∈ patterns, p.pat.length = d.m
  m_le : ∀ p ∈ patterns, d.m ≤ p.pat.length
  B_le : d.B ≤ d.m
  B_pos : 0 < d.B
  Bp_le : d.Bp ≤ d.m
  shift_eq : d.shift = phpStrtrPopulateShift patterns d.B d.m shiftMask
  hash_eq : d.hash = hashTab hashMask (d.patterns.map (suffixHash d.B d.m hashMask))
  prefixes_eq : d.prefixes = d.patterns.map fun p => phpStrtrHash p.pat d.Bp
  perm : d.patterns.Perm patterns
  sorted : d.patterns.Pairwise fun a b => phpStrtrCompareHashSuffix d.B d.m hashMask a b ≤ 0

theorem phpStrtrArrayPrepare_spec {patterns : List PatNRepl} (hne : patterns ≠ [])
    (hlen : ∀ p ∈ patterns, 0 < p.pat.length ∧ p.pat.length < strlenMax)
    (hcount : patterns.length < 2 ^ qsortStackSize) :
    ∃ d, phpStrtrArrayPrepare patterns 2 2 = .ok d ∧ Prepared patterns d := by
  obtain ⟨-, hle, hmem⟩ := minLength_spec patterns
  have hmin : ∃ p ∈ patterns, p.pat.length = minLength patterns := by
    refine hmem.resolve_left fun heq => ?_
    obtain ⟨p, hp⟩ := exists_mem_of_ne_nil patterns hne
    have := hle p hp
    have := (hlen p hp).2
    omega
  have hpos : 0 < minLength patterns := by
    obtain ⟨p, hp, heq⟩ := hmin
    rw [← heq]
    exact (hlen p hp).1
  obtain ⟨sorted, hsort, hperm, hsorted⟩ := @zendQsortR_spec _ (phpStrtrCompareHashSuffix
    (min 2 (minLength patterns)) (minLength patterns) hashMask) sizeofPatNRepl _ hcount
  refine ⟨⟨min 2 (minLength patterns), min 2 (minLength patterns), minLength patterns,
    phpStrtrPopulateShift patterns (min 2 (minLength patterns)) (minLength patterns) shiftMask,
    hashTab hashMask (sorted.map (suffixHash (min 2 (minLength patterns)) (minLength patterns) hashMask)),
    sorted.map fun p => phpStrtrHash p.pat (min 2 (minLength patterns)), sorted⟩, ?_, ?_⟩
  · simp only [phpStrtrArrayPrepare]
    rw [← hashMask, hsort]
    rfl
  · have hB : 0 < min 2 (minLength patterns) := by omega
    exact ⟨hmin, hle, min_le_right _ _, hB, min_le_right _ _, rfl, by dsimp only, rfl, hperm,
      hsorted (isPreorder_compare _ _ _)⟩

theorem hashTab_tableMask (tableMask : UInt16) (hs : List UInt16) : (hashTab tableMask hs).tableMask = tableMask := by
  have hfill (i : ℕ) (hash : HashTab) : (fillEntries i hash).tableMask = hash.tableMask := by
    induction i generalizing hash with
    | zero => rfl
    | succ i ih =>
      rw [fillEntries, ih]
      split_ifs <;> rfl
  have hfirst (hs : List UInt16) (i : ℕ) (lastH : UInt16) (hash : HashTab) :
      (firstEntries i lastH hash hs).tableMask = hash.tableMask := by
    induction hs generalizing i lastH hash with
    | nil => rfl
    | cons h hs ih =>
      rw [firstEntries]
      split_ifs
      · rw [ih]
        rfl
      · exact ih _ _ _
  rw [hashTab, hfill]
  exact hfirst hs 0 (-1) ⟨tableMask, fun _ => -1⟩

theorem and_hashMask_lt (h : UInt16) : (h &&& hashMask).toNat < hashTabSize := by
  rw [UInt16.toNat_and]
  exact Nat.and_lt_two_pow _ (by decide)

variable {patterns : List PatNRepl} {d : PPres}

/-- **The patterns of a hash**: those of which it is the hash, in order. -/
theorem Prepared.bucket_eq (hd : Prepared patterns d) {h2 : UInt16} (hh2 : h2.toNat < hashTabSize) :
    d.bucket h2 = (d.patterns.filter fun p => (suffixHash d.B d.m hashMask p).toNat = h2.toNat).map fun p =>
      (p, phpStrtrHash p.pat d.Bp) := by
  have hsorted : d.patterns.Pairwise fun a b =>
      (suffixHash d.B d.m hashMask a).toNat ≤ (suffixHash d.B d.m hashMask b).toNat := by
    refine hd.sorted.imp fun {a b} hab => ?_
    rw [compare_le_iff] at hab
    omega
  have hsmall : ∀ h ∈ d.patterns.map (suffixHash d.B d.m hashMask), h.toNat < hashTabSize := by
    intro h hh
    obtain ⟨p, -, rfl⟩ := mem_map.mp hh
    exact and_hashMask_lt _
  have hentry {k : ℕ} (hk : k ≤ hashTabSize) : (d.hash.entries k).toNat =
      d.patterns.countP fun p => (suffixHash d.B d.m hashMask p).toNat < k := by
    rw [hd.hash_eq, hashTab_entries (pairwise_map.mpr hsorted) hsmall _ hk, rank, countP_map]
    rfl
  rw [PPres.bucket, hentry (by omega), hentry (by omega), hd.prefixes_eq, ← map_prod_left_eq_zip,
    ← map_drop, ← map_take, take_drop_countP hsorted]

/-- The hash of the last bytes of the window at `pos`. -/
def PPres.windowHash (d : PPres) (text : Bytes) (pos : ℕ) : UInt16 :=
  phpStrtrHash (text.drop (pos + d.m - d.B)) d.B &&& d.shift.tableMask

variable {text : Bytes} {pos : ℕ} {p : PatNRepl}

theorem matchesAt_iff : matchesAt text pos p ↔ p.pat <+: text.drop pos := by
  rw [matchesAt, prefix_iff_eq_take]
  simp only [gt_iff_lt, Bool.not_eq_true', Bool.or_eq_false_iff, decide_eq_false_iff_not, not_lt, Decidable.not_not]
  constructor
  · rintro ⟨-, heq⟩
    exact heq
  · intro heq
    refine ⟨?_, heq⟩
    have hlen := congrArg List.length heq
    rw [length_take, length_drop] at hlen
    omega

section Found

variable (hd : Prepared patterns d)

include hd

variable {k : ℕ}

namespace Prepared

/-- A pattern that matches at `pos + k` has its bytes in the window. -/
theorem hash_eq_of_match (hp : p ∈ patterns) (hk : k ≤ d.m - d.B) (hmatch : p.pat <+: text.drop (pos + k)) :
    phpStrtrHash (p.pat.drop (d.m - d.B - k)) d.B = phpStrtrHash (text.drop (pos + d.m - d.B)) d.B := by
  have hm := hd.m_le p hp
  have hB := hd.B_le
  rw [phpStrtrHash_of_isPrefix hmatch (by omega), drop_drop]
  congr 2
  omega

/-- **The shift table**: no pattern begins in what is passed over. -/
theorem noMatch_of_lt_shift (hk : k < d.shift.entries (d.windowHash text pos)) :
    NoMatch patterns (text.drop (pos + k)) := by
  obtain ⟨⟨hmask, hmax⟩, hshift⟩ := phpStrtrPopulateShift_spec patterns d.B d.m shiftMask
  rw [← hd.shift_eq] at hmask hmax hshift
  intro p hp hmatch
  have hkm : k ≤ d.m - d.B := by
    have hle : d.shift.entries (d.windowHash text pos) ≤ d.m - d.B + 1 := hmax _
    omega
  have hentry := hshift p hp (d.m - d.B - k) (by omega)
  rw [hd.hash_eq_of_match hp hkm hmatch] at hentry
  have hwindow : d.windowHash text pos = phpStrtrHash (text.drop (pos + d.m - d.B)) d.B &&& shiftMask := by
    rw [PPres.windowHash, hmask]
  rw [hwindow] at hk
  omega

theorem shift_le (h : UInt16) : d.shift.entries h ≤ d.m := by
  obtain ⟨⟨-, hmax⟩, -⟩ := phpStrtrPopulateShift_spec patterns d.B d.m shiftMask
  rw [← hd.shift_eq] at hmax
  have hle : d.shift.entries h ≤ d.m - d.B + 1 := hmax h
  have hB := hd.B_le
  have hpos := hd.B_pos
  omega

/-- The patterns that are tried at `pos`. -/
theorem find_eq :
    d.find text pos (d.windowHash text pos) =
      (d.patterns.filter fun p => (suffixHash d.B d.m hashMask p).toNat =
        (phpStrtrHash (text.drop (pos + d.m - d.B)) d.B &&& hashMask).toNat).find? fun p =>
          phpStrtrHash p.pat d.Bp == phpStrtrHash (text.drop pos) d.Bp && matchesAt text pos p := by
  have hmask : d.windowHash text pos &&& d.hash.tableMask =
      phpStrtrHash (text.drop (pos + d.m - d.B)) d.B &&& hashMask := by
    rw [PPres.windowHash, hd.shift_eq, (phpStrtrPopulateShift_spec patterns d.B d.m shiftMask).1.1, hd.hash_eq,
      hashTab_tableMask, UInt16.and_assoc]
    exact congrArg _ (show shiftMask &&& hashMask = hashMask by decide)
  rw [PPres.find, hmask]
  simp only [hd.bucket_eq (and_hashMask_lt _), find?_map, Option.map_map]
  exact congrFun Option.map_id _

/-- A pattern that matches is tried. -/
theorem mem_tried (hp : p ∈ patterns) (hmatch : p.pat <+: text.drop pos) :
    p ∈ d.patterns.filter (fun p => (suffixHash d.B d.m hashMask p).toNat =
        (phpStrtrHash (text.drop (pos + d.m - d.B)) d.B &&& hashMask).toNat) ∧
      (phpStrtrHash p.pat d.Bp == phpStrtrHash (text.drop pos) d.Bp && matchesAt text pos p) = true := by
  constructor
  · rw [mem_filter, decide_eq_true_iff]
    refine ⟨hd.perm.mem_iff.mpr hp, ?_⟩
    have hhash := hd.hash_eq_of_match hp (Nat.zero_le _) hmatch
    rw [Nat.sub_zero] at hhash
    rw [suffixHash, hhash]
  · rw [Bool.and_eq_true, beq_iff_eq, matchesAt_iff]
    refine ⟨?_, hmatch⟩
    have hlen := (hd.Bp_le).trans (hd.m_le p hp)
    exact phpStrtrHash_of_isPrefix (j := 0) hmatch (by omega)

/-- **The search** finds one of the longest patterns that match. -/
theorem find_eq_some (h : d.find text pos (d.windowHash text pos) = some p) : IsLongest patterns (text.drop pos) p := by
  rw [hd.find_eq, find?_eq_some_iff_append] at h
  obtain ⟨htried, before, after, hsplit, hbefore⟩ := h
  rw [Bool.and_eq_true, matchesAt_iff] at htried
  have hmem : p ∈ d.patterns := (mem_filter.mp (hsplit ▸ mem_append_right before mem_cons_self)).1
  refine ⟨hd.perm.mem_iff.mp hmem, htried.2, ?_⟩
  intro q hq hmatch
  obtain ⟨hqmem, hqtried⟩ := hd.mem_tried hq hmatch
  -- a longer one would have been tried before
  have hlonger : (before ++ p :: after).Pairwise fun a b => b.pat.length ≤ a.pat.length := by
    rw [← hsplit, pairwise_filter]
    refine hd.sorted.imp fun {a b} hab ha hb => ?_
    rw [compare_le_iff] at hab
    rw [decide_eq_true_iff] at ha hb
    omega
  rw [hsplit] at hqmem
  rcases mem_append.mp hqmem with hbef | hrest
  · have := hbefore q hbef
    rw [hqtried] at this
    cases this
  · rcases mem_cons.mp hrest with rfl | haft
    · exact le_rfl
    · exact (pairwise_cons.mp (pairwise_append.mp hlonger).2.1).1 q haft

/-- The search finds a pattern that matches, if there is one. -/
theorem find_eq_none (h : d.find text pos (d.windowHash text pos) = none) : NoMatch patterns (text.drop pos) := by
  intro q hq hmatch
  obtain ⟨hqmem, hqtried⟩ := hd.mem_tried hq hmatch
  rw [hd.find_eq, find?_eq_none] at h
  exact h q hqmem hqtried

end Prepared

end Found

/-- What is copied up to `pos + n` is what is copied up to `pos` and the next `n` bytes. -/
theorem take_drop_add (text : Bytes) {nextwpos : ℕ} (h : nextwpos ≤ pos) (n : ℕ) :
    (text.drop nextwpos).take (pos + n - nextwpos) =
      (text.drop nextwpos).take (pos - nextwpos) ++ (text.drop pos).take n := by
  rw [show pos + n - nextwpos = pos - nextwpos + n by omega, take_add, drop_drop,
    show nextwpos + (pos - nextwpos) = pos by omega]

/-- Bytes at which nothing matches are copied with what comes later. -/
theorem translates_copied {nextwpos n : ℕ} {result : Bytes} {out : Except Fault Bytes} (hnext : nextwpos ≤ pos)
    (hn : pos + n ≤ text.length) (hnone : ∀ k < n, NoMatch patterns (text.drop (pos + k)))
    (h : ∃ r, out = .ok (result ++ (text.drop nextwpos).take (pos + n - nextwpos) ++ r) ∧
      Translates patterns (text.drop (pos + n)) r) :
    ∃ r, out = .ok (result ++ (text.drop nextwpos).take (pos - nextwpos) ++ r) ∧
      Translates patterns (text.drop pos) r := by
  obtain ⟨r, hout, hr⟩ := h
  refine ⟨(text.drop pos).take n ++ r, ?_, Translates.copy_take ?_ ?_ ?_⟩
  · rw [hout, take_drop_add text hnext]
    simp only [append_assoc]
  · rw [length_drop]
    omega
  · intro k hk
    rw [drop_drop]
    exact hnone k hk
  · rwa [drop_drop]

/-- **The loop**: from `pos` on the text is translated by the longest match. -/
theorem Prepared.doReplLoop_spec (hd : Prepared patterns d) (hne : ∀ p ∈ patterns, p.pat ≠ [])
    (hm : d.m ≤ text.length) (fuel pos nextwpos : ℕ) (result : Bytes) (hfuel : text.length - pos < fuel)
    (hpos : pos ≤ text.length) (hnext : nextwpos ≤ pos) :
    ∃ r, doReplLoop d text (text.length - d.m) fuel pos nextwpos result =
        .ok (result ++ (text.drop nextwpos).take (pos - nextwpos) ++ r) ∧
      Translates patterns (text.drop pos) r := by
  induction fuel generalizing pos nextwpos result with
  | zero => omega
  | succ fuel ih =>
    have hmpos : 0 < d.m := hd.B_pos.trans_le hd.B_le
    rw [doReplLoop]
    by_cases hlast : pos ≤ text.length - d.m
    · rw [if_pos hlast, if_neg (by omega)]
      rw [← PPres.windowHash]
      by_cases hshift : 0 < d.shift.entries (d.windowHash text pos)
      · -- the window is moved
        have hle := hd.shift_le (d.windowHash text pos)
        rw [if_pos hshift]
        exact translates_copied hnext (by omega) (fun k hk => hd.noMatch_of_lt_shift hk)
          (ih _ nextwpos result (by omega) (by omega) (by omega))
      · rw [if_neg hshift]
        cases hfind : d.find text pos (d.windowHash text pos) with
        | some p =>
          have hp := hd.find_eq_some hfind
          have hlen := hp.matches_at.length_le
          have hplen := length_pos_iff.mpr (hne p hp.mem)
          rw [length_drop] at hlen
          obtain ⟨r, hout, hr⟩ := ih (pos + p.pat.length) (pos + p.pat.length)
            (result ++ (text.drop nextwpos).take (pos - nextwpos) ++ p.repl) (by omega) (by omega) le_rfl
          refine ⟨p.repl ++ r, ?_, .replace hp ?_⟩
          · rw [Nat.sub_self, take_zero, append_nil] at hout
            rw [← append_assoc]
            exact hout
          · rwa [drop_drop]
        | none =>
          have hnone := hd.find_eq_none hfind
          refine translates_copied hnext (by omega) (fun k hk => ?_)
            (ih (pos + 1) nextwpos result (by omega) (by omega) (by omega))
          rwa [Nat.lt_one_iff.mp hk]
    · -- what is left is shorter than every pattern
      rw [if_neg hlast]
      refine ⟨text.drop pos, ?_, Translates.refl ?_⟩
      · have hall : (text.drop nextwpos).take (text.length - nextwpos) =
            (text.drop nextwpos).take (pos - nextwpos) ++ text.drop pos := by
          have htail := take_drop_add text hnext (text.length - pos)
          rwa [show pos + (text.length - pos) - nextwpos = text.length - nextwpos by omega,
            take_of_length_le (show (text.drop pos).length ≤ text.length - pos by rw [length_drop])] at htail
        rw [hall, append_assoc]
      · intro k hk p hp hmatch
        have hlen := hmatch.length_le
        have hple := hd.m_le p hp
        rw [drop_drop, length_drop] at hlen
        rw [length_drop] at hk
        omega

theorem subStrlen_eq {a b : ℕ} (hba : b ≤ a) (ha : a < 2 ^ 64) : subStrlen a b = a - b := by
  rw [subStrlen]
  omega

theorem memcmpReads_inside (hlen : text.length < 2 ^ 31) (hpos : pos ≤ text.length) (prefixH : UInt16)
    (l : List (PatNRepl × UInt16)) : ∀ r ∈ memcmpReads text pos prefixH l, Inside text r := by
  induction l with
  | nil => exact fun r hr => nomatch hr
  | cons e l ih =>
    rw [memcmpReads]
    by_cases hskip : e.2 ≠ prefixH ∨ subStrlen text.length pos < e.1.pat.length
    · rw [if_pos hskip]
      exact ih
    rw [if_neg hskip, forall_mem_cons]
    rw [subStrlen_eq hpos (by omega)] at hskip
    refine ⟨show pos + e.1.pat.length ≤ text.length by omega, ?_⟩
    split_ifs
    · exact fun r hr => nomatch hr
    · exact ih

/-- **The reads** of the loop are in the text, as `m` is not above its length. -/
theorem Prepared.doReplReads_inside (hd : Prepared patterns d) (hm : d.m ≤ text.length) (hlen : text.length < 2 ^ 31)
    (fuel pos nextwpos : ℕ) (hpos : pos ≤ text.length) (hnext : nextwpos ≤ pos) :
    ∀ r ∈ doReplReads d text (text.length - d.m) fuel pos nextwpos, Inside text r := by
  induction fuel generalizing pos nextwpos with
  | zero => exact fun r hr => nomatch hr
  | succ fuel ih =>
    have hB := hd.B_le
    have hBp := hd.Bp_le
    have hmpos : 0 < d.m := hd.B_pos.trans_le hd.B_le
    rw [doReplReads]
    by_cases hlast : pos ≤ text.length - d.m
    · rw [if_pos hlast]
      rw [← PPres.windowHash, forall_mem_cons, subStrlen_eq (by omega) (by omega)]
      refine ⟨show pos + d.m - d.B + d.B ≤ text.length by omega, ?_⟩
      by_cases hshift : 0 < d.shift.entries (d.windowHash text pos)
      · have hle := hd.shift_le (d.windowHash text pos)
        rw [if_pos hshift, Nat.mod_eq_of_lt (by omega)]
        exact ih _ _ (by omega) (by omega)
      rw [if_neg hshift, forall_mem_cons, forall_mem_append]
      refine ⟨show pos + d.Bp ≤ text.length by omega, memcmpReads_inside hlen hpos _ _, ?_⟩
      cases hfind : d.find text pos (d.windowHash text pos) with
      | some p =>
        have hplen := (hd.find_eq_some hfind).matches_at.length_le
        rw [length_drop] at hplen
        rw [forall_mem_cons, subStrlen_eq hnext (by omega), Nat.mod_eq_of_lt (by omega)]
        exact ⟨show nextwpos + (pos - nextwpos) ≤ text.length by omega, ih _ _ (by omega) le_rfl⟩
      | none =>
        rw [Nat.mod_eq_of_lt (by omega)]
        exact ih _ _ (by omega) (by omega)
    · rw [if_neg hlast, forall_mem_singleton, subStrlen_eq (by omega) (by omega)]
      show nextwpos + (text.length - nextwpos) ≤ text.length
      omega

end Prepared

/-! ### The function translates by the longest match -/

section Result

variable {ν : Type} (convertToString : ν → Bytes)

/-- The rules of an array. -/
def rulesOf (pats : List (ArrayKey × ν)) : List PatNRepl :=
  pats.map fun e => ⟨keyText e.1, convertToString e.2⟩

variable {pats : List (ArrayKey × ν)}

/-- The patterns that are not longer than the text are kept. -/
theorem phpStrtrArrayPrepareRepls_eq (hne : ∀ e ∈ pats, keyText e.1 ≠ []) (slen : ℕ) :
    phpStrtrArrayPrepareRepls convertToString slen pats =
      some ((rulesOf convertToString pats).filter fun p => p.pat.length ≤ slen) := by
  induction pats with
  | nil => rfl
  | cons e pats ih =>
    obtain ⟨key, entry⟩ := e
    have hkey : (keyText key).length ≠ 0 := fun h => hne _ mem_cons_self (length_eq_zero_iff.mp h)
    have hrest := ih fun e he => hne e (mem_cons_of_mem _ he)
    have hrules : rulesOf convertToString ((key, entry) :: pats) =
        ⟨keyText key, convertToString entry⟩ :: rulesOf convertToString pats := rfl
    rw [phpStrtrArrayPrepareRepls, if_neg hkey, hrest, hrules]
    by_cases hlong : slen < (keyText key).length
    · rw [if_pos hlong, filter_cons_of_neg (by simpa using hlong)]
    · rw [if_neg hlong, filter_cons_of_pos (by simpa using hlong), Option.map_some]

/-- Two fallible steps that succeed: stated for any steps, as a check that unfolds `bind` at the tables themselves runs
them. -/
theorem ok_of_steps {ε α β γ : Type} {x : Except ε α} {f : α → Except ε β} {g : β → γ} {a : α} {b : β} (hx : x = .ok a)
    (hf : f a = .ok b) : (x >>= fun a => f a >>= fun b => pure (g b)) = .ok (g b) := by
  rw [hx]
  show (f a >>= fun b => pure (g b)) = _
  rw [hf]
  rfl

/-- The patterns that are kept, and what is prepared from them if there is one. -/
theorem exists_prepared {text : Bytes} (hne : ∀ e ∈ pats, keyText e.1 ≠ [])
    (hshort : ∃ e ∈ pats, (keyText e.1).length ≤ text.length) (hlen : text.length < 2 ^ 31)
    (hcount : pats.length < 2 ^ 32) :
    ∃ patterns d, phpStrtrArrayPrepareRepls convertToString text.length pats = some patterns ∧
      (∀ p, p ∈ patterns ↔ p ∈ rulesOf convertToString pats ∧ p.pat.length ≤ text.length) ∧
      phpStrtrArrayPrepare patterns 2 2 = .ok d ∧ Prepared patterns d ∧ d.m ≤ text.length := by
  have hrepls := phpStrtrArrayPrepareRepls_eq convertToString hne text.length
  have hkept : ∀ p, p ∈ (rulesOf convertToString pats).filter (fun p => p.pat.length ≤ text.length) ↔
      p ∈ rulesOf convertToString pats ∧ p.pat.length ≤ text.length := by
    intro p
    rw [mem_filter, decide_eq_true_iff]
  have hfew : ((rulesOf convertToString pats).filter fun p => p.pat.length ≤ text.length).length ≤ pats.length :=
    (length_filter_le _ _).trans (length_map ..).le
  generalize (rulesOf convertToString pats).filter (fun p => p.pat.length ≤ text.length) = patterns
    at hrepls hkept hfew
  have hsome : patterns ≠ [] := by
    obtain ⟨e, he, hle⟩ := hshort
    exact ne_nil_of_mem ((hkept _).mpr ⟨mem_map_of_mem he, hle⟩)
  have hlens : ∀ p ∈ patterns, 0 < p.pat.length ∧ p.pat.length < strlenMax := by
    intro p hp
    obtain ⟨hmem, hle⟩ := (hkept p).mp hp
    obtain ⟨e, he, rfl⟩ := mem_map.mp hmem
    have hpos := length_pos_iff.mpr (hne e he)
    exact ⟨hpos, hle.trans_lt (hlen.trans (by decide))⟩
  obtain ⟨d, hprepare, hd⟩ := phpStrtrArrayPrepare_spec hsome hlens (by simp only [qsortStackSize]; omega)
  refine ⟨patterns, d, hrepls, hkept, hprepare, hd, ?_⟩
  obtain ⟨p, hp, heq⟩ := hd.m_mem
  rw [← heq]
  exact ((hkept p).mp hp).2

/-- The bytes that `strtr` with an array returns are the translation by the longest match. -/
theorem phpStrtrArray_eq (text : Bytes) (pats : List (ArrayKey × ν)) (hne : ∀ e ∈ pats, keyText e.1 ≠ [])
    (hshort : ∃ e ∈ pats, (keyText e.1).length ≤ text.length) (hlen : text.length < 2 ^ 31)
    (hcount : pats.length < 2 ^ 32) :
    ∃ r, phpStrtrArray convertToString text pats = .ok (.string r (Var.toInt r.length)) ∧
      Translates (rulesOf convertToString pats) text r ∧
      ((pats.map fun e => keyText e.1).Nodup → r = translate (rulesOf convertToString pats) text) := by
  have hrules : ∀ p ∈ rulesOf convertToString pats, p.pat ≠ [] := by
    intro p hp
    obtain ⟨e, he, rfl⟩ := mem_map.mp hp
    exact hne e he
  obtain ⟨patterns, d, hrepls, hkept, hprepare, hd, hm⟩ := exists_prepared convertToString hne hshort hlen hcount
  obtain ⟨r, hloop, htrans⟩ := hd.doReplLoop_spec (fun p hp => hrules p ((hkept p).mp hp).1) hm (text.length + 1) 0 0 []
    (by omega) (Nat.zero_le _) le_rfl
  have hrepl : phpStrtrArrayDoRepl text d = .ok r := by
    have hlast : (text.length + 2 ^ 64 - d.m) % 2 ^ 64 = text.length - d.m := by omega
    rw [phpStrtrArrayDoRepl, hlast, hloop, Nat.sub_self, take_zero, append_nil, nil_append]
  have hall : Translates (rulesOf convertToString pats) text r := by
    refine Translates.of_matching htrans (fun p hp => ((hkept p).mp hp).1) ?_
    intro p hp u hu hmatch
    exact (hkept p).mpr ⟨hp, hmatch.length_le.trans hu⟩
  refine ⟨r, ?_, hall, fun hnodup => ?_⟩
  · have hpats : pats.length ≠ 0 := fun h0 => by
      obtain ⟨e, he, -⟩ := hshort
      rw [length_eq_zero_iff.mp h0] at he
      cases he
    rw [phpStrtrArray, if_neg hpats, hrepls]
    exact ok_of_steps hprepare hrepl
  · refine Translates.eq_translate ?_ hrules hall
    rwa [rulesOf, map_map]

/-- If all patterns are longer than the text, the first read is before it. -/
theorem mem_phpStrtrArrayReads {text : Bytes} (hpats : pats.length ≠ 0) (hne : ∀ e ∈ pats, keyText e.1 ≠ [])
    (hlong : ∀ e ∈ pats, text.length < (keyText e.1).length) :
    (2 ^ 64 - 3, 2) ∈ phpStrtrArrayReads convertToString text pats := by
  have hnil : (rulesOf convertToString pats).filter (fun p => p.pat.length ≤ text.length) = [] := by
    refine filter_eq_nil_iff.mpr fun p hp => ?_
    obtain ⟨e, he, rfl⟩ := mem_map.mp hp
    have := hlong e he
    simpa using this
  obtain ⟨d, hd, hm, hB⟩ : ∃ d, phpStrtrArrayPrepare [] 2 2 = .ok d ∧ d.m = strlenMax ∧ d.B = 2 :=
    ⟨_, rfl, rfl, rfl⟩
  rw [phpStrtrArrayReads, if_neg hpats, phpStrtrArrayPrepareRepls_eq convertToString hne, hnil]
  dsimp only
  rw [hd]
  dsimp only
  rw [doReplReads, if_pos (Nat.zero_le _), hm, hB]
  exact mem_cons_self

/-- Three patterns, two of which begin the text. -/
def greetings : List (ArrayKey × Bytes) :=
  [(.name (ascii "h"), ascii "-"), (.name (ascii "hello"), ascii "hi"), (.name (ascii "hi"), ascii "hello")]

theorem length_of_translates {a : UInt8} {repl r : Bytes} {n : ℕ}
    (h : Translates [⟨[a], repl⟩] (replicate n a) r) : r.length = n * repl.length := by
  induction n generalizing r with
  | zero =>
    cases h with
    | nil => rw [Nat.zero_mul, length_nil]
    | replace hp h =>
      obtain rfl := mem_singleton.mp hp.mem
      exact absurd (prefix_nil.mp hp.matches_at) (cons_ne_nil _ _)
  | succ n ih =>
    rw [replicate_succ] at h
    cases h with
    | replace hp h =>
      obtain rfl := mem_singleton.mp hp.mem
      rw [length_append, ih h, Nat.succ_mul, Nat.add_comm]
    | copy hnone h => exact absurd ⟨_, rfl⟩ (hnone _ mem_cons_self)

end Result

end PhpSandbox.Standard.Strtr
