import PhpSandbox.Lib.CString

/-!
# Reading SQL text

MySQL's default rules for cutting a statement into tokens: strings in single or
double quotes with backslash escapes and doubled quotes, names in backticks with
doubled backticks only, words, comments, and single characters.

## What is proved

A literal gives at most as many bytes as it takes, and just as many only if its
text is `plain` (`readQuoted_length`): without its own quote, and without a
backslash other than in `\%` and `\_`, which stand for themselves. So a text that
is put between quotes as it stands is read back just when it is plain
(`readQuoted_append_quote_iff`).
-/

namespace PhpSandbox.Lib.Sql

open List

/-- A token of a statement. -/
inductive Token where
  /-- A keyword, a bare name or a number. -/
  | word (s : Bytes)
  /-- A name in backticks. -/
  | ident (s : Bytes)
  /-- A string literal, by its content. -/
  | str (s : Bytes)
  /-- Any other character. -/
  | punct (c : UInt8)
  /-- A quote or a comment that is not closed, with the text after its opening. -/
  | unterminated (s : Bytes)
  deriving DecidableEq

variable (c : UInt8)

/-- White space. -/
def isSpace : Bool := c == 32 || (9 ≤ c && c ≤ 13)

/-- The characters of words. -/
def isWordChar : Bool :=
  (48 ≤ c && c ≤ 57) || (97 ≤ c && c ≤ 122) || (65 ≤ c && c ≤ 90) || c == 95 || c == 36 || 128 ≤ c

/-- What a backslash and `c` stand for in a string. -/
def escapeValue : Bytes :=
  if c = 48 then [0]
  else if c = 98 then [8]
  else if c = 110 then [10]
  else if c = 114 then [13]
  else if c = 116 then [9]
  else if c = 90 then [26]
  else if c = 37 ∨ c = 95 then [92, c]
  else [c]

/-- Reads up to the closing quote `q`: the content, and the text after the quote. A doubled
quote stands for one; with `esc`, a backslash escapes. -/
def readQuoted (esc : Bool) (q : UInt8) : Bytes → Option (Bytes × Bytes)
  | [] => none
  | [c] => if esc ∧ c = 92 then none else if c = q then some ([], []) else none
  | c :: d :: s =>
    if esc ∧ c = 92 then (readQuoted esc q s).map fun (x, r) => (escapeValue d ++ x, r)
    else if c = q then
      if d = q then (readQuoted esc q s).map fun (x, r) => (q :: x, r)
      else some ([], d :: s)
    else (readQuoted esc q (d :: s)).map fun (x, r) => (c :: x, r)

/-- A text that stands for itself between quotes `q`. -/
def plain (q : UInt8) : Bytes → Bool
  | [] => true
  | [c] => c != 92 && c != q
  | c :: d :: s =>
    if c = 92 then (d == 37 || d == 95) && plain q s
    else c != q && plain q (d :: s)

/-! ### Literals -/

section Literal

variable {q : UInt8}

theorem length_escapeValue (d : UInt8) : (escapeValue d).length ≤ 2 := by
  unfold escapeValue
  split_ifs <;> simp

/-- An escape that gives two bytes is `\%` or `\_`, and stands for itself. -/
theorem escapeValue_eq_of_length {d : UInt8} (h : (escapeValue d).length = 2) :
    escapeValue d = [92, d] ∧ (d = 37 ∨ d = 95) := by
  unfold escapeValue at h ⊢
  split_ifs at h ⊢ <;> simp_all

theorem plain_cons {c : UInt8} (hc : c ≠ 92) (s : Bytes) : plain q (c :: s) = (c != q && plain q s) := by
  cases s with
  | nil => simp [plain, hc]
  | cons d s => rw [plain, if_neg hc]

variable {s rest : Bytes}

theorem plain_of_not_mem (h92 : 92 ∉ s) (hq : q ∉ s) : plain q s := by
  induction s with
  | nil => rfl
  | cons c s ih =>
    obtain ⟨hc92, h92⟩ := not_or.mp (mt mem_cons.mpr h92)
    obtain ⟨hcq, hq⟩ := not_or.mp (mt mem_cons.mpr hq)
    rw [plain_cons (Ne.symm hc92), ih h92 hq]
    simpa using Ne.symm hcq

/-- A literal gives no more bytes than it takes, and if it gives as many then its text is
plain and is its content. -/
theorem readQuoted_length {t x r : Bytes} (h : readQuoted true q t = some (x, r)) :
    x.length + r.length + 1 ≤ t.length ∧
      (x.length + r.length + 1 = t.length → t = x ++ q :: r ∧ plain q x) := by
  fun_induction readQuoted true q t generalizing x r with
  | case1 | case2 => cases h
  | case3 hesc =>
    obtain ⟨rfl, rfl⟩ : [] = x ∧ [] = r := by simpa using h
    simp [plain]
  | case4 => cases h
  | case5 c d s hc ih =>
    obtain ⟨⟨x', r'⟩, hx', hxr⟩ := Option.map_eq_some_iff.mp h
    cases hxr
    obtain ⟨hle, heq⟩ := ih hx'
    have hesc := length_escapeValue d
    simp only [length_append, length_cons] at *
    refine ⟨by omega, fun hlen => ?_⟩
    obtain ⟨hval, hd⟩ := escapeValue_eq_of_length (d := d) (by omega)
    obtain ⟨hs, hplain⟩ := heq (by omega)
    rw [hval, hs, hc.2]
    refine ⟨rfl, ?_⟩
    rw [cons_append, singleton_append, plain, if_pos rfl, hplain]
    simpa using hd
  | case6 s hc ih =>
    obtain ⟨⟨x', r'⟩, hx', hxr⟩ := Option.map_eq_some_iff.mp h
    cases hxr
    obtain ⟨hle, -⟩ := ih hx'
    simp only [length_cons] at *
    exact ⟨by omega, fun hlen => absurd hlen (by omega)⟩
  | case7 d s hc hd =>
    obtain ⟨rfl, rfl⟩ : [] = x ∧ d :: s = r := by simpa using h
    exact ⟨by simp, fun _ => ⟨rfl, rfl⟩⟩
  | case8 c d s hc hcq ih =>
    obtain ⟨⟨x', r'⟩, hx', hxr⟩ := Option.map_eq_some_iff.mp h
    cases hxr
    obtain ⟨hle, heq⟩ := ih hx'
    simp only [length_cons] at *
    refine ⟨by omega, fun hlen => ?_⟩
    obtain ⟨hs, hplain⟩ := heq (by omega)
    have hc92 : c ≠ 92 := fun h => hc ⟨trivial, h⟩
    rw [hs, plain_cons hc92, hplain]
    simpa using hcq

/-- A character that is neither the quote nor a backslash is read as itself. -/
theorem readQuoted_cons {esc : Bool} {c : UInt8} (hesc : ¬ (esc ∧ c = 92)) (hc : c ≠ q) (s : Bytes) :
    readQuoted esc q (c :: s) = (readQuoted esc q s).map fun (x, r) => (c :: x, r) := by
  cases s with
  | nil => simp only [readQuoted, hesc, hc, if_false, Option.map_none]
  | cons d s => simp only [readQuoted, hesc, hc, if_false]

theorem readQuoted_escape (d : UInt8) (s : Bytes) :
    readQuoted true q (92 :: d :: s) = (readQuoted true q s).map fun (x, r) => (escapeValue d ++ x, r) := by
  simp [readQuoted]

theorem readQuoted_close {esc : Bool} (hesc : ¬ (esc ∧ q = 92)) (hrest : rest.head? ≠ some q) :
    readQuoted esc q (q :: rest) = some ([], rest) := by
  cases rest with
  | nil => simp only [readQuoted, hesc, if_false, if_true]
  | cons d s =>
    have hd : d ≠ q := by simpa using hrest
    simp [readQuoted, hesc, hd]

/-- A plain text between quotes is read back. -/
theorem readQuoted_plain (hs : plain q s) (hq : q ≠ 92) (hrest : rest.head? ≠ some q) :
    readQuoted true q (s ++ q :: rest) = some (s, rest) := by
  fun_induction plain q s with
  | case1 => exact readQuoted_close (by simpa using hq) hrest
  | case2 c =>
    obtain ⟨h92, hcq⟩ : c ≠ 92 ∧ c ≠ q := by simpa using hs
    rw [singleton_append, readQuoted_cons (by simpa using h92) hcq, readQuoted_close (by simpa using hq) hrest]
    rfl
  | case3 d s ih =>
    obtain ⟨hd, hs⟩ : (d = 37 ∨ d = 95) ∧ plain q s := by simpa using hs
    have hval : escapeValue d = [92, d] := by rcases hd with rfl | rfl <;> rfl
    rw [cons_append, cons_append, readQuoted_escape, ih hs, hval]
    rfl
  | case4 c d s h92 ih =>
    obtain ⟨hcq, hs⟩ : c ≠ q ∧ plain q (d :: s) := by simpa using hs
    rw [cons_append, readQuoted_cons (by simpa using h92) hcq, ih hs]
    rfl

/-- A name without backticks is read back from between them. -/
theorem readQuoted_ident (hs : q ∉ s) (hrest : rest.head? ≠ some q) :
    readQuoted false q (s ++ q :: rest) = some (s, rest) := by
  induction s with
  | nil => exact readQuoted_close (by simp) hrest
  | cons c s ih =>
    obtain ⟨hc, hs⟩ := not_or.mp (mt mem_cons.mpr hs)
    rw [cons_append, readQuoted_cons (by simp) (Ne.symm hc), ih hs]
    rfl

/-- A text is read back from between quotes just when it is plain. -/
theorem readQuoted_append_quote_iff (hq : q ≠ 92) (s : Bytes) :
    (∃ r, readQuoted true q (s ++ [q]) = some (s, r)) ↔ plain q s := by
  constructor
  · rintro ⟨r, h⟩
    obtain ⟨hle, heq⟩ := readQuoted_length h
    rw [length_append, length_singleton] at hle heq
    exact (heq (by omega)).2
  · exact fun h => ⟨[], readQuoted_plain h hq (by simp)⟩

end Literal

/-! ### Tokens -/

variable {s : Bytes}

theorem length_readQuoted_lt {esc : Bool} {q : UInt8} {x r : Bytes} (h : readQuoted esc q s = some (x, r)) :
    r.length < s.length := by
  fun_induction readQuoted esc q s generalizing x r with
  | case1 | case2 | case4 => cases h
  | case3 => cases h; simp
  | case5 c d s hc ih | case6 s hc ih =>
    obtain ⟨⟨x', r'⟩, hx', hxr⟩ := Option.map_eq_some_iff.mp h
    cases hxr
    have := ih hx'
    simp only [length_cons]
    omega
  | case7 => cases h; simp
  | case8 c d s hc hcq ih =>
    obtain ⟨⟨x', r'⟩, hx', hxr⟩ := Option.map_eq_some_iff.mp h
    cases hxr
    have := ih hx'
    simp only [length_cons] at this ⊢
    omega

/-- Whether a `--` with the text `s` after it begins a comment. -/
def dashesBeginComment (s : Bytes) : Bool :=
  match s with
  | [] => true
  | c :: _ => c ≤ 32

/-- The tokens of a statement. -/
def lex (s : Bytes) : List Token :=
  match s with
  | [] => []
  | c :: s =>
    if isSpace c then lex s
    else if c = 39 ∨ c = 34 then
      match _h : readQuoted true c s with
      | some (x, r) => .str x :: lex r
      | none => [.unterminated s]
    else if c = 96 then
      match _h : readQuoted false 96 s with
      | some (x, r) => .ident x :: lex r
      | none => [.unterminated s]
    else if isWordChar c then .word (c :: s.takeWhile isWordChar) :: lex (s.dropWhile isWordChar)
    else if c = 35 then lex (s.dropWhile (· != 10))
    else if c = 45 ∧ s.head? = some 45 ∧ dashesBeginComment s.tail then lex (s.dropWhile (· != 10))
    else if c = 47 ∧ s.head? = some 42 then
      match strstr (ascii "*/") s.tail with
      | some k => lex (s.tail.drop (k + 2))
      | none => [.unterminated s]
    else .punct c :: lex s
termination_by s.length
decreasing_by
  all_goals simp only [length_cons]
  · omega
  · exact Nat.lt_succ_of_lt (length_readQuoted_lt _h)
  · exact Nat.lt_succ_of_lt (length_readQuoted_lt _h)
  · exact Nat.lt_succ_of_le (dropWhile_suffix _).length_le
  · exact Nat.lt_succ_of_le (dropWhile_suffix _).length_le
  · exact Nat.lt_succ_of_le (dropWhile_suffix _).length_le
  · rw [length_drop, length_tail]
    omega
  · omega

section Tokens

variable {rest : Bytes}

@[simp] theorem lex_nil : lex [] = [] := by rw [lex]

@[simp] theorem lex_blank (rest : Bytes) : lex (32 :: rest) = lex rest := by
  rw [lex]
  rfl

/-- A word ends where no character of words follows. -/
theorem lex_word {w : Bytes} (hne : w ≠ []) (hw : w.all isWordChar) (hrest : rest.head?.all (!isWordChar ·)) :
    lex (w ++ rest) = .word w :: lex rest := by
  obtain ⟨c, w, rfl⟩ := exists_cons_of_ne_nil hne
  obtain ⟨hc, hw⟩ : isWordChar c ∧ ∀ d ∈ w, isWordChar d := by simpa using hw
  have hsplit : (w ++ rest).takeWhile isWordChar = w ∧ (w ++ rest).dropWhile isWordChar = rest := by
    rw [takeWhile_append_of_pos hw, dropWhile_append_of_pos hw]
    cases rest with
    | nil => simp
    | cons d rest =>
      have hd : isWordChar d = false := by simpa using hrest
      simp [hd]
  have hclass : ∀ d : UInt8, isWordChar d → isSpace d = false ∧ d ≠ 39 ∧ d ≠ 34 ∧ d ≠ 96 :=
    forall_uint8 (by decide +kernel)
  obtain ⟨h1, h2, h3, h4⟩ := hclass c hc
  rw [cons_append, lex]
  simp [h1, h2, h3, h4, hc, hsplit]

/-- A string literal, which may not be closed. -/
theorem lex_quote {q : UInt8} (hq : q = 39 ∨ q = 34) :
    lex (q :: s) = (readQuoted true q s).elim [.unterminated s] fun (x, rest) => .str x :: lex rest := by
  have hspace : isSpace q = false := by rcases hq with rfl | rfl <;> rfl
  rw [lex]
  simp only [hspace, Bool.false_eq_true, if_false, if_pos hq]
  split
  · next x rest h =>
    rw [h]
    rfl
  · next h =>
    rw [h]
    rfl

theorem lex_string {q : UInt8} (hq : q = 39 ∨ q = 34) {x : Bytes} (h : readQuoted true q s = some (x, rest)) :
    lex (q :: s) = .str x :: lex rest := by
  rw [lex_quote hq, h]
  rfl

/-- A name in backticks. -/
theorem lex_ident (hs : 96 ∉ s) (hrest : rest.head? ≠ some 96) :
    lex (96 :: (s ++ 96 :: rest)) = .ident s :: lex rest := by
  have h := readQuoted_ident hs hrest
  rw [lex, if_neg (by decide), if_neg (by decide), if_pos rfl]
  split
  · next x' r' h' =>
    rw [h] at h'
    cases h'
    rfl
  · next h' => rw [h] at h'; cases h'

/-- A character that begins nothing else. -/
theorem lex_punct {c : UInt8} (hc : c = 42 ∨ c = 44 ∨ c = 61 ∨ c = 40 ∨ c = 41) (rest : Bytes) :
    lex (c :: rest) = .punct c :: lex rest := by
  rcases hc with rfl | rfl | rfl | rfl | rfl <;> (rw [lex]; rfl)

end Tokens

end PhpSandbox.Lib.Sql
