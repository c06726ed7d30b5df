import PhpSandbox.Lib.CString

/-!
# Lines of comma-separated values

`php_fputcsv` and `php_fgetcsv` of `ext/standard/file.c`, with `php_fgetcsv_lookup_trailing_spaces`, in a locale of
single bytes, where `php_mblen` is 1.

## The model

The stream is the bytes that are still to be read; a line ends with LF. Of the line in the buffer the reader knows what
is left of it up to its end (`bptr` to `limit`), and its end (`\r\n`, `\n`, `\r` or nothing). `tptr` and `hunk_begin`
are left out: `field` is what has been copied, and the hunk behind it. The delimiter, the enclosure and the escape
character are not white space and not NUL; so the search for an enclosure never finds one behind the line.

## What is proved

The writer does not double an enclosure that is behind an escape character, however many of these there are. For the
reader every second one is escaped itself. `phpFgetcsv_phpFputcsv_iff` says for which fields the two agree.
-/

namespace PhpSandbox.Standard.Csv

open Lib List Option

/-- LF. -/
def lf : UInt8 := 10

/-- CR. -/
def cr : UInt8 := 13

/-- The three characters, and `isspace` of the locale. -/
structure Format where
  delimiter : UInt8
  enclosure : UInt8
  /-- `escape_char`. -/
  escape : UInt8
  isspace : UInt8 → Bool

/-- `isspace` in the locale `C`. -/
def isspaceC (c : UInt8) : Bool := (9 ≤ c && c ≤ 13) || c == 32

/-! ### The writer -/

/-- The field in enclosures, from some character on; `escaped` is that an escape character is before it. -/
def enclose (fmt : Format) : Bool → Bytes → Bytes
  | _, [] => [fmt.enclosure]
  | escaped, c :: cs =>
    if c = fmt.escape then c :: enclose fmt true cs
    else if !escaped && c == fmt.enclosure then fmt.enclosure :: c :: enclose fmt escaped cs
    else c :: enclose fmt false cs

variable (fmt : Format)

/-- The field has to be enclosed (`FPUTCSV_FLD_CHK`). -/
def needsEnclosure (field : Bytes) : Bool :=
  [fmt.delimiter, fmt.enclosure, fmt.escape, lf, cr, 9, 32].any fun c => field.contains c

/-- The text of a field. -/
def fieldText (field : Bytes) : Bytes :=
  if needsEnclosure fmt field then fmt.enclosure :: enclose fmt false field else field

/-- The fields with delimiters between them. -/
def fieldsText (fmt : Format) : List Bytes → Bytes
  | [] => []
  | [field] => fieldText fmt field
  | field :: fields => fieldText fmt field ++ fmt.delimiter :: fieldsText fmt fields

/-- `php_fputcsv`: what is written. -/
def phpFputcsv (fields : List Bytes) : Bytes := fieldsText fmt fields ++ [lf]

/-! ### The reader -/

/-- `php_stream_get_line`, if there is anything left: a line with its end, and the rest. -/
def getLine : Bytes → Bytes × Bytes
  | [] => ([], [])
  | c :: s => if c = lf then ([c], s) else (c :: (getLine s).1, (getLine s).2)

/-- `php_fgetcsv_lookup_trailing_spaces`: where the end of the line starts. -/
def lookupTrailingSpaces (buf : Bytes) : ℕ :=
  match buf.reverse with
  | c :: d :: _ =>
    if c = lf then if d = cr then buf.length - 2 else buf.length - 1
    else if c = cr then buf.length - 1
    else buf.length
  | [c] => if c = lf ∨ c = cr then buf.length - 1 else buf.length
  | [] => 0

/-- What the reader has of the stream. -/
structure Reader where
  /-- The line from `bptr` to `limit`. -/
  cur : Bytes
  /-- The end of the line. -/
  lineEnd : Bytes
  /-- The stream behind the line. -/
  stream : Bytes
  /-- `limit - buf`. -/
  limitLen : ℕ
  /-- `temp_len`: the length of all lines so far. -/
  tempLen : ℕ

open Reader

/-- The next line of the stream is read; `tempLen` is the length of the lines before. -/
def Reader.next (stream : Bytes) (tempLen : ℕ) : Reader where
  cur := (getLine stream).1.take (lookupTrailingSpaces (getLine stream).1)
  lineEnd := (getLine stream).1.drop (lookupTrailingSpaces (getLine stream).1)
  stream := (getLine stream).2
  limitLen := lookupTrailingSpaces (getLine stream).1
  tempLen := tempLen + (getLine stream).1.length

/-- `state` in an enclosed field. -/
inductive State where
  /-- 0. -/
  | plain
  /-- 1: behind an escape character. -/
  | escaped
  /-- 2: behind an enclosure. -/
  | closing
  deriving DecidableEq

theorem length_getLine_lt {stream : Bytes} (h : stream ≠ []) : (getLine stream).2.length < stream.length := by
  induction stream with
  | nil => exact absurd rfl h
  | cons c s ih =>
    rw [getLine]
    split_ifs
    · exact Nat.lt_succ_self _
    · by_cases hs : s = []
      · subst hs
        exact Nat.zero_lt_one
      · exact (ih hs).trans (Nat.lt_succ_self _)

/-- The loop over an enclosed field: the field, and where the reader is; none if there is no enclosure to close it, and
the line has no end. -/
def enclosedLoop (fmt : Format) (cur lineEnd stream : Bytes) (limitLen tempLen : ℕ) (state : State) (field : Bytes) :
    Option (Bytes × Reader) :=
  match cur with
  | [] =>
    if state = .closing then some (field.dropLast, ⟨[], lineEnd, stream, limitLen, tempLen⟩)
    else if hs : stream = [] then
      -- the enclosure is not closed: the field is all that is left
      if limitLen < tempLen then some (field ++ lineEnd, ⟨[], [], [], limitLen, tempLen⟩) else none
    else
      let r := Reader.next stream tempLen
      have : r.stream.length < stream.length := length_getLine_lt hs
      enclosedLoop fmt r.cur r.lineEnd r.stream r.limitLen r.tempLen .plain (field ++ lineEnd)
  | c :: cs =>
    match state with
    | .escaped => enclosedLoop fmt cs lineEnd stream limitLen tempLen .plain (field ++ [c])
    | .closing =>
      if c ≠ fmt.enclosure then some (field.dropLast, ⟨c :: cs, lineEnd, stream, limitLen, tempLen⟩)
      else enclosedLoop fmt cs lineEnd stream limitLen tempLen .plain field
    | .plain =>
      enclosedLoop fmt cs lineEnd stream limitLen tempLen
        (if c = fmt.enclosure then .closing else if c = fmt.escape then .escaped else .plain) (field ++ [c])
termination_by (stream.length, cur.length)

variable (r : Reader)

/-- An enclosed field, with whatever is between the enclosure and the delimiter. -/
def enclosedField : Option (Bytes × Reader) :=
  if r.cur.tail = [] ∧ r.stream = [] then
    -- `inc_len` is still that of the enclosure: the byte behind the line is stepped over, and then copied once more
    if r.limitLen < r.tempLen then some (r.lineEnd ++ [r.lineEnd.headD 0], ⟨[], [], [], r.limitLen, r.tempLen⟩)
    else none
  else
    (enclosedLoop fmt r.cur.tail r.lineEnd r.stream r.limitLen r.tempLen .plain []).map fun (field, r) =>
      (field ++ r.cur.takeWhile (· ≠ fmt.delimiter), { r with cur := r.cur.dropWhile (· ≠ fmt.delimiter) })

/-- A field that is not enclosed. -/
def plainField : Bytes × Reader :=
  let field := r.cur.takeWhile (· ≠ fmt.delimiter)
  (field.take (lookupTrailingSpaces field), { r with cur := r.cur.dropWhile (· ≠ fmt.delimiter) })

/-- White space before an enclosure is skipped. -/
def skipSpaces (cur : Bytes) : Bytes :=
  let tmp := cur.dropWhile fun c => c ≠ fmt.delimiter && fmt.isspace c
  if tmp.head? = some fmt.enclosure then tmp else cur

/-- One field; the reader is then at the delimiter, or at the end of the line. -/
def readField : Option (Bytes × Reader) :=
  let cur := skipSpaces fmt r.cur
  if cur.head? = some fmt.enclosure then enclosedField fmt { r with cur := cur }
  else some (plainField fmt { r with cur := cur })

/-- The loop over the fields. An entry without a field is NULL. -/
def fieldsLoop (fmt : Format) : ℕ → Reader → Bool → Option (List (Option Bytes) × Bytes)
  | 0, _, _ => none
  | fuel + 1, r, firstField =>
    if firstField ∧ skipSpaces fmt r.cur = [] then some ([none], r.stream)
    else
      (readField fmt r).bind fun (field, r) =>
        match r.cur with
        | [] => some ([some field], r.stream)
        | _ :: cs =>
          (fieldsLoop fmt fuel { r with cur := cs } false).map fun (fields, rest) => (some field :: fields, rest)

/-- `fgetcsv`: the fields and the rest of the stream; none is `false`. -/
def phpFgetcsv (stream : Bytes) : Option (List (Option Bytes) × Bytes) :=
  if stream = [] then none else fieldsLoop fmt (stream.length + 1) (Reader.next stream 0) true

/-! ### What the two agree on -/

/-- A field that comes back: `k` escape characters are before it. Behind an even number of them, but not none, there is
no enclosure, and behind an odd number there is something. -/
def balanced (fmt : Format) : ℕ → Bytes → Bool
  | k, [] => k % 2 = 0
  | k, c :: cs =>
    if c = fmt.escape then balanced fmt (k + 1) cs
    else if c = fmt.enclosure then (k = 0 || k % 2 = 1) && balanced fmt 0 cs
    else balanced fmt 0 cs

/-- The characters are different, and neither white space nor NUL. -/
structure Format.Valid (fmt : Format) : Prop where
  delimiter_enclosure : fmt.delimiter ≠ fmt.enclosure
  delimiter_escape : fmt.delimiter ≠ fmt.escape
  enclosure_escape : fmt.enclosure ≠ fmt.escape
  not_space : fmt.isspace fmt.delimiter = false ∧ fmt.isspace fmt.enclosure = false ∧ fmt.isspace fmt.escape = false
  ne_nul : fmt.delimiter ≠ 0 ∧ fmt.enclosure ≠ 0 ∧ fmt.escape ≠ 0
  /-- What is white space in every locale. -/
  space : ∀ c, isspaceC c = true → fmt.isspace c = true

/-! ### Where the reader is -/

section Reading

variable {fmt : Format} {r r' : Reader} {T T' f field : Bytes} {c : UInt8} {state : State} {k : ℕ}

/-- `enclosedLoop` where a reader is. -/
def Reader.enclosed (r : Reader) (fmt : Format) (state : State) (field : Bytes) : Option (Bytes × Reader) :=
  enclosedLoop fmt r.cur r.lineEnd r.stream r.limitLen r.tempLen state field

/-- The reader has the text `T` before it. -/
structure At (r : Reader) (T : Bytes) : Prop where
  text : T = r.cur ++ (r.lineEnd ++ r.stream)
  cur : lf ∉ r.cur
  /-- The end of a line; it may miss at the end of the stream. -/
  lineEnd : r.lineEnd = [lf] ∨ r.lineEnd = [cr, lf] ∨ (r.stream = [] ∧ (r.lineEnd = [] ∨ r.lineEnd = [cr]))

theorem getLine_append (s : Bytes) : (getLine s).1 ++ (getLine s).2 = s := by
  induction s with
  | nil => rfl
  | cons c s ih =>
    rw [getLine]
    split_ifs
    · rfl
    · rw [cons_append, ih]

/-- A line has LF in the end, or it has none and is the last. -/
theorem getLine_cases (s : Bytes) :
    (∃ line, (getLine s).1 = line ++ [lf] ∧ lf ∉ line) ∨ (lf ∉ (getLine s).1 ∧ (getLine s).2 = []) := by
  induction s with
  | nil => exact .inr ⟨not_mem_nil, rfl⟩
  | cons c s ih =>
    rw [getLine]
    split_ifs with hc
    · subst hc
      exact .inl ⟨[], rfl, not_mem_nil⟩
    rcases ih with ⟨line, hline, hno⟩ | ⟨hno, hnil⟩
    · refine .inl ⟨c :: line, by rw [hline]; rfl, ?_⟩
      simp [hno, Ne.symm hc]
    · refine .inr ⟨?_, hnil⟩
      simp [hno, Ne.symm hc]

theorem lookupTrailingSpaces_concat_lf (line : Bytes) :
    lookupTrailingSpaces (line ++ [lf]) = if line.getLast? = some cr then line.length - 1 else line.length := by
  rcases eq_nil_or_concat line with rfl | ⟨l, d, rfl⟩
  · rfl
  · simp [lookupTrailingSpaces]

theorem lookupTrailingSpaces_of_not_lf {line : Bytes} (h : lf ∉ line) :
    lookupTrailingSpaces line = if line.getLast? = some cr then line.length - 1 else line.length := by
  rcases eq_nil_or_concat line with rfl | ⟨l, c, rfl⟩
  · rfl
  rw [concat_eq_append] at h ⊢
  have hc : c ≠ lf := by
    rintro rfl
    simp at h
  rcases eq_nil_or_concat l with rfl | ⟨l, d, rfl⟩ <;> simp [lookupTrailingSpaces, hc]

/-- A line that was just read. -/
theorem at_next (stream : Bytes) (tempLen : ℕ) : At (Reader.next stream tempLen) stream where
  text := by
    change stream = (getLine stream).1.take _ ++ ((getLine stream).1.drop _ ++ (getLine stream).2)
    rw [← append_assoc, take_append_drop, getLine_append]
  cur := by
    change lf ∉ (getLine stream).1.take (lookupTrailingSpaces (getLine stream).1)
    rcases getLine_cases stream with ⟨line, hline, hno⟩ | ⟨hno, -⟩
    · rw [hline, lookupTrailingSpaces_concat_lf]
      intro hmem
      refine hno (mem_of_mem_take (i := if line.getLast? = some cr then line.length - 1 else line.length) ?_)
      rwa [take_append_of_le_length (by split_ifs <;> omega)] at hmem
    · exact fun hmem => hno (mem_of_mem_take hmem)
  lineEnd := by
    have hlast : ∀ line : Bytes, line.getLast? = some cr → line.drop (line.length - 1) = [cr] := by
      intro line hline
      obtain ⟨l, rfl⟩ := List.getLast?_eq_some_iff.mp hline
      simp
    change (getLine stream).1.drop _ = [lf] ∨ (getLine stream).1.drop _ = [cr, lf] ∨
      ((getLine stream).2 = [] ∧ ((getLine stream).1.drop _ = [] ∨ (getLine stream).1.drop _ = [cr]))
    rcases getLine_cases stream with ⟨line, hline, -⟩ | ⟨hno, hnil⟩
    · rw [hline, lookupTrailingSpaces_concat_lf]
      split_ifs with hcr
      · right; left
        rw [drop_append_of_le_length (by omega), hlast line hcr]
        rfl
      · left
        rw [drop_left]
    · rw [lookupTrailingSpaces_of_not_lf hno]
      refine .inr (.inr ⟨hnil, ?_⟩)
      split_ifs with hcr
      · exact .inr (hlast _ hcr)
      · exact .inl (drop_length)

/-- Where the next character is: in the line, or in its end. -/
theorem at_cases (h : At r (c :: T)) :
    (∃ cs, r.cur = c :: cs ∧ At { r with cur := cs } T) ∨ r.cur = [] ∧
      (c = lf ∧ r.lineEnd = [lf] ∧ r.stream = T ∨ c = cr ∧ r.lineEnd = [cr, lf] ∧ T = lf :: r.stream ∨
        c = cr ∧ r.lineEnd = [cr] ∧ r.stream = [] ∧ T = []) := by
  have htext := h.text
  cases hcur : r.cur with
  | nil =>
    rw [hcur, nil_append] at htext
    refine .inr ⟨rfl, ?_⟩
    rcases h.lineEnd with he | he | ⟨hs, he | he⟩
    · rw [he] at htext
      cases htext
      exact .inl ⟨rfl, he, rfl⟩
    · rw [he] at htext
      cases htext
      exact .inr (.inl ⟨rfl, he, rfl⟩)
    · rw [he, hs] at htext
      cases htext
    · rw [he, hs] at htext
      cases htext
      exact .inr (.inr ⟨rfl, he, hs, rfl⟩)
  | cons d cs =>
    rw [hcur] at htext
    cases htext
    refine .inl ⟨cs, rfl, rfl, ?_, h.lineEnd⟩
    intro hmem
    exact h.cur (by rw [hcur]; exact mem_cons_of_mem _ hmem)

/-- The reader is at a character that ends no line. -/
theorem At.cons (h : At r (c :: T)) (hlf : c ≠ lf) (hcr : c ≠ cr) :
    ∃ cs, r.cur = c :: cs ∧ At { r with cur := cs } T := by
  rcases at_cases h with hin | ⟨-, ⟨hc, -⟩ | ⟨hc, -⟩ | ⟨hc, -⟩⟩
  · exact hin
  · exact absurd hc hlf
  · exact absurd hc hcr
  · exact absurd hc hcr

/-- The reader is at LF: the line is at its end. -/
theorem At.lf (h : At r (lf :: T)) : r.cur = [] ∧ r.lineEnd = [Csv.lf] ∧ r.stream = T := by
  rcases at_cases h with ⟨cs, hcur, -⟩ | ⟨hcur, ⟨-, hend⟩ | ⟨hc, -⟩ | ⟨hc, -⟩⟩
  · exact absurd (by rw [hcur]; exact mem_cons_self) h.cur
  · exact ⟨hcur, hend⟩
  · cases hc
  · cases hc

/-! ### The loop over an enclosed field, character by character -/

theorem Format.Valid.ne_of_space (h : fmt.Valid) (hc : isspaceC c = true) :
    c ≠ fmt.delimiter ∧ c ≠ fmt.enclosure ∧ c ≠ fmt.escape := by
  have hne : ∀ d, fmt.isspace d = false → c ≠ d := by
    rintro d hd rfl
    exact absurd (hd.symm.trans (h.space c hc)) Bool.false_ne_true
  obtain ⟨hd, hq, he⟩ := h.not_space
  exact ⟨hne _ hd, hne _ hq, hne _ he⟩

/-- Delimiter and enclosure do not end a line. -/
theorem Format.Valid.delimiter_ne (h : fmt.Valid) : fmt.delimiter ≠ lf ∧ fmt.delimiter ≠ cr :=
  ⟨(h.ne_of_space (c := lf) (by decide)).1.symm, (h.ne_of_space (c := cr) (by decide)).1.symm⟩

theorem Format.Valid.enclosure_ne (h : fmt.Valid) : fmt.enclosure ≠ lf ∧ fmt.enclosure ≠ cr :=
  ⟨(h.ne_of_space (c := lf) (by decide)).2.1.symm, (h.ne_of_space (c := cr) (by decide)).2.1.symm⟩

/-- The state behind a character, if it is not behind an enclosure before. -/
def nextState (fmt : Format) (state : State) (c : UInt8) : State :=
  if state = .escaped then .plain
  else if c = fmt.enclosure then .closing
  else if c = fmt.escape then .escaped
  else .plain

theorem nextState_of_space (h : fmt.Valid) (hc : isspaceC c = true) (state : State) :
    nextState fmt state c = .plain := by
  obtain ⟨-, hq, he⟩ := h.ne_of_space hc
  unfold nextState
  rw [if_neg hq, if_neg he, ite_self]

theorem enclosed_cons (hcur : r.cur = c :: f) (hstate : state ≠ .closing) :
    r.enclosed fmt state field = enclosed { r with cur := f } fmt (nextState fmt state c) (field ++ [c]) := by
  rw [enclosed, hcur]
  cases state with
  | plain | escaped =>
    rw [enclosedLoop]
    rfl
  | closing => exact absurd rfl hstate

/-- At the end of a line. -/
theorem enclosed_nil (hcur : r.cur = []) (hstate : state ≠ .closing) :
    r.enclosed fmt state field =
      if r.stream = [] then
        if r.limitLen < r.tempLen then some (field ++ r.lineEnd, ⟨[], [], [], r.limitLen, r.tempLen⟩) else none
      else (Reader.next r.stream r.tempLen).enclosed fmt .plain (field ++ r.lineEnd) := by
  obtain ⟨cur, lineEnd, stream, limitLen, tempLen⟩ := r
  obtain rfl : cur = [] := hcur
  rw [enclosed, enclosedLoop, if_neg hstate]
  by_cases hs : stream = []
  · rw [dif_pos hs, if_pos hs]
  · rw [dif_neg hs, if_neg hs]
    rfl

/-- One character, if it is not the last of the stream. -/
theorem enclosed_step (field : Bytes) (hv : fmt.Valid) (h : At r (c :: T)) (hT : T ≠ []) (hstate : state ≠ .closing) :
    ∃ r', At r' T ∧ r.enclosed fmt state field = r'.enclosed fmt (nextState fmt state c) (field ++ [c]) := by
  rcases at_cases h with ⟨cs, hcur, hat⟩ | ⟨hcur, ⟨rfl, he, rfl⟩ | ⟨rfl, he, rfl⟩ | ⟨-, -, -, hnil⟩⟩
  · exact ⟨{ r with cur := cs }, hat, enclosed_cons hcur hstate⟩
  · -- the next line is read
    refine ⟨Reader.next r.stream r.tempLen, at_next _ _, ?_⟩
    rw [enclosed_nil hcur hstate, if_neg hT, he, nextState_of_space hv (by decide)]
  · -- CR LF are read together; it is the same if LF is read after CR
    refine ⟨{ r with lineEnd := [lf] }, ⟨by rw [hcur]; rfl, h.cur, .inl rfl⟩, ?_⟩
    rw [enclosed_nil hcur hstate, enclosed_nil (r := { r with lineEnd := [lf] }) hcur (by
      rw [nextState_of_space hv (by decide)]
      exact nofun), he]
    by_cases hs : r.stream = []
    · rw [if_pos hs, if_pos hs, append_assoc]
      rfl
    · rw [if_neg hs, if_neg hs, append_assoc]
      rfl
  · exact absurd hnil hT

/-- A second enclosure. -/
theorem enclosed_closing_enclosure (field : Bytes) (hv : fmt.Valid) (h : At r (fmt.enclosure :: T)) :
    ∃ r', At r' T ∧ r.enclosed fmt .closing field = r'.enclosed fmt .plain field := by
  obtain ⟨cs, hcur, hat⟩ := h.cons hv.enclosure_ne.1 hv.enclosure_ne.2
  refine ⟨_, hat, ?_⟩
  rw [enclosed, hcur, enclosedLoop, if_neg (not_not.mpr rfl)]
  rfl

/-- The enclosure before was the end of the field. -/
theorem enclosed_closing (h : At r T) (hc : T.head? ≠ some fmt.enclosure) :
    r.enclosed fmt .closing field = some (field.dropLast, r) := by
  obtain ⟨cur, lineEnd, stream, limitLen, tempLen⟩ := r
  cases cur with
  | nil => rw [enclosed, enclosedLoop, if_pos rfl]
  | cons d cs =>
    have hd : d ≠ fmt.enclosure := by
      rintro rfl
      rw [h.text] at hc
      exact hc rfl
    rw [enclosed, enclosedLoop, if_pos hd]

/-- The state of the reader behind `k` escape characters. -/
def afterEscapes (k : ℕ) : State := if k % 2 = 1 then .escaped else .plain

theorem afterEscapes_ne_closing (k : ℕ) : afterEscapes k ≠ .closing := by
  unfold afterEscapes
  split_ifs <;> exact nofun

theorem afterEscapes_even (hk : k % 2 = 0) : afterEscapes k = .plain := by
  rw [afterEscapes, if_neg (by omega)]

theorem afterEscapes_odd (hk : k % 2 = 1) : afterEscapes k = .escaped := by
  rw [afterEscapes, if_pos hk]

theorem nextState_escape (hv : fmt.Valid) (k : ℕ) :
    nextState fmt (afterEscapes k) fmt.escape = afterEscapes (k + 1) := by
  rcases Nat.mod_two_eq_zero_or_one k with hk | hk
  · rw [afterEscapes_even hk, afterEscapes_odd (by omega), nextState, if_neg nofun, if_neg hv.enclosure_escape.symm,
      if_pos rfl]
  · rw [afterEscapes_odd hk, afterEscapes_even (by omega), nextState, if_pos rfl]

theorem nextState_other (hq : c ≠ fmt.enclosure) (he : c ≠ fmt.escape) (k : ℕ) :
    nextState fmt (afterEscapes k) c = .plain := by
  rw [nextState, if_neg hq, if_neg he, ite_self]

variable (b : Bool)

theorem enclose_ne_nil (f : Bytes) : enclose fmt b f ≠ [] := by
  cases f with
  | nil => exact cons_ne_nil _ _
  | cons c f =>
    rw [enclose]
    split_ifs <;> exact cons_ne_nil _ _

theorem enclosure_mem_enclose (f : Bytes) : fmt.enclosure ∈ enclose fmt b f := by
  induction f generalizing b with
  | nil => exact mem_singleton_self _
  | cons c f ih =>
    rw [enclose]
    split_ifs
    · exact mem_cons_of_mem _ (ih _)
    · exact mem_cons_self
    · exact mem_cons_of_mem _ (ih _)

theorem append_enclose_ne_nil (f after : Bytes) : enclose fmt b f ++ after ≠ [] :=
  append_ne_nil_of_left_ne_nil (enclose_ne_nil b f) after

theorem enclose_escape (f : Bytes) : enclose fmt b (fmt.escape :: f) = fmt.escape :: enclose fmt true f := by
  rw [enclose, if_pos rfl]

theorem enclose_other (hq : c ≠ fmt.enclosure) (he : c ≠ fmt.escape) (b : Bool) (f : Bytes) :
    enclose fmt b (c :: f) = c :: enclose fmt false f := by
  rw [enclose, if_neg he, if_neg (by simp [hq])]

theorem enclose_enclosure_false (hv : fmt.Valid) (f : Bytes) :
    enclose fmt false (fmt.enclosure :: f) = fmt.enclosure :: fmt.enclosure :: enclose fmt false f := by
  rw [enclose, if_neg hv.enclosure_escape, if_pos (by simp)]

theorem enclose_enclosure_true (hv : fmt.Valid) (f : Bytes) :
    enclose fmt true (fmt.enclosure :: f) = fmt.enclosure :: enclose fmt false f := by
  rw [enclose, if_neg hv.enclosure_escape, if_neg (by simp)]

/-- How many escape characters are before the next character. -/
def escapesAfter (fmt : Format) (k : ℕ) (c : UInt8) : ℕ := if c = fmt.escape then k + 1 else 0

theorem balanced_cons (hv : fmt.Valid) :
    balanced fmt k (c :: f) = true ↔
      (c = fmt.enclosure → k = 0 ∨ k % 2 = 1) ∧ balanced fmt (escapesAfter fmt k c) f = true := by
  rw [balanced, escapesAfter]
  by_cases he : c = fmt.escape
  · rw [if_pos he, if_pos he]
    exact ⟨fun h => ⟨fun hq => absurd (hq.symm.trans he) hv.enclosure_escape, h⟩, fun h => h.2⟩
  · rw [if_neg he, if_neg he]
    by_cases hq : c = fmt.enclosure <;> simp [hq]

variable {after : Bytes}

/-- A character of the field on which writer and reader agree. -/
theorem enclosed_char (field : Bytes) (hv : fmt.Valid) (hgood : c = fmt.enclosure → k = 0 ∨ k % 2 = 1)
    (h : At r (enclose fmt (k ≠ 0) (c :: f) ++ after)) :
    ∃ r', At r' (enclose fmt (escapesAfter fmt k c ≠ 0) f ++ after) ∧
      r.enclosed fmt (afterEscapes k) field = r'.enclosed fmt (afterEscapes (escapesAfter fmt k c)) (field ++ [c]) := by
  rw [escapesAfter]
  by_cases he : c = fmt.escape
  · subst he
    rw [enclose_escape] at h
    obtain ⟨r', hat, hstep⟩ := enclosed_step field hv h (append_enclose_ne_nil _ _ _)
      (afterEscapes_ne_closing k)
    refine ⟨r', by simpa using hat, ?_⟩
    rw [hstep, nextState_escape hv, if_pos rfl]
  · have hzero : afterEscapes 0 = .plain := afterEscapes_even rfl
    rw [if_neg he, hzero]
    by_cases hq : c = fmt.enclosure
    · subst hq
      rcases hgood rfl with rfl | hk
      · -- it is doubled
        rw [show decide (0 ≠ 0) = false by decide, enclose_enclosure_false hv] at h
        obtain ⟨r₁, hat₁, hstep₁⟩ := enclosed_step field hv h (cons_ne_nil _ _)
          (afterEscapes_ne_closing 0)
        obtain ⟨r₂, hat₂, hstep₂⟩ := enclosed_closing_enclosure (field ++ [fmt.enclosure]) hv hat₁
        refine ⟨r₂, hat₂, ?_⟩
        rw [← hzero, hstep₁, hzero, nextState, if_neg nofun, if_pos rfl, hstep₂]
      · -- it is behind an odd number of escape characters
        have hne : decide (k ≠ 0) = true := decide_eq_true (by omega)
        rw [hne, enclose_enclosure_true hv] at h
        obtain ⟨r', hat, hstep⟩ :=
          enclosed_step field hv h (append_enclose_ne_nil _ _ _) (afterEscapes_ne_closing k)
        refine ⟨r', hat, ?_⟩
        rw [hstep, afterEscapes_odd hk, nextState, if_pos rfl]
    · rw [enclose_other hq he] at h
      obtain ⟨r', hat, hstep⟩ := enclosed_step field hv h (append_enclose_ne_nil _ _ _)
        (afterEscapes_ne_closing k)
      refine ⟨r', hat, ?_⟩
      rw [hstep, nextState_other hq he]

/-- **A balanced field comes back.** -/
theorem enclosed_of_balanced (field : Bytes) (hv : fmt.Valid) (hafter : after ≠ [])
    (hhead : after.head? ≠ some fmt.enclosure) (hb : balanced fmt k f = true)
    (h : At r (enclose fmt (k ≠ 0) f ++ after)) :
    ∃ r', At r' after ∧ r.enclosed fmt (afterEscapes k) field = some (field ++ f, r') := by
  induction f generalizing r field k with
  | nil =>
    have hk : k % 2 = 0 := by simpa [balanced] using hb
    obtain ⟨r', hat, hstep⟩ := enclosed_step field hv h hafter (afterEscapes_ne_closing k)
    refine ⟨r', hat, ?_⟩
    rw [hstep, afterEscapes_even hk, nextState, if_neg nofun, if_pos rfl, enclosed_closing hat hhead,
      dropLast_concat,
      append_nil]
  | cons c f ih =>
    obtain ⟨hgood, hb'⟩ := (balanced_cons hv).mp hb
    obtain ⟨r₁, hat₁, hstep⟩ := enclosed_char field hv hgood h
    obtain ⟨r', hat', hrun⟩ := ih (field ++ [c]) hb' hat₁
    refine ⟨r', hat', ?_⟩
    rw [hstep, hrun, append_assoc, singleton_append]

/-! ### A field that is not balanced -/

/-- What stays of the field whatever is read: behind an enclosure, all but this. -/
def kept (state : State) (field : Bytes) : Bytes := if state = .closing then field.dropLast else field

theorem kept_of_ne (hstate : state ≠ .closing) (field : Bytes) : kept state field = field := if_neg hstate

theorem prefix_kept_concat (state : State) (field : Bytes) (c : UInt8) : field <+: kept state (field ++ [c]) := by
  rw [kept]
  split_ifs
  · rw [dropLast_concat]
  · exact prefix_append _ _

variable {limitLen tempLen : ℕ}

theorem kept_prefix_of_enclosedLoop {cur lineEnd stream v : Bytes}
    (h : enclosedLoop fmt cur lineEnd stream limitLen tempLen state field = some (v, r')) : kept state field <+: v := by
  fun_induction enclosedLoop fmt cur lineEnd stream limitLen tempLen state field with
  | case1 | case6 =>
    cases h
    exact prefix_rfl
  | case2 _ _ _ state _ hstate =>
    cases h
    rw [kept_of_ne hstate]
    exact prefix_append _ _
  | case3 => cases h
  | case4 _ _ _ _ _ _ hstate _ _ _ ih =>
    rw [kept_of_ne hstate]
    exact (prefix_append _ _).trans (ih h)
  | case5 _ _ _ _ _ _ _ ih => exact (prefix_append _ _).trans (ih h)
  | case7 _ _ _ _ _ _ _ _ ih => exact (List.dropLast_prefix _).trans (ih h)
  | case8 _ _ _ _ field c _ ih => exact (prefix_kept_concat _ field c).trans (ih h)

variable {v : Bytes}

/-- A character that is not an enclosure is of the field. -/
theorem concat_prefix_of_enclosed (h : At r (c :: T)) (hc : c ≠ fmt.enclosure)
    (hrun : r.enclosed fmt .plain field = some (v, r')) : field ++ [c] <+: v := by
  rcases at_cases h with ⟨cs, hcur, -⟩ | ⟨hcur, hend⟩
  · rw [enclosed_cons hcur (nofun : State.plain ≠ .closing)] at hrun
    have hnext : nextState fmt .plain c ≠ .closing := by
      rw [nextState, if_neg nofun, if_neg hc]
      split_ifs <;> exact nofun
    have hle := kept_prefix_of_enclosedLoop hrun
    rwa [kept_of_ne hnext] at hle
  · -- it is the end of the line
    have hend : field ++ [c] <+: field ++ r.lineEnd := by
      refine (prefix_append_right_inj field).mpr ?_
      rcases hend with ⟨rfl, he, -⟩ | ⟨rfl, he, -⟩ | ⟨rfl, he, -⟩
      · rw [he]
      · rw [he]
        exact prefix_append [cr] [lf]
      · rw [he]
    rw [enclosed_nil hcur (nofun : State.plain ≠ .closing)] at hrun
    split_ifs at hrun
    · cases hrun
      exact hend
    · exact hend.trans (kept_prefix_of_enclosedLoop hrun)

/-- What an enclosed field is for the reader, with what is behind the enclosure that closes it. -/
def value (fmt : Format) (out : Bytes × Reader) : Bytes := out.1 ++ out.2.cur.takeWhile (· ≠ fmt.delimiter)

theorem prefix_value (fmt : Format) (h : field <+: v) (r : Reader) : field <+: value fmt (v, r) :=
  h.trans (prefix_append _ _)

/-- Too much has been copied. -/
theorem not_prefix_concat (field : Bytes) (c : UInt8) : ¬field ++ [c] <+: field := by
  intro h
  have := h.length_le
  rw [length_append, length_singleton] at this
  omega

variable {out : Bytes × Reader}

/-- An enclosure that is not doubled, and not escaped for the reader. -/
theorem enclosed_undoubled (hv : fmt.Valid) (hafter : after ≠ []) (hhead : after.head? ≠ some fmt.enclosure)
    (h : At r (fmt.enclosure :: (enclose fmt false f ++ after))) (hrun : r.enclosed fmt .plain field = some out) :
    value fmt out ≠ field ++ fmt.enclosure :: f := by
  -- by induction on what is behind it: two enclosures at a time are read, until there is another character
  induction f generalizing r field with
  | nil =>
    obtain ⟨r₁, hat₁, hstep₁⟩ := enclosed_step field hv h (cons_ne_nil _ _)
      (nofun : State.plain ≠ .closing)
    rw [hstep₁, nextState, if_neg nofun, if_pos rfl] at hrun
    obtain ⟨r₂, hat₂, hstep₂⟩ := enclosed_closing_enclosure (field ++ [fmt.enclosure]) hv hat₁
    rw [hstep₂] at hrun
    cases after with
    | nil => exact absurd rfl hafter
    | cons x after =>
      have hx : x ≠ fmt.enclosure := fun hx => hhead (congrArg some hx)
      obtain ⟨v, r₃⟩ := out
      have hle := prefix_value fmt (concat_prefix_of_enclosed hat₂ hx hrun) r₃
      intro heq
      rw [heq] at hle
      exact not_prefix_concat _ _ hle
  | cons c f ih =>
    obtain ⟨r₁, hat₁, hstep₁⟩ :=
      enclosed_step field hv h (append_enclose_ne_nil _ _ _) (nofun : State.plain ≠ .closing)
    rw [hstep₁, nextState, if_neg nofun, if_pos rfl] at hrun
    by_cases hq : c = fmt.enclosure
    · subst hq
      rw [enclose_enclosure_false hv] at hat₁
      obtain ⟨r₂, hat₂, hstep₂⟩ := enclosed_closing_enclosure (field ++ [fmt.enclosure]) hv hat₁
      rw [hstep₂] at hrun
      have hne := ih hat₂ hrun
      rwa [append_assoc, singleton_append] at hne
    · -- the field is at its end for the reader
      have hfirst : ∃ T, enclose fmt false (c :: f) ++ after = c :: T := by
        by_cases he : c = fmt.escape
        · subst he
          exact ⟨_, by rw [enclose_escape]; rfl⟩
        · exact ⟨_, by rw [enclose_other hq he]; rfl⟩
      obtain ⟨T, hT⟩ := hfirst
      rw [hT] at hat₁
      rw [enclosed_closing hat₁ (fun hx => hq (some.inj hx)), dropLast_concat] at hrun
      cases hrun
      intro heq
      have hraw := append_cancel_left heq
      have htext := hat₁.text
      cases hcur : r₁.cur with
      | nil =>
        rw [hcur] at hraw
        cases hraw
      | cons d cs =>
        rw [hcur] at hraw htext
        cases htext
        rw [takeWhile_cons] at hraw
        split_ifs at hraw
        exact hq (List.cons.inj hraw).1

/-- **A field that is not balanced does not come back.** -/
theorem enclosed_of_not_balanced (field : Bytes) (hv : fmt.Valid) (hafter : after ≠ [])
    (hhead : after.head? ≠ some fmt.enclosure) (hb : balanced fmt k f ≠ true)
    (h : At r (enclose fmt (k ≠ 0) f ++ after)) (hrun : r.enclosed fmt (afterEscapes k) field = some out) :
    value fmt out ≠ field ++ f := by
  induction f generalizing r field k with
  | nil =>
    -- the enclosure that closes the field is escaped
    have hk : k % 2 = 1 := by
      have : ¬k % 2 = 0 := by simpa [balanced] using hb
      omega
    obtain ⟨r', hat, hstep⟩ := enclosed_step field hv h hafter (afterEscapes_ne_closing k)
    rw [hstep, afterEscapes_odd hk, nextState, if_pos rfl] at hrun
    obtain ⟨v, r₁⟩ := out
    have hle := prefix_value fmt (kept_prefix_of_enclosedLoop hrun) r₁
    intro heq
    rw [heq, append_nil] at hle
    exact not_prefix_concat _ _ hle
  | cons c f ih =>
    by_cases hgood : c = fmt.enclosure → k = 0 ∨ k % 2 = 1
    · obtain ⟨r₁, hat₁, hstep⟩ := enclosed_char field hv hgood h
      have hb' : balanced fmt (escapesAfter fmt k c) f ≠ true := fun hb' => hb ((balanced_cons hv).mpr ⟨hgood, hb'⟩)
      rw [hstep] at hrun
      have hne := ih _ hb' hat₁ hrun
      rwa [append_assoc, singleton_append] at hne
    · obtain ⟨rfl, hk⟩ := Classical.not_imp.mp hgood
      have hne : decide (k ≠ 0) = true := decide_eq_true (by omega)
      rw [hne, enclose_enclosure_true hv] at h
      rw [afterEscapes_even (by omega)] at hrun
      exact enclosed_undoubled hv hafter hhead h hrun

/-! ### One field -/

/-- What is behind a field: a delimiter, or the end of the line. -/
def Ends (fmt : Format) (after : Bytes) : Prop := ∃ T, after = fmt.delimiter :: T ∨ after = lf :: T

theorem Ends.ne_nil (h : Ends fmt after) : after ≠ [] := by
  obtain ⟨T, rfl | rfl⟩ := h <;> exact cons_ne_nil _ _

theorem Ends.head_ne (hv : fmt.Valid) (h : Ends fmt after) : after.head? ≠ some fmt.enclosure := by
  obtain ⟨T, rfl | rfl⟩ := h
  · exact fun hx => hv.delimiter_enclosure (some.inj hx)
  · exact fun hx => hv.enclosure_ne.1 (some.inj hx).symm

/-- The line is at its end, or at a delimiter. -/
theorem Ends.cur (hv : fmt.Valid) (h : Ends fmt after) (hat : At r after) :
    r.cur = [] ∨ ∃ cs, r.cur = fmt.delimiter :: cs := by
  obtain ⟨T, rfl | rfl⟩ := h
  · obtain ⟨cs, hcur, -⟩ := hat.cons hv.delimiter_ne.1 hv.delimiter_ne.2
    exact .inr ⟨cs, hcur⟩
  · exact .inl hat.lf.1

theorem takeWhile_append_ends {g cs : Bytes} (hg : fmt.delimiter ∉ g) (hcs : cs = [] ∨ ∃ ds, cs = fmt.delimiter :: ds) :
    (g ++ cs).takeWhile (· ≠ fmt.delimiter) = g ∧ (g ++ cs).dropWhile (· ≠ fmt.delimiter) = cs := by
  have hall : ∀ c ∈ g, decide (c ≠ fmt.delimiter) = true := by
    intro c hc
    exact decide_eq_true (fun h => hg (h ▸ hc))
  rw [takeWhile_append_of_pos hall, dropWhile_append_of_pos hall]
  rcases hcs with rfl | ⟨ds, rfl⟩
  · exact ⟨append_nil g, rfl⟩
  · simp

/-- The characters that a field without enclosures does not have. -/
theorem not_mem_of_not_needsEnclosure (h : needsEnclosure fmt f = false) :
    fmt.delimiter ∉ f ∧ fmt.enclosure ∉ f ∧ fmt.escape ∉ f ∧ lf ∉ f ∧ cr ∉ f := by
  simp only [needsEnclosure, any_cons, any_nil, Bool.or_eq_false_iff, contains_eq_mem, decide_eq_false_iff_not] at h
  exact ⟨h.1, h.2.1, h.2.2.1, h.2.2.2.1, h.2.2.2.2.1⟩

theorem balanced_of_not_needsEnclosure (h : needsEnclosure fmt f = false) : balanced fmt 0 f = true := by
  obtain ⟨-, hq, he, -, -⟩ := not_mem_of_not_needsEnclosure h
  clear h
  induction f with
  | nil => rfl
  | cons c f ih =>
    rw [mem_cons, not_or] at hq he
    rw [balanced, if_neg (Ne.symm he.1), if_neg (Ne.symm hq.1)]
    exact ih hq.2 he.2

/-- A text without line ends is in the line. -/
theorem At.append {g : Bytes} (h : At r (g ++ T)) (hlf : Csv.lf ∉ g) (hcr : Csv.cr ∉ g) :
    ∃ cs, r.cur = g ++ cs ∧ At { r with cur := cs } T := by
  induction g generalizing r with
  | nil => exact ⟨r.cur, rfl, h⟩
  | cons c g ih =>
    rw [mem_cons, not_or] at hlf hcr
    obtain ⟨cs, hcur, hat⟩ := At.cons h (Ne.symm hlf.1) (Ne.symm hcr.1)
    obtain ⟨ds, rfl, hat'⟩ := ih hat hlf.2 hcr.2
    exact ⟨ds, hcur, hat'⟩

theorem skipSpaces_enclosure (hv : fmt.Valid) (cs : Bytes) :
    skipSpaces fmt (fmt.enclosure :: cs) = fmt.enclosure :: cs := by
  rw [skipSpaces]
  split_ifs
  · rw [dropWhile_cons, if_neg]
    simp [hv.not_space.2.1]
  · rfl

/-- There is no enclosure in a field without enclosures, and none is found behind it. -/
theorem skipSpaces_plain (hv : fmt.Valid) {g cs : Bytes} (hg : fmt.enclosure ∉ g)
    (hcs : cs = [] ∨ ∃ ds, cs = fmt.delimiter :: ds) : skipSpaces fmt (g ++ cs) = g ++ cs := by
  refine if_neg ?_
  induction g with
  | nil =>
    rcases hcs with rfl | ⟨ds, rfl⟩
    · exact nofun
    · rw [nil_append, dropWhile_cons, if_neg (by simp)]
      exact fun h => hv.delimiter_enclosure (some.inj h)
  | cons c g ih =>
    rw [mem_cons, not_or] at hg
    rw [cons_append, dropWhile_cons]
    split_ifs
    · exact ih hg.2
    · exact fun h => hg.1 (some.inj h).symm

theorem skipSpaces_eq_nil (cs : Bytes) : skipSpaces fmt cs = [] ↔ cs = [] := by
  constructor
  · intro h
    rw [skipSpaces] at h
    split_ifs at h with hhead
    · rw [h] at hhead
      cases hhead
    · exact h
  · rintro rfl
    simp [skipSpaces]

/-- The reader is at an enclosure. -/
theorem readField_enclosure (hv : fmt.Valid) (h : At r (fmt.enclosure :: (enclose fmt false f ++ after))) :
    ∃ r₁, At r₁ (enclose fmt false f ++ after) ∧
      readField fmt r = (r₁.enclosed fmt .plain []).map fun out =>
        (value fmt out, { out.2 with cur := out.2.cur.dropWhile (· ≠ fmt.delimiter) }) := by
  obtain ⟨cs, hcur, hat⟩ := h.cons hv.enclosure_ne.1 hv.enclosure_ne.2
  refine ⟨_, hat, ?_⟩
  -- the field does not end with the line and the stream, as there is an enclosure to close it
  have hne : ¬(cs = [] ∧ r.stream = []) := by
    rintro ⟨rfl, hs⟩
    have hmem : fmt.enclosure ∈ r.lineEnd := by
      have htext := hat.text
      rw [hs, append_nil, nil_append] at htext
      rw [← htext]
      exact mem_append_left _ (enclosure_mem_enclose _ _)
    obtain ⟨hlf, hcr⟩ := hv.enclosure_ne
    rcases h.lineEnd with he | he | ⟨-, he | he⟩ <;> rw [he] at hmem <;> simp [hlf, hcr] at hmem
  rw [readField, hcur, skipSpaces_enclosure hv, head?_cons, if_pos rfl, enclosedField, tail_cons, if_neg hne]
  rfl

/-- **A balanced field is read.** -/
theorem readField_of_balanced (hv : fmt.Valid) (hends : Ends fmt after) (hb : balanced fmt 0 f = true)
    (h : At r (fieldText fmt f ++ after)) : ∃ r', At r' after ∧ readField fmt r = some (f, r') := by
  rw [fieldText] at h
  split_ifs at h with hneeds
  · obtain ⟨r₁, hat₁, hread⟩ := readField_enclosure hv h
    obtain ⟨r', hat', hrun⟩ := enclosed_of_balanced [] hv hends.ne_nil (hends.head_ne hv) hb hat₁
    rw [afterEscapes_even rfl, nil_append] at hrun
    refine ⟨r', hat', ?_⟩
    obtain ⟨htake, hdrop⟩ := takeWhile_append_ends (g := []) not_mem_nil (hends.cur hv hat')
    rw [nil_append] at htake hdrop
    rw [hread, hrun, map_some, value, htake, hdrop, append_nil]
  · obtain ⟨hd, hq, -, hlf, hcr⟩ := not_mem_of_not_needsEnclosure (Bool.not_eq_true _ ▸ hneeds)
    obtain ⟨cs, hcur, hat⟩ := h.append hlf hcr
    have hcs := hends.cur hv hat
    refine ⟨_, hat, ?_⟩
    obtain ⟨htake, hdrop⟩ := takeWhile_append_ends hd hcs
    have hhead : (f ++ cs).head? ≠ some fmt.enclosure := by
      cases f with
      | nil =>
        rcases hcs with hnil | ⟨ds, hds⟩
        · rw [show cs = [] from hnil]
          exact nofun
        · rw [show cs = fmt.delimiter :: ds from hds]
          exact fun hx => hv.delimiter_enclosure (some.inj hx)
      | cons c f => exact fun hx => hq (by rw [← some.inj hx]; exact mem_cons_self)
    have hlen : lookupTrailingSpaces f = f.length := by
      rw [lookupTrailingSpaces_of_not_lf hlf, if_neg]
      exact fun hlast => hcr (mem_of_getLast? hlast)
    rw [readField, hcur, skipSpaces_plain hv hq hcs, if_neg hhead, plainField, htake, hdrop, hlen, take_length]

/-- **A field that is not balanced is not read.** -/
theorem readField_of_not_balanced (hv : fmt.Valid) (hends : Ends fmt after) (hb : balanced fmt 0 f ≠ true)
    (h : At r (fieldText fmt f ++ after)) (hread : readField fmt r = some (v, r')) :
    v ≠ f := by
  have hneeds : needsEnclosure fmt f = true := by
    by_contra hno
    exact hb (balanced_of_not_needsEnclosure (Bool.not_eq_true _ ▸ hno))
  rw [fieldText, if_pos hneeds] at h
  obtain ⟨r₁, hat₁, heq⟩ := readField_enclosure hv h
  rw [heq] at hread
  obtain ⟨out, hrun, hout⟩ := map_eq_some_iff.mp hread
  have hne := enclosed_of_not_balanced [] hv hends.ne_nil (hends.head_ne hv) hb hat₁ hrun
  cases hout
  exact hne

/-! ### The loop over the fields -/

theorem fieldsText_cons (f g : Bytes) (fs : List Bytes) :
    fieldsText fmt (f :: g :: fs) = fieldText fmt f ++ fmt.delimiter :: fieldsText fmt (g :: fs) := rfl

variable {first : Bool} {fuel : ℕ}

/-- One turn of the loop, behind a field that comes back. -/
theorem fieldsLoop_of_readField (hfirst : ¬(first = true ∧ skipSpaces fmt r.cur = []))
    (hread : readField fmt r = some (f, r')) :
    fieldsLoop fmt (fuel + 1) r first =
      match r'.cur with
      | [] => some ([some f], r'.stream)
      | _ :: cs =>
        (fieldsLoop fmt fuel { r' with cur := cs } false).map fun (fields, rest) => (some f :: fields, rest) := by
  rw [fieldsLoop, if_neg hfirst, hread]
  rfl

/-- A field that is read otherwise is another first field, if there is one. -/
theorem fieldsLoop_ne {fs : List (Option Bytes)} {rest : Bytes}
    (hfirst : ¬(first = true ∧ skipSpaces fmt r.cur = [])) (hread : ∀ v r', readField fmt r = some (v, r') → v ≠ f) :
    fieldsLoop fmt (fuel + 1) r first ≠ some (some f :: fs, rest) := by
  rw [fieldsLoop, if_neg hfirst]
  intro h
  obtain ⟨⟨v, r'⟩, hv, hrest⟩ := bind_eq_some_iff.mp h
  have hne := hread v r' hv
  cases hcur : r'.cur with
  | nil =>
    simp only [hcur, some.injEq, Prod.mk.injEq, List.cons.injEq] at hrest
    exact hne hrest.1.1
  | cons d cs =>
    simp only [hcur] at hrest
    obtain ⟨⟨fields, rest'⟩, -, heq⟩ := map_eq_some_iff.mp hrest
    simp only [Prod.mk.injEq, List.cons.injEq, some.injEq] at heq
    exact hne heq.1.1

variable {fields : List Bytes}

/-- **The loop over the fields**, by induction on the fields. -/
theorem fieldsLoop_eq_iff (hv : fmt.Valid) (hne : fields ≠ []) {rest : Bytes}
    (hfuel : fields.length ≤ fuel) (hfirst : ¬(first = true ∧ skipSpaces fmt r.cur = []))
    (h : At r (fieldsText fmt fields ++ lf :: rest)) :
    fieldsLoop fmt fuel r first = some (fields.map some, rest) ↔ ∀ f ∈ fields, balanced fmt 0 f = true := by
  induction fields generalizing r fuel first with
  | nil => exact absurd rfl hne
  | cons f fs ih =>
    obtain ⟨fuel, rfl⟩ : ∃ n, fuel = n + 1 := ⟨fuel - 1, by rw [length_cons] at hfuel; omega⟩
    by_cases hb : balanced fmt 0 f = true
    · cases fs with
      | nil =>
        obtain ⟨r', hat', hread⟩ := readField_of_balanced hv ⟨rest, .inr rfl⟩ hb h
        obtain ⟨hcur, -, hstream⟩ := hat'.lf
        rw [fieldsLoop_of_readField hfirst hread, hcur, hstream]
        simp [hb]
      | cons g fs =>
        rw [fieldsText_cons, append_assoc, cons_append] at h
        obtain ⟨r', hat', hread⟩ := readField_of_balanced hv ⟨_, .inl rfl⟩ hb h
        obtain ⟨cs, hcur, hat⟩ := hat'.cons hv.delimiter_ne.1 hv.delimiter_ne.2
        have hrest : fieldsLoop fmt fuel { r' with cur := cs } false = some ((g :: fs).map some, rest) ↔
            ∀ f ∈ g :: fs, balanced fmt 0 f = true :=
          ih (cons_ne_nil _ _) (Nat.le_of_succ_le_succ hfuel) (fun hf => Bool.false_ne_true hf.1) hat
        rw [fieldsLoop_of_readField hfirst hread, hcur, forall_mem_cons, ← hrest]
        simp [hb, map_eq_some_iff]
    · refine iff_of_false ?_ fun hall => hb (hall f mem_cons_self)
      -- the text behind the field
      obtain ⟨after, hends, htext⟩ :
          ∃ after, Ends fmt after ∧ fieldsText fmt (f :: fs) ++ lf :: rest = fieldText fmt f ++ after := by
        cases fs with
        | nil => exact ⟨lf :: rest, ⟨rest, .inr rfl⟩, rfl⟩
        | cons g fs =>
          refine ⟨fmt.delimiter :: (fieldsText fmt (g :: fs) ++ lf :: rest), ⟨_, .inl rfl⟩, ?_⟩
          rw [fieldsText_cons, append_assoc, cons_append]
      rw [htext] at h
      exact fieldsLoop_ne hfirst fun v r' hread => readField_of_not_balanced hv hends hb h hread

theorem length_fields_le (fmt : Format) (fields : List Bytes) : fields.length ≤ (fieldsText fmt fields).length + 1 := by
  induction fields with
  | nil => exact Nat.zero_le _
  | cons f fs ih =>
    cases fs with
    | nil => exact Nat.le_add_left _ _
    | cons g fs =>
      simp only [fieldsText_cons, length_append, length_cons] at ih ⊢
      omega

/-- The text of a field does not start with a line end. -/
theorem fieldText_head (hv : fmt.Valid) (hf : f ≠ []) : ∃ c T, fieldText fmt f = c :: T ∧ c ≠ lf ∧ c ≠ cr := by
  rw [fieldText]
  split_ifs with hneeds
  · exact ⟨_, _, rfl, hv.enclosure_ne⟩
  obtain ⟨-, -, -, hlf, hcr⟩ := not_mem_of_not_needsEnclosure (Bool.not_eq_true _ ▸ hneeds)
  cases f with
  | nil => exact absurd rfl hf
  | cons c f =>
    rw [mem_cons, not_or] at hlf hcr
    exact ⟨c, f, rfl, Ne.symm hlf.1, Ne.symm hcr.1⟩

/-- The line is not blank. -/
theorem fieldsText_head (hv : fmt.Valid) (hne : fields ≠ []) (hblank : fields ≠ [[]]) :
    ∃ c T, fieldsText fmt fields = c :: T ∧ c ≠ lf ∧ c ≠ cr := by
  cases fields with
  | nil => exact absurd rfl hne
  | cons f fs =>
    cases fs with
    | nil => exact fieldText_head hv fun hf => hblank (by rw [hf])
    | cons g fs =>
      rw [fieldsText_cons]
      by_cases hf : f = []
      · subst hf
        exact ⟨_, _, rfl, hv.delimiter_ne⟩
      · obtain ⟨c, T, hT, hlf, hcr⟩ := fieldText_head hv hf
        exact ⟨c, _, by rw [hT]; rfl, hlf, hcr⟩

/-- The format of a call without the three arguments. -/
def defaultFormat : Format where
  delimiter := 44
  enclosure := 34
  escape := 92
  isspace := isspaceC

theorem defaultFormat_valid : defaultFormat.Valid where
  delimiter_enclosure := by decide
  delimiter_escape := by decide
  enclosure_escape := by decide
  not_space := by decide
  ne_nul := by decide
  space := fun _ h => h

/-- **What is written comes back if every field is balanced, and only then.** -/
theorem phpFgetcsv_phpFputcsv_iff (hv : fmt.Valid) (fields : List Bytes) (hne : fields ≠ []) (hblank : fields ≠ [[]])
    (rest : Bytes) :
    phpFgetcsv fmt (phpFputcsv fmt fields ++ rest) = some (fields.map some, rest) ↔
      ∀ f ∈ fields, balanced fmt 0 f = true := by
  obtain ⟨c, T, hT, hlf, hcr⟩ := fieldsText_head hv hne hblank
  have htext : phpFputcsv fmt fields ++ rest = fieldsText fmt fields ++ lf :: rest := by
    rw [phpFputcsv, append_assoc, singleton_append]
  have hat : At (Reader.next (fieldsText fmt fields ++ lf :: rest) 0) (fieldsText fmt fields ++ lf :: rest) :=
      at_next _ _
  have hstream : fieldsText fmt fields ++ lf :: rest ≠ [] := append_ne_nil_of_right_ne_nil _ (cons_ne_nil _ _)
  have hfuel : fields.length ≤ (fieldsText fmt fields ++ lf :: rest).length + 1 := by
    have hle := length_fields_le fmt fields
    rw [length_append]
    omega
  have hfirst : ¬(true = true ∧ skipSpaces fmt (Reader.next (fieldsText fmt fields ++ lf :: rest) 0).cur = []) := by
    rintro ⟨-, hnil⟩
    have hat' := hat
    nth_rewrite 2 [hT] at hat'
    obtain ⟨cs, hcur, -⟩ := At.cons hat' hlf hcr
    rw [(skipSpaces_eq_nil _).mp hnil] at hcur
    cases hcur
  rw [htext, phpFgetcsv, if_neg hstream]
  exact fieldsLoop_eq_iff hv hne hfuel hfirst hat

/-- The fields `a"` and `\"`. -/
theorem phpFgetcsv_phpFputcsv_quoted :
    phpFgetcsv defaultFormat (phpFputcsv defaultFormat [[97, 34], [92, 34]] ++ []) =
      some ([some [97, 34], some [92, 34]], []) :=
  (phpFgetcsv_phpFputcsv_iff defaultFormat_valid [[97, 34], [92, 34]] (by decide) (by decide) []).mpr (by decide)

/-- The field `\` is written as `"\"`; it comes back as `\"` and the end of the line. -/
theorem phpFgetcsv_phpFputcsv_escape :
    defaultFormat.Valid ∧ phpFputcsv defaultFormat [[92]] = [34, 92, 34, 10] ∧
      phpFgetcsv defaultFormat (phpFputcsv defaultFormat [[92]]) = some ([some [92, 34, 10]], []) ∧
      phpFgetcsv defaultFormat (phpFputcsv defaultFormat [[92]]) ≠ some ([[92]].map some, []) := by
  have hread : phpFgetcsv defaultFormat (phpFputcsv defaultFormat [[92]]) = some ([some [92, 34, 10]], []) := by
    rw [show phpFputcsv defaultFormat [[92]] = [34, 92, 34, 10] by decide]
    simp [phpFgetcsv, fieldsLoop, readField, skipSpaces, enclosedField, enclosedLoop, Reader.next, getLine,
      lookupTrailingSpaces, defaultFormat, isspaceC, lf, cr]
  refine ⟨defaultFormat_valid, by decide, hread, ?_⟩
  rw [hread]
  decide

end Reading

end PhpSandbox.Standard.Csv
