import Mathlib.Data.List.TakeWhile
import PhpSandbox.Standard.ParseUrl

/-!
# Stripping tags

`php_strip_tags_ex` of `ext/standard/string.c`, a scanner that drops what looks like a tag unless `php_tag_find` finds
it in the list of allowed tags.

## The model

`Scanner` has the variables of the loop; the text before the current character is a list, the last character first, so
that `*(p-1)` is its head. The buffer for a tag is a list, so that its size is not in the model.

## What is proved

`php_tag_find` removes every `/` before it looks the name up, so that `<b/r>` is taken for `<br>` and is kept. Every tag
in the result has a listed name if and only if the text has no tag with a `/` inside its first word, such that the word
is listed when each `/` is removed, and what is before the `/` is not (`stripTagsEx_iff`). Without a list of allowed
tags, what is left has nothing to strip (`stripTagsEx_idempotent`).
-/

namespace PhpSandbox.Standard.StripTags

open Lib
open ParseUrl (isspace tolower isalpha)

/-! ### Characters -/

/-- `<`. -/
def lt : UInt8 := 60

/-- `>`. -/
def gt : UInt8 := 62

/-- `/`. -/
def slash : UInt8 := 47

/-- `"`. -/
def quote : UInt8 := 34

/-- The apostrophe. -/
def apostrophe : UInt8 := 39

/-- The backslash. -/
def backslash : UInt8 := 92

/-- `-`. -/
def hyphen : UInt8 := 45

/-- `!`. -/
def exclamation : UInt8 := 33

/-- `?`. -/
def question : UInt8 := 63

/-! ### `php_tag_find` -/

/-- The loop of `php_tag_find`; `seen` is its `state`. -/
def normalize : Bool → Bytes → Bytes
  | _, [] => []
  | seen, c :: t =>
    if tolower c = lt then lt :: normalize seen t
    else if tolower c = gt then []
    else if isspace (tolower c) then if seen then [] else normalize seen t
    else if tolower c = slash then normalize true t
    else tolower c :: normalize true t

/-- `php_tag_find`. -/
def tagFind (tag set : Bytes) : Bool := tag ≠ [] ∧ strstr (normalize false tag ++ [gt]) set ≠ none

/-! ### The scanner -/

/-- `state`. -/
inductive State where
  /-- `0`, outside of tags. -/
  | text
  /-- `1`, inside of a tag. -/
  | tag
  /-- `2`, inside of PHP code. -/
  | php
  /-- `3`, inside of a declaration. -/
  | declaration
  /-- `4`, inside of a comment. -/
  | comment
  deriving DecidableEq

/-- The variables of the loop. -/
structure Scanner where
  /-- What is in `rbuf` before `rp`. -/
  out : Bytes
  /-- What is in `tbuf` before `tp`. -/
  tbuf : Bytes
  state : State
  lc : UInt8
  br : ℤ
  depth : ℕ
  inQ : UInt8

open Scanner

/-- The arguments that do not change: `allow`, in lower case, and `allow_tag_spaces`. -/
structure Options where
  allow : Option Bytes
  allowTagSpaces : Bool

namespace Scanner

variable (o : Options)

/-- The label `reg_char`. -/
def regChar (c : UInt8) (s : Scanner) : Scanner :=
  match s.state with
  | .text => { s with out := s.out ++ [c] }
  | .tag => if o.allow.isSome then { s with tbuf := s.tbuf ++ [c] } else s
  | _ => s

/-- `case '<'`. -/
def less (next : UInt8) (s : Scanner) : Scanner :=
  if s.inQ ≠ 0 then s
  else if isspace next ∧ ¬o.allowTagSpaces then s.regChar o lt
  else
    match s.state with
    | .text =>
      { s with lc := lt, state := .tag, tbuf := if o.allow.isSome then s.tbuf ++ [lt] else s.tbuf }
    | .tag => { s with depth := s.depth + 1 }
    | _ => s

/-- `case '('` and `case ')'`. -/
def bracket (c : UInt8) (step : ℤ) (s : Scanner) : Scanner :=
  if s.state = .php then
    if s.lc ≠ quote ∧ s.lc ≠ apostrophe then { s with lc := c, br := s.br + step } else s
  else s.regChar o c

/-- The end of a part that is not kept. -/
def leave (s : Scanner) : Scanner := { s with inQ := 0, state := .text, tbuf := [] }

/-- The end of a tag. -/
def closeTag (s : Scanner) : Scanner :=
  let s := { s with lc := gt, inQ := 0, state := .text }
  match o.allow with
  | none => s
  | some set =>
    { s with out := if tagFind (s.tbuf ++ [gt]) set then s.out ++ (s.tbuf ++ [gt]) else s.out, tbuf := [] }

variable (before : Bytes) (s : Scanner)

/-- `case '>'`. -/
def greater : Scanner :=
  if s.depth ≠ 0 then { s with depth := s.depth - 1 }
  else if s.inQ ≠ 0 then s
  else
    match s.state with
    | .tag => s.closeTag o
    | .php => if s.br = 0 ∧ s.lc ≠ quote ∧ before.head? = some question then s.leave else s
    | .declaration => s.leave
    | .comment => if [hyphen, hyphen] <+: before then s.leave else s
    | .text => { s with out := s.out ++ [gt] }

variable (c : UInt8) (s : Scanner)

/-- The first part of `case '"'` and `case '\''`. -/
def quoteChar : Scanner :=
  if s.state = .php ∧ before.head? ≠ some backslash then
    if s.lc = c then { s with lc := 0 } else if s.lc ≠ backslash then { s with lc := c } else s
  else s.regChar o c

/-- `case '"'` and `case '\''`. -/
def quoted : Scanner :=
  if s.state = .comment then s
  else
    let s := s.quoteChar o before c
    if s.state ≠ .text ∧ before ≠ [] ∧ (s.state = .tag ∨ before.head? ≠ some backslash) ∧ (s.inQ = 0 ∨ c = s.inQ) then
      { s with inQ := if s.inQ ≠ 0 then 0 else c }
    else s

/-- `case '!'`. -/
def bang : Scanner :=
  if s.state = .tag ∧ before.head? = some lt then { s with state := .declaration, lc := exclamation }
  else s.regChar o exclamation

/-- `case '-'`. -/
def dash : Scanner :=
  if s.state = .declaration ∧ [hyphen, exclamation] <+: before then { s with state := .comment }
  else s.regChar o hyphen

/-- `case '?'`, `case 'e'` and `case 'l'`, each of which falls through to the next, and `default`. -/
def other : Scanner :=
  if c = question ∧ s.state = .tag ∧ before.head? = some lt then { s with br := 0, state := .php }
  else if (c = question ∨ c = 69 ∨ c = 101) ∧ s.state = .declaration ∧ 6 < before.length ∧
      (before.take 6).map tolower = ascii "pytcod" then { s with state := .tag }
  else if (c = question ∨ c = 69 ∨ c = 101 ∨ c = 108 ∨ c = 76) ∧ s.state = .php ∧ 2 < before.length ∧
      (before.take 2).map tolower = ascii "mx" then { s with state := .tag }
  else s.regChar o c

/-- One character: `before` is the text before it, the last character first, and `next` the character after it. -/
def step (c next : UInt8) (s : Scanner) : Scanner :=
  if c = 0 then s
  else if c = lt then s.less o next
  else if c = 40 then s.bracket o c 1
  else if c = 41 then s.bracket o c (-1)
  else if c = gt then s.greater o before
  else if c = quote ∨ c = apostrophe then s.quoted o before c
  else if c = exclamation then s.bang o before
  else if c = hyphen then s.dash o before
  else s.other o before c

/-- The loop; behind the text there is a NUL. -/
def scan (o : Options) : Bytes → Bytes → Scanner → Scanner
  | _, [], s => s
  | before, c :: rest, s => scan o (c :: before) rest (s.step o before c (rest.headD 0))

/-- The start of the loop. -/
def init (state : State) : Scanner := ⟨[], [], state, 0, 0, 0, 0⟩

end Scanner

/-- `php_strip_tags_ex`: the text in `rbuf`, and the state at the end. -/
def stripTagsEx (text : Bytes) (state : State) (allow : Option Bytes) (allowTagSpaces : Bool) : Bytes × State :=
  let s := scan ⟨allow.map (·.map tolower), allowTagSpaces⟩ [] text (init state)
  (s.out, s.state)

/-! ### What is expected -/

variable (names : List Bytes)

/-- A list of allowed tags. -/
def allowList : Bytes := names.flatMap fun name => lt :: name ++ [gt]

/-- Without one optional `/`. -/
def dropSlash : Bytes → Bytes
  | [] => []
  | c :: t => if c = slash then t else c :: t

variable (post : Bytes)

/-- The name of the tag behind a `<`. -/
def tagName : Bytes := (dropSlash post).takeWhile fun c => ¬isspace c ∧ c ≠ slash ∧ c ≠ gt

/-- A name is listed, ignoring case. -/
def Listed (name : Bytes) : Prop := ∃ n ∈ names, n.map tolower = name.map tolower

/-- White space follows. -/
def SpaceFirst : Prop := ∃ c ∈ post.head?, isspace c = true

/-- **Every tag in the result has a listed name.** -/
def OnlyAllowed (result : Bytes) : Prop :=
  ∀ pre post, result = pre ++ lt :: post → ¬SpaceFirst post → Listed names (tagName post)

/-- What is behind the `<` of a tag, up to white space. -/
def word : Bytes := post.takeWhile fun c => ¬isspace c ∧ c ≠ gt

/-- If a `/` is inside the first word of a tag, and the word is listed when each `/` is removed, then what is before the
`/` is listed too. -/
def SlashOk : Prop :=
  slash ∈ dropSlash (word post) → Listed names ((dropSlash (word post)).filter (· ≠ slash)) →
    Listed names ((dropSlash (word post)).takeWhile (· ≠ slash))

instance (name : Bytes) : Decidable (Listed names name) := inferInstanceAs (Decidable (∃ n ∈ names, _))

instance : Decidable (SlashOk names post) := inferInstanceAs (Decidable (_ → _ → _))

namespace Scanner

/-- The options with a list of allowed tags. -/
def allowing (set : Bytes) : Options := ⟨some set, false⟩

/-- The tag that this character ends, if any. -/
def tagHere (c : UInt8) (s : Scanner) : List Bytes :=
  if c = gt ∧ s.depth = 0 ∧ s.inQ = 0 ∧ s.state = .tag then [s.tbuf ++ [gt]] else []

/-- The tags that end in a text. -/
def tagsRead (set : Bytes) : Bytes → Bytes → Scanner → List Bytes
  | _, [], _ => []
  | before, c :: rest, s =>
    s.tagHere c ++ tagsRead set (c :: before) rest (s.step (allowing set) before c (rest.headD 0))

end Scanner

/-- The tags of a text, also those that are not allowed: which ones there are does not depend on a list of allowed tags
(`tagsRead_eq`), and here it is empty. -/
def tagsOf (text : Bytes) : List Bytes := tagsRead [] [] text (init .text)

/-! ### What a character does -/

open List

/-- What one character can do to the two texts and the state; `tags` are the tags that end then. -/
inductive Effect (set : Bytes) (c next : UInt8) (s s' : Scanner) : List Bytes → Prop
  /-- It is dropped. -/
  | skip (hspace : isspace c = false) (hout : s'.out = s.out) (htbuf : s'.tbuf = s.tbuf)
      (hstate : s'.state = .text ↔ s.state = .text) : Effect set c next s s' []
  /-- It is copied. -/
  | copy (hlt : c = lt → isspace next = true) (hgt : c = gt → s.state = .text) (hstate : s'.state = s.state)
      (hout : s'.out = if s.state = .text then s.out ++ [c] else s.out)
      (htbuf : s'.tbuf = if s.state = .tag then s.tbuf ++ [c] else s.tbuf) : Effect set c next s s' []
  /-- A tag begins. -/
  | enter (hc : c = lt) (hstate : s.state = .text) (hstate' : s'.state = .tag) (hout : s'.out = s.out)
      (htbuf : s'.tbuf = s.tbuf ++ [lt]) : Effect set c next s s' []
  /-- A tag ends. -/
  | close (hc : c = gt) (hstate : s.state = .tag) (hstate' : s'.state = .text)
      (hout : s'.out = if tagFind (s.tbuf ++ [gt]) set then s.out ++ (s.tbuf ++ [gt]) else s.out)
      (htbuf : s'.tbuf = []) : Effect set c next s s' [s.tbuf ++ [gt]]
  /-- Something else ends. -/
  | leave (hspace : isspace c = false) (hstate : s.state ≠ .text) (hstate' : s'.state = .text)
      (hout : s'.out = s.out) (htbuf : s'.tbuf = []) : Effect set c next s s' []

variable {set before : Bytes} {c next : UInt8} {s s' : Scanner} {tags : List Bytes}

/-- The effect is only about the two texts and the state. -/
theorem Effect.frame (h : Effect set c next s s' tags) {s'' : Scanner} (hout : s''.out = s'.out)
    (htbuf : s''.tbuf = s'.tbuf) (hstate : s''.state = s'.state) : Effect set c next s s'' tags := by
  cases h with
  | skip hspace ho ht hs => exact .skip hspace (hout.trans ho) (htbuf.trans ht) (by rw [hstate]; exact hs)
  | copy hlt hgt hs ho ht => exact .copy hlt hgt (hstate.trans hs) (hout.trans ho) (htbuf.trans ht)
  | enter hc hs hs' ho ht => exact .enter hc hs (hstate.trans hs') (hout.trans ho) (htbuf.trans ht)
  | close hc hs hs' ho ht => exact .close hc hs (hstate.trans hs') (hout.trans ho) (htbuf.trans ht)
  | leave hspace hs hs' ho ht => exact .leave hspace hs (hstate.trans hs') (hout.trans ho) (htbuf.trans ht)

namespace Scanner

theorem tagHere_eq_nil (h : ¬(c = gt ∧ s.depth = 0 ∧ s.inQ = 0 ∧ s.state = .tag)) : s.tagHere c = [] := if_neg h

theorem effect_regChar (hlt : c = lt → isspace next = true) (hgt : c ≠ gt) :
    Effect set c next s (s.regChar (allowing set) c) [] := by
  obtain ⟨out, tbuf, state, lc, br, depth, inQ⟩ := s
  cases state with
  | text => exact .copy hlt (fun _ => rfl) rfl rfl rfl
  | tag | php | declaration | comment => exact .copy hlt (fun h => absurd h hgt) rfl rfl rfl

theorem effect_less : Effect set lt next s (s.less (allowing set) next) [] := by
  obtain ⟨out, tbuf, state, lc, br, depth, inQ⟩ := s
  rw [less]
  by_cases hq : inQ ≠ 0
  · rw [if_pos hq]
    exact .skip rfl rfl rfl Iff.rfl
  rw [if_neg hq]
  by_cases hspace : isspace next = true ∧ ¬(allowing set).allowTagSpaces = true
  · rw [if_pos hspace]
    exact effect_regChar (fun _ => hspace.1) (by decide)
  · rw [if_neg hspace]
    cases state with
    | text => exact .enter rfl rfl rfl rfl rfl
    | tag | php | declaration | comment => exact .skip rfl rfl rfl Iff.rfl

theorem effect_bracket (hspace : isspace c = false) (hlt : c ≠ lt) (hgt : c ≠ gt) (step : ℤ) :
    Effect set c next s (s.bracket (allowing set) c step) [] := by
  rw [bracket]
  split_ifs
  · exact .skip hspace rfl rfl Iff.rfl
  · exact .skip hspace rfl rfl Iff.rfl
  · exact effect_regChar (fun h => absurd h hlt) hgt

theorem effect_greater : Effect set gt next s (s.greater (allowing set) before) (s.tagHere gt) := by
  obtain ⟨out, tbuf, state, lc, br, depth, inQ⟩ := s
  rw [greater]
  by_cases hdepth : depth ≠ 0
  · rw [if_pos hdepth, tagHere_eq_nil fun h => hdepth h.2.1]
    exact .skip rfl rfl rfl Iff.rfl
  rw [if_neg hdepth]
  by_cases hq : inQ ≠ 0
  · rw [if_pos hq, tagHere_eq_nil fun h => hq h.2.2.1]
    exact .skip rfl rfl rfl Iff.rfl
  rw [if_neg hq]
  cases state with
  | text =>
    rw [tagHere_eq_nil fun h => State.noConfusion h.2.2.2]
    exact .copy (fun h => absurd h (by decide)) (fun _ => rfl) rfl rfl rfl
  | tag =>
    have hread : tagHere gt ⟨out, tbuf, .tag, lc, br, depth, inQ⟩ = [tbuf ++ [gt]] :=
      if_pos ⟨rfl, not_not.mp hdepth, not_not.mp hq, rfl⟩
    rw [hread]
    exact .close rfl rfl rfl rfl rfl
  | php | comment =>
    rw [tagHere_eq_nil fun h => State.noConfusion h.2.2.2]
    dsimp only
    split_ifs
    · exact .leave rfl nofun rfl rfl rfl
    · exact .skip rfl rfl rfl Iff.rfl
  | declaration =>
    rw [tagHere_eq_nil fun h => State.noConfusion h.2.2.2]
    exact .leave rfl nofun rfl rfl rfl

theorem effect_quoted (hspace : isspace c = false) (hlt : c ≠ lt) (hgt : c ≠ gt) :
    Effect set c next s (s.quoted (allowing set) before c) [] := by
  have hquote : Effect set c next s (s.quoteChar (allowing set) before c) [] := by
    rw [quoteChar]
    split_ifs
    · exact .skip hspace rfl rfl Iff.rfl
    · exact .skip hspace rfl rfl Iff.rfl
    · exact .skip hspace rfl rfl Iff.rfl
    · exact effect_regChar (fun h => absurd h hlt) hgt
  rw [quoted]
  by_cases hcomment : s.state = .comment
  · rw [if_pos hcomment]
    exact .skip hspace rfl rfl Iff.rfl
  rw [if_neg hcomment]
  dsimp only
  generalize s.quoteChar (allowing set) before c = s₁ at hquote
  split_ifs
  · exact hquote.frame rfl rfl rfl
  · exact hquote.frame rfl rfl rfl
  · exact hquote

theorem effect_bang : Effect set exclamation next s (s.bang (allowing set) before) [] := by
  rw [bang]
  split_ifs with hdecl
  · exact .skip rfl rfl rfl (iff_of_false (by simp) (by simp [hdecl]))
  · exact effect_regChar (fun h => absurd h (by decide)) (by decide)

theorem effect_dash : Effect set hyphen next s (s.dash (allowing set) before) [] := by
  rw [dash]
  split_ifs with hcomment
  · exact .skip rfl rfl rfl (iff_of_false (by simp) (by simp [hcomment]))
  · exact effect_regChar (fun h => absurd h (by decide)) (by decide)

theorem effect_other (hlt : c ≠ lt) (hgt : c ≠ gt) : Effect set c next s (s.other (allowing set) before c) [] := by
  rw [other]
  split_ifs with hphp hdoctype hxml
  · obtain ⟨rfl, hstate, -⟩ := hphp
    exact .skip rfl rfl rfl (iff_of_false (by simp) (by simp [hstate]))
  · obtain ⟨hc, hstate, -⟩ := hdoctype
    refine .skip ?_ rfl rfl (iff_of_false (by simp) (by simp [hstate]))
    rcases hc with rfl | rfl | rfl <;> rfl
  · obtain ⟨hc, hstate, -⟩ := hxml
    refine .skip ?_ rfl rfl (iff_of_false (by simp) (by simp [hstate]))
    rcases hc with rfl | rfl | rfl | rfl | rfl <;> rfl
  · exact effect_regChar (fun h => absurd h hlt) hgt

/-- **What one character does.** -/
theorem effect_step (set before : Bytes) (c next : UInt8) (s : Scanner) :
    Effect set c next s (s.step (allowing set) before c next) (s.tagHere c) := by
  by_cases hgt : c = gt
  · subst hgt
    exact effect_greater
  rw [tagHere_eq_nil fun h => hgt h.1, step]
  split_ifs with hnul hlt hopen hclose hquote hbang hdash
  · subst hnul
    exact .skip rfl rfl rfl Iff.rfl
  · subst hlt
    exact effect_less
  · subst hopen
    exact effect_bracket rfl (by decide) (by decide) 1
  · subst hclose
    exact effect_bracket rfl (by decide) (by decide) (-1)
  · refine effect_quoted ?_ hlt hgt
    rcases hquote with rfl | rfl <;> rfl
  · subst hbang
    exact effect_bang
  · subst hdash
    exact effect_dash
  · exact effect_other hlt hgt

section Result

-- a list of allowed tags matters only for the result
variable {set' out : Bytes}

theorem regChar_result :
    ∃ out', regChar (allowing set) c { s with out := out } = { s.regChar (allowing set') c with out := out' } := by
  obtain ⟨out₀, tbuf, state, lc, br, depth, inQ⟩ := s
  cases state <;> exact ⟨_, rfl⟩

theorem bracket_result (step : ℤ) : ∃ out', bracket (allowing set) c step { s with out := out } =
    { s.bracket (allowing set') c step with out := out' } := by
  rw [bracket, bracket]
  split_ifs
  · exact ⟨_, rfl⟩
  · exact ⟨_, rfl⟩
  · exact regChar_result

theorem less_result :
    ∃ out', less (allowing set) next { s with out := out } = { s.less (allowing set') next with out := out' } := by
  obtain ⟨out₀, tbuf, state, lc, br, depth, inQ⟩ := s
  rw [less, less]
  by_cases hq : inQ ≠ 0
  · rw [if_pos hq, if_pos hq]
    exact ⟨_, rfl⟩
  rw [if_neg hq, if_neg hq]
  by_cases hspace : isspace next = true ∧ ¬false = true
  · rw [allowing, allowing, if_pos hspace, if_pos hspace]
    exact regChar_result
  · rw [allowing, allowing, if_neg hspace, if_neg hspace]
    cases state <;> exact ⟨_, rfl⟩

theorem greater_result : ∃ out', greater (allowing set) before { s with out := out } =
    { s.greater (allowing set') before with out := out' } := by
  obtain ⟨out₀, tbuf, state, lc, br, depth, inQ⟩ := s
  rw [greater, greater]
  by_cases hdepth : depth ≠ 0
  · rw [if_pos hdepth, if_pos hdepth]
    exact ⟨_, rfl⟩
  rw [if_neg hdepth, if_neg hdepth]
  by_cases hq : inQ ≠ 0
  · rw [if_pos hq, if_pos hq]
    exact ⟨_, rfl⟩
  rw [if_neg hq, if_neg hq]
  cases state with
  | php | comment =>
    dsimp only
    split_ifs <;> exact ⟨_, rfl⟩
  | text | tag | declaration => exact ⟨_, rfl⟩

theorem quoted_result : ∃ out', quoted (allowing set) before c { s with out := out } =
    { s.quoted (allowing set') before c with out := out' } := by
  have hquote : ∃ out', quoteChar (allowing set) before c { s with out := out } =
      { s.quoteChar (allowing set') before c with out := out' } := by
    rw [quoteChar, quoteChar]
    split_ifs
    · exact ⟨_, rfl⟩
    · exact ⟨_, rfl⟩
    · exact ⟨_, rfl⟩
    · exact regChar_result
  obtain ⟨out', hquote⟩ := hquote
  rw [quoted, quoted, hquote]
  dsimp only
  split_ifs <;> exact ⟨_, rfl⟩

/-- **A list of allowed tags matters only for the result.** -/
theorem step_result : ∃ out', step (allowing set) before c next { s with out := out } =
    { s.step (allowing set') before c next with out := out' } := by
  rw [step, step]
  split_ifs
  · exact ⟨_, rfl⟩
  · exact less_result
  · exact bracket_result 1
  · exact bracket_result (-1)
  · exact greater_result
  · exact quoted_result
  · rw [bang, bang]
    split_ifs
    · exact ⟨_, rfl⟩
    · exact regChar_result
  · rw [dash, dash]
    split_ifs
    · exact ⟨_, rfl⟩
    · exact regChar_result
  · rw [other, other]
    split_ifs
    · exact ⟨_, rfl⟩
    · exact ⟨_, rfl⟩
    · exact ⟨_, rfl⟩
    · exact regChar_result

end Result

theorem tagsRead_eq (set set' : Bytes) (before rest : Bytes) (s : Scanner) (out : Bytes) :
    tagsRead set before rest { s with out := out } = tagsRead set' before rest s := by
  induction rest generalizing before s out with
  | nil => rfl
  | cons c rest ih =>
    obtain ⟨out', hstep⟩ := @step_result set before c (rest.headD 0) s set' out
    rw [tagsRead, tagsRead, hstep, ih]
    rfl

end Scanner

/-! ### Where a `<` can be -/

/-- What is behind each `<` of a text; behind the last character, something is pending. -/
def MarksOk (ok : Bytes → Prop) (pending : Prop) (t : Bytes) : Prop :=
  ∀ pre post, t = pre ++ lt :: post → ok post ∨ (post = [] ∧ pending)

theorem marksOk_nil (ok : Bytes → Prop) (pending : Prop) : MarksOk ok pending [] :=
  fun pre post h => absurd h.symm (append_ne_nil_of_right_ne_nil pre (cons_ne_nil lt post))

variable {t : Bytes} {pending pending' : Prop}

theorem MarksOk.mono {ok : Bytes → Prop} (h : MarksOk ok pending t) (hpending : pending → pending') :
    MarksOk ok pending' t :=
  fun pre post heq => (h pre post heq).imp_right fun hlast => ⟨hlast.1, hpending hlast.2⟩

/-- A character is appended. -/
theorem MarksOk.append_char {ok : Bytes → Prop} (h : MarksOk ok pending t)
    (hok : ∀ post, ok post → ok (post ++ [c])) (hc : pending → ok [c]) (hlt : c = lt → pending') :
    MarksOk ok pending' (t ++ [c]) := by
  intro pre post heq
  rcases eq_nil_or_concat post with rfl | ⟨post', b, rfl⟩
  · obtain ⟨-, hchar⟩ := append_inj' heq rfl
    exact .inr ⟨rfl, hlt (List.cons.inj hchar).1⟩
  rw [concat_eq_append, ← cons_append, ← append_assoc] at heq
  obtain ⟨ht, hchar⟩ := append_inj' heq rfl
  obtain rfl := (List.cons.inj hchar).1
  rw [concat_eq_append]
  rcases h pre post' ht with hpost | ⟨rfl, hpending⟩
  · exact .inl (hok post' hpost)
  · exact .inl (hc hpending)

variable {post : Bytes}

theorem SpaceFirst.append (h : SpaceFirst post) (t : Bytes) : SpaceFirst (post ++ t) := by
  obtain ⟨c, hc, hspace⟩ := h
  obtain ⟨post', rfl⟩ := head?_eq_some_iff.mp hc
  exact ⟨c, rfl, hspace⟩

theorem SpaceFirst.word (h : SpaceFirst post) : word post = [] := by
  obtain ⟨c, hc, hspace⟩ := h
  obtain ⟨post', rfl⟩ := head?_eq_some_iff.mp hc
  rw [StripTags.word, takeWhile_cons, if_neg (by simp [hspace])]

theorem spaceFirst_singleton (h : isspace c = true) : SpaceFirst [c] := ⟨c, rfl, h⟩

/-- White space follows, or it is the beginning of a tag that is found. -/
def Explained (set : Bytes) (tags : List Bytes) (post : Bytes) : Prop :=
  SpaceFirst post ∨ ∃ tag ∈ tags, tagFind tag set = true ∧ ∃ rest, lt :: post = tag ++ rest

theorem Explained.append (h : Explained set tags post) (t : Bytes) : Explained set tags (post ++ t) := by
  rcases h with hspace | ⟨tag, htag, hfind, rest, heq⟩
  · exact .inl (hspace.append t)
  · refine .inr ⟨tag, htag, hfind, rest ++ t, ?_⟩
    rw [← cons_append, heq, append_assoc]

theorem Explained.mono {tags' : List Bytes} (h : Explained set tags post) (hsub : tags ⊆ tags') :
    Explained set tags' post :=
  h.imp id fun ⟨tag, htag, hfind⟩ => ⟨tag, hsub htag, hfind⟩

/-- What is between the brackets of a tag: no `>`, and no `<` unless white space follows. -/
structure IsBody (pending : Prop) (body : Bytes) : Prop where
  gt_notMem : gt ∉ body
  /-- White space behind every `<`. -/
  marks : MarksOk SpaceFirst pending body

/-- A tag is appended. -/
theorem MarksOk.append_tag {out body : Bytes} (hout : MarksOk (Explained set tags) False out)
    (hbody : IsBody False body) (hfind : tagFind (lt :: body ++ [gt]) set = true) :
    MarksOk (Explained set (tags ++ [lt :: body ++ [gt]])) False (out ++ (lt :: body ++ [gt])) := by
  have hself : lt :: body ++ [gt] ∈ tags ++ [lt :: body ++ [gt]] :=
    mem_append_right _ mem_cons_self
  intro pre post heq
  refine .inl ?_
  rcases append_eq_append_iff.mp heq with ⟨pre', rfl, htag⟩ | ⟨post', hpre, hpost⟩
  · -- it is in the tag
    cases pre' with
    | nil => exact .inr ⟨_, hself, hfind, [], by rw [append_nil, htag]; rfl⟩
    | cons c pre'' =>
      have htail : body ++ [gt] = pre'' ++ lt :: post := (List.cons.inj htag).2
      rcases eq_nil_or_concat post with rfl | ⟨post', b, rfl⟩
      · exact absurd (List.cons.inj (append_inj' htail rfl).2).1 (by decide)
      rw [concat_eq_append, ← cons_append, ← append_assoc] at htail
      rw [concat_eq_append]
      rcases hbody.marks pre'' post' (append_inj' htail rfl).1 with hspace | ⟨-, hfalse⟩
      · exact .inl (hspace.append _)
      · exact hfalse.elim
  · -- it is before the tag
    cases post' with
    | nil =>
      rw [nil_append] at hpost
      cases hpost
      exact .inr ⟨_, hself, hfind, [], (append_nil _).symm⟩
    | cons c post'' =>
      cases hpost
      rcases hout pre post'' hpre with hexplained | ⟨-, hfalse⟩
      · exact (hexplained.append _).mono (subset_append_left _ _)
      · exact hfalse.elim

/-! ### What the scanner keeps -/

/-- The scanner before the character `next`, when some tags were read. -/
structure Inv (set : Bytes) (tags : List Bytes) (next : UInt8) (s : Scanner) : Prop where
  /-- Every `<` in the result is explained. -/
  out : MarksOk (Explained set tags) (isspace next = true ∧ s.state = .text) s.out
  /-- Outside of tags the buffer is empty. -/
  text : s.state = .text → s.tbuf = []
  /-- Inside of tags, the buffer has a tag without its end. -/
  tag : s.state ≠ .text → ∃ body, s.tbuf = lt :: body ∧ IsBody (isspace next = true ∧ s.state = .tag) body
  mem_out : ∀ tag ∈ tags, tagFind tag set = true → tag <:+: s.out
  read : ∀ tag ∈ tags, ∃ body, tag = lt :: body ++ [gt]

theorem inv_init (set : Bytes) (next : UInt8) : Inv set [] next (init .text) :=
  ⟨marksOk_nil _ _, fun _ => rfl, fun h => absurd rfl h, forall_mem_nil _, forall_mem_nil _⟩

/-- **One character keeps it so.** -/
theorem Inv.effect {new : List Bytes} (h : Inv set tags c s) (heffect : Effect set c next s s' new) :
    Inv set (tags ++ new) next s' := by
  cases heffect with
  | skip hspace hout htbuf hstate =>
    have hno : ∀ {p : Prop}, isspace c = true ∧ p → False := fun hp => by
      rw [hspace] at hp
      exact Bool.false_ne_true hp.1
    rw [append_nil]
    refine ⟨?_, ?_, ?_, ?_, h.read⟩
    · rw [hout]
      exact h.out.mono fun hp => (hno hp).elim
    · intro hs'
      rw [htbuf]
      exact h.text (hstate.mp hs')
    · intro hs'
      obtain ⟨body, hbody, hgt, hmarks⟩ := h.tag fun hs => hs' (hstate.mpr hs)
      exact ⟨body, htbuf.trans hbody, hgt, hmarks.mono fun hp => (hno hp).elim⟩
    · rw [hout]
      exact h.mem_out
  | copy hlt hgt hstate hout htbuf =>
    rw [append_nil]
    refine ⟨?_, ?_, ?_, ?_, h.read⟩
    · rw [hout, hstate]
      split_ifs with htext
      · exact h.out.append_char (fun post hpost => hpost.append _)
          (fun hp => .inl (spaceFirst_singleton hp.1)) fun hc => ⟨hlt hc, htext⟩
      · exact h.out.mono fun hp => absurd hp.2 htext
    · intro hs'
      have htext := hstate.symm.trans hs'
      rw [htbuf, htext, if_neg nofun]
      exact h.text htext
    · intro hs'
      rw [hstate] at hs' ⊢
      obtain ⟨body, hbody, hnot, hmarks⟩ := h.tag hs'
      rw [htbuf]
      split_ifs with htag
      · refine ⟨body ++ [c], by rw [hbody]; rfl, ?_, ?_⟩
        · rw [mem_append, mem_singleton]
          rintro (hmem | rfl)
          · exact hnot hmem
          · exact hs' (hgt rfl)
        · exact hmarks.append_char (fun post hpost => hpost.append _) (fun hp => spaceFirst_singleton hp.1)
            fun hc => ⟨hlt hc, htag⟩
      · exact ⟨body, hbody, hnot, hmarks.mono fun hp => absurd hp.2 htag⟩
    · intro tag htag hfind
      rw [hout]
      split_ifs
      · exact (h.mem_out tag htag hfind).trans (infix_append [] _ _)
      · exact h.mem_out tag htag hfind
  | enter hc hstate hstate' hout htbuf =>
    subst hc
    rw [append_nil]
    refine ⟨?_, ?_, ?_, ?_, h.read⟩
    · rw [hout]
      exact h.out.mono fun hp => absurd hp.1 (by decide)
    · intro hs'
      exact State.noConfusion (hstate'.symm.trans hs')
    · intro _
      refine ⟨[], by rw [htbuf, h.text hstate]; rfl, not_mem_nil, marksOk_nil _ _⟩
    · rw [hout]
      exact h.mem_out
  | close hc hstate hstate' hout htbuf =>
    subst hc
    have hout' : MarksOk (Explained set tags) False s.out := h.out.mono fun hp => absurd hp.1 (by decide)
    obtain ⟨body, hbody, hgt, hmarks⟩ := h.tag (by rw [hstate]; exact nofun)
    have hbody' : IsBody False body := ⟨hgt, hmarks.mono fun hp => absurd hp.1 (by decide)⟩
    rw [hbody] at hout ⊢
    have hread : ∀ tag ∈ tags ++ [lt :: body ++ [gt]], ∃ body, tag = lt :: body ++ [gt] :=
      forall_mem_append.mpr ⟨h.read, forall_mem_singleton.mpr ⟨body, rfl⟩⟩
    by_cases hfind : tagFind (lt :: body ++ [gt]) set = true
    · rw [if_pos hfind] at hout
      refine ⟨?_, fun _ => htbuf, fun hs' => absurd hstate' hs', ?_, hread⟩
      · rw [hout]
        exact (hout'.append_tag hbody' hfind).mono False.elim
      · rw [hout, forall_mem_append, forall_mem_singleton]
        exact ⟨fun tag htag hfind => (h.mem_out tag htag hfind).trans (infix_append [] _ _),
          fun _ => (suffix_append _ _).isInfix⟩
    · rw [if_neg hfind] at hout
      refine ⟨?_, fun _ => htbuf, fun hs' => absurd hstate' hs', ?_, hread⟩
      · rw [hout]
        intro pre post heq
        exact (hout' pre post heq).imp (·.mono (subset_append_left _ _)) fun hlast => hlast.2.elim
      · rw [hout, forall_mem_append, forall_mem_singleton]
        exact ⟨h.mem_out, fun hfind' => absurd hfind' hfind⟩
  | leave hspace hstate hstate' hout htbuf =>
    rw [append_nil]
    refine ⟨?_, fun _ => htbuf, fun hs' => absurd hstate' hs', ?_, h.read⟩
    · rw [hout]
      exact h.out.mono fun hp => absurd hp.2 hstate
    · rw [hout]
      exact h.mem_out

/-- By induction over the text. -/
theorem Inv.scan {rest : Bytes} (h : Inv set tags (rest.headD 0) s) :
    Inv set (tags ++ tagsRead set before rest s) 0 (scan (allowing set) before rest s) := by
  induction rest generalizing before s tags with
  | nil =>
    rw [tagsRead, append_nil]
    exact h
  | cons c rest ih =>
    rw [tagsRead, Scanner.scan, ← append_assoc]
    exact ih (h.effect (effect_step set before c (rest.headD 0) s))

/-! ### Which tags are found -/

variable (c : UInt8)

/-- `isalnum`. -/
def isalnum : Bool := isalpha c || isDecimal c

theorem tolower_spec : (tolower c = lt ↔ c = lt) ∧ (tolower c = gt ↔ c = gt) ∧
    (tolower c = slash ↔ c = slash) ∧ isspace (tolower c) = isspace c := by
  revert c
  exact forall_uint8 (by decide +kernel)

theorem tolower_of_isalnum : isalnum c = true → tolower c ≠ lt ∧ tolower c ≠ gt := by
  revert c
  exact forall_uint8 (by decide +kernel)

theorem gt_notMem_normalize (seen : Bool) (t : Bytes) : gt ∉ normalize seen t := by
  induction t generalizing seen with
  | nil => exact not_mem_nil
  | cons c t ih =>
    rw [normalize]
    split_ifs with hlt hgt
    · exact not_mem_cons_of_ne_of_not_mem (by decide) (ih seen)
    · exact not_mem_nil
    · exact not_mem_nil
    · exact ih seen
    · exact ih true
    · exact not_mem_cons_of_ne_of_not_mem (Ne.symm hgt) (ih true)

/-- Behind the first character of a name, `php_tag_find` takes what is before white space, without every `/`. -/
theorem normalize_true (t : Bytes) : normalize true t = ((word t).filter (· ≠ slash)).map tolower := by
  induction t with
  | nil => rfl
  | cons c t ih =>
    obtain ⟨hlt, hgt, hslash, hspace⟩ := tolower_spec c
    rw [normalize, hspace, word, takeWhile_cons]
    simp only [hlt, hgt, hslash]
    by_cases hclt : c = lt
    · subst hclt
      rw [if_pos rfl, ih]
      rfl
    rw [if_neg hclt]
    by_cases hcgt : c = gt
    · subst hcgt
      rfl
    rw [if_neg hcgt]
    by_cases hcspace : isspace c = true
    · simp [hcspace]
    rw [if_neg hcspace]
    by_cases hcslash : c = slash
    · subst hcslash
      rw [if_pos rfl, ih]
      rfl
    · simp [hcspace, hcgt, hcslash, ih, word]

theorem normalize_false (hspace : ¬SpaceFirst post) :
    normalize false post = normalize true post ∨ (lt ∈ normalize false post ∧ lt ∈ normalize true post) := by
  cases post with
  | nil => exact .inl rfl
  | cons c t =>
    have hc : ¬isspace (tolower c) = true := by
      rw [(tolower_spec c).2.2.2]
      exact fun h => hspace ⟨c, rfl, h⟩
    rw [normalize, normalize]
    by_cases hclt : tolower c = lt
    · rw [if_pos hclt, if_pos hclt]
      exact .inr ⟨mem_cons_self, mem_cons_self⟩
    · rw [if_neg hclt, if_neg hclt, if_neg hc, if_neg hc]
      exact .inl rfl

theorem infix_allowList {names : List Bytes} {name : Bytes} (h : name ∈ names) :
    lt :: name ++ [gt] <:+: allowList names := by
  obtain ⟨pre, post, rfl⟩ := append_of_mem h
  rw [allowList, flatMap_append, flatMap_cons, ← append_assoc]
  exact infix_append _ _ _

/-- An entry in the list is a name of the list. -/
theorem mem_of_infix_allowList {names : List Bytes} (h : ∀ n ∈ names, lt ∉ n ∧ gt ∉ n) {name : Bytes}
    (hgt : gt ∉ name) (hin : lt :: name ++ [gt] <:+: allowList names) : name ∈ names := by
  induction names with
  | nil =>
    obtain ⟨pre, post, heq⟩ := hin
    exact absurd (append_eq_nil_iff.mp (append_eq_nil_iff.mp heq).1).2 (cons_ne_nil _ _)
  | cons n names ih =>
    rw [forall_mem_cons] at h
    obtain ⟨pre, post, heq⟩ := hin
    have heq' : pre ++ lt :: (name ++ gt :: post) = lt :: (n ++ gt :: allowList names) := by
      rw [allowList, flatMap_cons] at heq
      simpa [allowList] using heq
    cases pre with
    | nil =>
      have htail := (List.cons.inj heq').2
      rw [first_separator_unique hgt h.1.2 htail]
      exact mem_cons_self
    | cons c pre =>
      -- the entry begins behind the first one
      have htail : pre ++ lt :: (name ++ gt :: post) = n ++ gt :: allowList names := (List.cons.inj heq').2
      refine mem_cons_of_mem _ (ih h.2 ?_)
      rcases append_eq_append_iff.mp htail with ⟨d, hn, hd⟩ | ⟨d, rfl, hd⟩
      · cases d with
        | nil => exact absurd (List.cons.inj hd).1 (by decide)
        | cons e d =>
          obtain ⟨rfl, -⟩ := List.cons.inj hd
          refine absurd ?_ h.1.1
          rw [hn]
          exact mem_append_right _ mem_cons_self
      · cases d with
        | nil => exact absurd (List.cons.inj hd).1 (by decide)
        | cons e d =>
          obtain ⟨-, hrest⟩ := List.cons.inj hd
          refine ⟨d, post, ?_⟩
          rw [hrest]
          simp

theorem map_tolower_allowList (names : List Bytes) :
    (allowList names).map tolower = allowList (names.map (·.map tolower)) := by
  rw [allowList, allowList, map_flatMap, flatMap_map]
  refine flatMap_congr fun n _ => ?_
  rw [map_append]
  rfl

/-- **A tag is found if and only if its first word is listed**, without every `/`. -/
theorem tagFind_iff {names : List Bytes} (hnames : ∀ n ∈ names, ∀ c ∈ n, isalnum c = true) (hspace : ¬SpaceFirst post) :
    tagFind (lt :: post) ((allowList names).map tolower) = true ↔ Listed names ((word post).filter (· ≠ slash)) := by
  have hlower : ∀ n ∈ names.map (·.map tolower), lt ∉ n ∧ gt ∉ n := by
    intro n hn
    obtain ⟨n, hmem, rfl⟩ := mem_map.mp hn
    have hne := fun c hc => tolower_of_isalnum c (hnames n hmem c hc)
    exact ⟨by simpa using fun c hc => (hne c hc).1, by simpa using fun c hc => (hne c hc).2⟩
  have hlisted : Listed names ((word post).filter (· ≠ slash)) ↔ normalize true post ∈ names.map (·.map tolower) := by
    rw [normalize_true, mem_map]
    exact Iff.rfl
  have hfound : tagFind (lt :: post) ((allowList names).map tolower) = true ↔
      lt :: normalize false post ++ [gt] <:+: allowList (names.map (·.map tolower)) := by
    rw [tagFind, decide_eq_true_iff, and_iff_right (cons_ne_nil _ _), ne_eq, strstr_eq_none_iff, not_not,
      map_tolower_allowList]
    rfl
  rw [hfound, hlisted]
  rcases normalize_false hspace with heq | ⟨hfalse, htrue⟩
  · rw [heq]
    exact ⟨mem_of_infix_allowList hlower (gt_notMem_normalize true post), infix_allowList⟩
  · -- no entry has a `<`
    refine iff_of_false (fun hin => ?_) fun hmem => (hlower _ hmem).1 htrue
    exact (hlower _ (mem_of_infix_allowList hlower (gt_notMem_normalize false post) hin)).1 hfalse

/-! ### The result -/

theorem tagName_append (h : gt ∈ t) (rest : Bytes) : tagName (t ++ rest) = tagName t := by
  have hstop : ∀ u : Bytes, gt ∈ u → (u ++ rest).takeWhile (fun c => decide (¬isspace c ∧ c ≠ slash ∧ c ≠ gt)) =
      u.takeWhile fun c => decide (¬isspace c ∧ c ≠ slash ∧ c ≠ gt) := by
    intro u hu
    induction u with
    | nil => exact absurd hu not_mem_nil
    | cons c u ih =>
      rw [cons_append, takeWhile_cons, takeWhile_cons]
      split_ifs with hc
      · have hne : c ≠ gt := (of_decide_eq_true hc).2.2
        rw [ih ((mem_cons.mp hu).resolve_left hne.symm)]
      · rfl
  cases t with
  | nil => exact absurd h not_mem_nil
  | cons c t =>
    rw [tagName, tagName, cons_append, dropSlash, dropSlash]
    split_ifs with hslash
    · refine hstop t ((mem_cons.mp h).resolve_left ?_)
      rw [hslash]
      decide
    · exact hstop (c :: t) h

theorem spaceFirst_append_iff (h : t ≠ []) (rest : Bytes) : SpaceFirst (t ++ rest) ↔ SpaceFirst t := by
  cases t with
  | nil => exact absurd rfl h
  | cons c t => exact Iff.rfl

theorem dropSlash_word (post : Bytes) : dropSlash (word post) = word (dropSlash post) := by
  cases post with
  | nil => rfl
  | cons c t =>
    rw [dropSlash]
    split_ifs with hslash
    · subst hslash
      rfl
    · rw [word, takeWhile_cons]
      split_ifs
      · rw [dropSlash, if_neg hslash]
      · rfl

/-- The name ends at the first `/` inside the word. -/
theorem tagName_eq (post : Bytes) : tagName post = (dropSlash (word post)).takeWhile (· ≠ slash) := by
  rw [dropSlash_word, word, takeWhile_takeWhile, tagName]
  congr 1
  funext c
  rw [decide_eq_decide]
  simp only [ne_eq, decide_eq_true_eq]
  tauto

theorem filter_dropSlash (t : Bytes) : (dropSlash t).filter (· ≠ slash) = t.filter (· ≠ slash) := by
  cases t with
  | nil => rfl
  | cons c t =>
    rw [dropSlash]
    split_ifs with hslash
    · rw [filter_cons_of_neg (by simp [hslash])]
    · rfl

/-- **Every tag in the result has a listed name if and only if the text has no tag with a `/` inside its first word**,
such that the word without each `/` is listed and what is before the `/` is not. -/
theorem stripTagsEx_iff {names : List Bytes} (hnames : ∀ n ∈ names, ∀ c ∈ n, isalnum c = true) (text : Bytes) :
    OnlyAllowed names (stripTagsEx text .text (some (allowList names)) false).1 ↔
      ∀ tag ∈ tagsOf text, SlashOk names tag.tail := by
  have hinv : Inv ((allowList names).map tolower) (tagsOf text) 0
      (scan (allowing ((allowList names).map tolower)) [] text (init .text)) := by
    rw [tagsOf, ← tagsRead_eq ((allowList names).map tolower) [] [] text (init .text) []]
    exact (inv_init _ _).scan
  change OnlyAllowed names (scan (allowing ((allowList names).map tolower)) [] text
    (init .text)).out ↔ _
  generalize scan (allowing ((allowList names).map tolower)) [] text (init .text) = s at hinv
  constructor
  · intro hallowed tag htag hslash hlisted
    obtain ⟨body, rfl⟩ := hinv.read tag htag
    change slash ∈ dropSlash (word (body ++ [gt])) at hslash
    change Listed names ((dropSlash (word (body ++ [gt]))).filter (· ≠ slash)) at hlisted
    have hspace : ¬SpaceFirst (body ++ [gt]) := by
      rintro hspace
      rw [hspace.word] at hslash
      exact not_mem_nil hslash
    -- the tag is found, so that it is in the result
    rw [filter_dropSlash] at hlisted
    obtain ⟨pre, rest, heq⟩ := hinv.mem_out _ htag ((tagFind_iff hnames hspace).mpr hlisted)
    have hname := hallowed pre (body ++ [gt] ++ rest) (by rw [← heq]; simp)
      (by rw [spaceFirst_append_iff (by simp)]; exact hspace)
    rw [tagName_append (mem_append_right _ mem_cons_self), tagName_eq] at hname
    exact hname
  · intro hok pre post heq hspace
    rcases hinv.out pre post heq with (hspace' | ⟨tag, htag, hfind, rest, hpost⟩) | ⟨-, hpending⟩
    · exact absurd hspace' hspace
    · obtain ⟨body, rfl⟩ := hinv.read tag htag
      obtain rfl : post = body ++ [gt] ++ rest := (List.cons.inj hpost).2
      rw [spaceFirst_append_iff (by simp)] at hspace
      rw [tagName_append (mem_append_right _ mem_cons_self), tagName_eq]
      have hlisted := (tagFind_iff hnames hspace).mp hfind
      rw [← filter_dropSlash] at hlisted
      by_cases hslash : slash ∈ dropSlash (word (body ++ [gt]))
      · exact hok _ htag hslash hlisted
      · have hall : ∀ c ∈ dropSlash (word (body ++ [gt])), decide (c ≠ slash) = true :=
          fun c hc => decide_eq_true fun heq => hslash (heq ▸ hc)
        rw [takeWhile_eq_self_iff.mpr hall]
        rwa [filter_eq_self.mpr hall] at hlisted
    · exact absurd hpending.1 (by decide)

/-- A `/` in an attribute, before a name, behind a name that is listed, and in a name that is not listed. -/
theorem stripTagsEx_slashes :
    let text := ascii "<b title='a/r'>x</B><br/><i/r><>"
    let result := stripTagsEx text .text (some (allowList [ascii "b", ascii "br"])) false
    result.1 = ascii "<b title='a/r'>x</B><br/>" ∧ OnlyAllowed [ascii "b", ascii "br"] result.1 := by
  exact ⟨by decide +kernel, (stripTagsEx_iff (by decide) _).mpr (by decide +kernel)⟩

/-- `<b/r>` is kept when `<br>` is allowed. -/
theorem not_onlyAllowed_slash :
    (stripTagsEx (ascii "<b/r>") .text (some (allowList [ascii "br"])) false).1 = ascii "<b/r>" ∧
      ¬OnlyAllowed [ascii "br"] (stripTagsEx (ascii "<b/r>") .text (some (allowList [ascii "br"])) false).1 := by
  have hresult : (stripTagsEx (ascii "<b/r>") .text (some (allowList [ascii "br"])) false).1 = ascii "<b/r>" := by
    decide
  refine ⟨hresult, ?_⟩
  rw [hresult]
  intro hallowed
  have hspace : ¬SpaceFirst (ascii "b/r>") := by
    rintro ⟨c, hc, hspace⟩
    cases hc
    exact absurd hspace (by decide)
  obtain ⟨n, hn, heq⟩ := hallowed [] (ascii "b/r>") (by decide) hspace
  obtain rfl := mem_singleton.mp hn
  exact absurd heq (by decide)

/-! ### Stripping twice -/

/-- Nothing in it is stripped: no NUL, and white space behind every `<`. -/
def Plain : Bytes → Prop
  | [] => True
  | c :: t => c ≠ 0 ∧ (c = lt → isspace (t.headD 0) = true) ∧ Plain t

theorem Plain.spaceFirst {r : Bytes} (h : Plain r) : ∀ pre post, r = pre ++ lt :: post → SpaceFirst post := by
  intro pre
  induction pre generalizing r with
  | nil =>
    rintro post rfl
    have hspace := h.2.1 rfl
    cases post with
    | nil => exact absurd hspace (by decide)
    | cons d post => exact ⟨d, rfl, hspace⟩
  | cons c pre ih =>
    rintro post rfl
    exact ih h.2.2 post rfl

theorem Plain.zero_notMem {r : Bytes} (h : Plain r) : 0 ∉ r := by
  induction r with
  | nil => exact not_mem_nil
  | cons c r ih => exact not_mem_cons_of_ne_of_not_mem h.1.symm (ih h.2.2)

namespace Scanner

/-- The options of `strip_tags` without a list. -/
def bare : Options := ⟨none, false⟩

/-- Outside of tags no quote and no bracket is open. -/
def Clean (s : Scanner) : Prop := s.state = .text → s.inQ = 0 ∧ s.depth = 0

variable {before : Bytes} {c next : UInt8} {s : Scanner}

/-- Outside of tags a character is copied, unless it is a NUL or begins a tag. -/
theorem step_text (hs : s.Clean) (ht : s.state = .text) : s.step bare before c next =
    if c = 0 then s else if c = lt ∧ ¬isspace next then { s with lc := lt, state := .tag }
    else { s with out := s.out ++ [c] } := by
  obtain ⟨hq, hd⟩ := hs ht
  rw [step]
  split_ifs <;> simp_all [less, bracket, greater, quoted, quoteChar, bang, dash, other, regChar, bare]

/-- Inside of tags nothing is copied. -/
theorem step_not_text (before : Bytes) (c next : UInt8) (ht : s.state ≠ .text) :
    (s.step bare before c next).out = s.out ∧ (s.step bare before c next).Clean := by
  have hreg : ∀ c, s.regChar bare c = s := fun c => by
    rw [regChar]
    split <;> simp_all [bare]
  have hkeep : s.out = s.out ∧ s.Clean := ⟨rfl, fun h => absurd h ht⟩
  rw [step]
  split_ifs
  · exact hkeep
  · rw [less, hreg]
    cases h : s.state <;> simp only <;> split_ifs <;> simp_all [Clean]
  · rw [bracket, hreg]
    split_ifs <;> simp_all [Clean]
  · rw [bracket, hreg]
    split_ifs <;> simp_all [Clean]
  · rw [greater]
    cases h : s.state <;> simp only <;> split_ifs <;> simp_all [Clean, leave, closeTag, bare]
  · have hquote : (s.quoteChar bare before c).out = s.out ∧ (s.quoteChar bare before c).state = s.state := by
      rw [quoteChar, hreg]
      split_ifs <;> exact ⟨rfl, rfl⟩
    rw [quoted]
    dsimp only
    generalize s.quoteChar bare before c = s₁ at hquote
    split_ifs
    · exact hkeep
    · exact ⟨hquote.1, fun h => absurd (hquote.2.symm.trans h) ht⟩
    · exact ⟨hquote.1, fun h => absurd (hquote.2.symm.trans h) ht⟩
    · exact ⟨hquote.1, fun h => absurd (hquote.2.symm.trans h) ht⟩
  · rw [bang, hreg]
    split_ifs <;> simp_all [Clean]
  · rw [dash, hreg]
    split_ifs <;> simp_all [Clean]
  · rw [other, hreg]
    split_ifs <;> simp_all [Clean]

/-- What is copied is plain; white space outside of tags is copied. -/
theorem scan_plain (before rest : Bytes) (hs : s.Clean) : ∃ r, (scan bare before rest s).out = s.out ++ r ∧ Plain r ∧
    (s.state = .text → isspace (rest.headD 0) → r.headD 0 = rest.headD 0) := by
  induction rest generalizing before s with
  | nil => exact ⟨[], by simp [scan], trivial, fun _ _ => rfl⟩
  | cons c rest ih =>
    rw [scan]
    by_cases ht : s.state = .text
    · rw [step_text hs ht]
      split_ifs with hnul hlt
      · obtain ⟨r, hout, hr, -⟩ := ih (c :: before) hs
        exact ⟨r, hout, hr, fun _ hspace => absurd (show isspace 0 = true from hnul ▸ hspace) (by decide)⟩
      · obtain ⟨r, hout, hr, -⟩ :=
          ih (s := { s with lc := lt, state := .tag }) (c :: before) fun h => State.noConfusion h
        exact ⟨r, hout, hr, fun _ hspace => absurd (show isspace lt = true from hlt.1 ▸ hspace) (by decide)⟩
      · obtain ⟨r, hout, hr, hhead⟩ := ih (s := { s with out := s.out ++ [c] }) (c :: before) hs
        refine ⟨c :: r, by rw [hout, append_assoc]; rfl, ⟨hnul, fun hc => ?_, hr⟩, fun _ _ => rfl⟩
        have hspace : isspace (rest.headD 0) = true := by simpa [hc] using hlt
        rw [hhead ht hspace, hspace]
    · obtain ⟨hout, hclean⟩ := step_not_text before c (rest.headD 0) ht
      obtain ⟨r, hr, hplain, -⟩ := ih (c :: before) hclean
      exact ⟨r, by rw [hr, hout], hplain, fun h => absurd h ht⟩

/-- A plain text is copied. -/
theorem scan_of_plain {r : Bytes} (hr : Plain r) (hs : s.Clean) (ht : s.state = .text) :
    (scan bare before r s).out = s.out ++ r := by
  induction r generalizing before s with
  | nil => simp [scan]
  | cons c r ih =>
    rw [scan, step_text hs ht, if_neg hr.1, if_neg fun h => h.2 (hr.2.1 h.1),
      ih (s := { s with out := s.out ++ [c] }) hr.2.2 hs ht, append_assoc]
    rfl

end Scanner

/-- **Without a list, stripping twice is stripping once**: the result is free of NULs, and white space is behind every
`<`. -/
theorem stripTagsEx_idempotent (text : Bytes) :
    (∀ pre post, (stripTagsEx text .text none false).1 = pre ++ lt :: post → SpaceFirst post) ∧
      0 ∉ (stripTagsEx text .text none false).1 ∧
      (stripTagsEx (stripTagsEx text .text none false).1 .text none false).1 =
        (stripTagsEx text .text none false).1 := by
  have hclean : (init .text).Clean := fun _ => ⟨rfl, rfl⟩
  obtain ⟨r, hout, hr, -⟩ := scan_plain [] text hclean
  have hresult : (stripTagsEx text .text none false).1 = r := hout
  rw [hresult]
  exact ⟨hr.spaceFirst, hr.zero_notMem, scan_of_plain hr hclean rfl⟩

end PhpSandbox.Standard.StripTags
