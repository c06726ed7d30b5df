import Mathlib.Data.List.TakeWhile
import PhpSandbox.Lib.CString

/-!
# Multipart bodies

This module models the part of `main/rfc1867.c` that cuts the parts out of a `multipart/form-data` request:
`fill_buffer`, `next_line`, `get_line`, `find_boundary`, `php_ap_memstr`, `multipart_buffer_read` and the loop of
`multipart_buffer_read_body`.

## The model

A `MultipartBuffer` is what changes while a request is read: the `bytes_in_buffer` bytes that `buf_begin` points to,
and what `read_post` has still to deliver. The request arrives in pieces of at least one byte, and a call of
`read_post` returns at most the rest of one piece; it returns nothing only when the request has ended. The fields
`multipart_buffer_new` sets and nothing changes are functions of the boundary: `bufsize`, `boundaryLine` (the field
`boundary`) and `boundaryNext`. The NUL bytes `next_line` writes fall on bytes that are already consumed.

Left out: the detection of the input encoding, and the counter `SG(read_post_bytes)`.

## What is proved

A search of the buffer takes the last bytes of it for the start of a delimiter when they agree with it as far as they
go. That is right as long as the buffer has been filled before the search whenever it could be filled. It is filled
when it holds fewer bytes than the caller asks for, which is `FILLUNIT`; but a boundary of more than `FILLUNIT - 6`
bytes makes it larger than that. `extracts_iff` says for which boundaries every body is extracted exactly.
-/

namespace PhpSandbox.Post

open Lib List Option

/-- The byte CR. -/
def cr : UInt8 := 13

/-- The byte LF. -/
def lf : UInt8 := 10

/-- `FILLUNIT`. -/
def fillUnit : ℕ := 1024 * 5

/-! ### The request -/

/-- What `read_post` has still to deliver: pieces of at least one byte. -/
abbrev Request := List (UInt8 × Bytes)

/-- The bytes of the request. -/
def Request.bytes (post : Request) : Bytes := post.flatMap fun piece => piece.1 :: piece.2

/-- Puts the rest of a piece back. -/
def Request.unread : Bytes → Request → Request
  | [], post => post
  | b :: bs, post => (b, bs) :: post

/-- `sapi_module.read_post(buf, n)`: at most `n` bytes of the next piece. -/
def readPost (n : ℕ) : Request → Bytes × Request
  | [] => ([], [])
  | (b, bs) :: post => ((b :: bs).take n, Request.unread ((b :: bs).drop n) post)

theorem Request.bytes_unread (bs : Bytes) (post : Request) :
    Request.bytes (Request.unread bs post) = bs ++ Request.bytes post := by
  cases bs with
  | nil | cons b bs => rfl

variable (n : ℕ)

theorem readPost_append (post : Request) :
    (readPost n post).1 ++ Request.bytes (readPost n post).2 = Request.bytes post := by
  cases post with
  | nil => rfl
  | cons piece post =>
    obtain ⟨b, bs⟩ := piece
    show (b :: bs).take n ++ Request.bytes (Request.unread ((b :: bs).drop n) post) = b :: bs ++ Request.bytes post
    rw [Request.bytes_unread, ← append_assoc, take_append_drop]

theorem length_readPost_le (post : Request) : (readPost n post).1.length ≤ n := by
  cases post with
  | nil => exact Nat.zero_le n
  | cons piece post => exact length_take_le _ _

theorem eq_nil_of_readPost {n : ℕ} {post : Request} (hn : 0 < n) (h : (readPost n post).1 = []) : post = [] := by
  cases post with
  | nil => rfl
  | cons piece post =>
    obtain ⟨n, rfl⟩ := Nat.exists_eq_add_of_lt hn
    simp [readPost] at h

/-! ### The buffer -/

/-- The buffer and the request behind it. -/
structure MultipartBuffer where
  /-- The `bytes_in_buffer` bytes from `buf_begin` on. -/
  buffered : Bytes
  /-- What has not been read into the buffer. -/
  post : Request

open MultipartBuffer

/-- What has not been consumed yet. -/
def MultipartBuffer.stream (self : MultipartBuffer) : Bytes := self.buffered ++ Request.bytes self.post

variable (boundary : Bytes)

/-- The field `bufsize`. -/
def bufsize : ℕ := if boundary.length + 6 < fillUnit then fillUnit else boundary.length + 6

/-- The field `boundary`: the line that ends a part. -/
def boundaryLine : Bytes := ascii "--" ++ boundary

/-- The field `boundary_next`. -/
def boundaryNext : Bytes := lf :: boundaryLine boundary

/-- The loop of `fill_buffer`, with `bytes_to_read` bytes of room left. -/
def fillLoop (bytesToRead : ℕ) (buf : Bytes) (post : Request) : Bytes × Request :=
  if _h : 0 < bytesToRead ∧ (readPost bytesToRead post).1 ≠ [] then
    fillLoop (bytesToRead - (readPost bytesToRead post).1.length) (buf ++ (readPost bytesToRead post).1)
      (readPost bytesToRead post).2
  else (buf, post)
termination_by bytesToRead
decreasing_by
  have := length_pos_iff.mpr _h.2
  omega

variable (self : MultipartBuffer)

/-- `fill_buffer(self)`. -/
def fillBuffer : MultipartBuffer :=
  let filled := fillLoop (bufsize boundary - self.buffered.length) self.buffered self.post
  { buffered := filled.1, post := filled.2 }

/-- The part of a line before the CR that may end it. -/
def stripCr (line : Bytes) : Bytes := if line.getLast? = some cr then line.dropLast else line

/-- `next_line(self)`. -/
def nextLine : Option Bytes × MultipartBuffer :=
  if lf ∈ self.buffered then
    (some (stripCr (self.buffered.takeWhile (· ≠ lf))),
      { self with buffered := (self.buffered.dropWhile (· ≠ lf)).drop 1 })
  else if self.buffered.length < bufsize boundary then (none, self)
  -- the buffer is full: all of it is returned as a partial line
  else (some self.buffered, { self with buffered := [] })

/-- `get_line(self)`. -/
def getLine : Option Bytes × MultipartBuffer :=
  match nextLine boundary self with
  | (some line, self') => (some line, self')
  | (none, self') => nextLine boundary (fillBuffer boundary self')

/-- `strcmp(line, boundary) == 0`, where the line may hold NUL bytes. -/
def strEq (line boundary : Bytes) : Bool := line.takeWhile (· ≠ 0) == boundary

/-- `find_boundary(self, self->boundary)` in at most the given number of turns. -/
def findBoundary (boundary : Bytes) : ℕ → MultipartBuffer → Option (Bool × MultipartBuffer)
  | 0, _ => none
  | turns + 1, self =>
    match getLine boundary self with
    | (none, self') => some (false, self')
    | (some line, self') =>
      if strEq line (boundaryLine boundary) then some (true, self') else findBoundary boundary turns self'

/-- The test of `php_ap_memstr` at one place: the needle agrees with what follows as far as that goes. -/
def memFits (needle : Bytes) (partially : Bool) (hay : Bytes) : Bool :=
  needle.take (min needle.length hay.length) == hay.take (min needle.length hay.length) &&
    (partially || needle.length ≤ hay.length)

/-- `php_ap_memstr(haystack, needle, partial)`: the index of the first match. -/
def phpApMemstr (needle : Bytes) (partially : Bool) : Bytes → Option ℕ
  | [] => none
  | c :: cs =>
    if needle.head? = some c ∧ memFits needle partially (c :: cs) then some 0
    else (phpApMemstr needle partially cs).map (· + 1)

variable (bytes : ℕ)

/-- The number of bytes `multipart_buffer_read` copies out of the filled buffer. -/
def readLength (buffered : Bytes) : ℕ :=
  match phpApMemstr (boundaryNext boundary) true buffered with
  | some bound =>
    let len := min bound (bytes - 1)
    -- a CR before what may be a delimiter stays in the buffer
    if (buffered.take len).getLast? = some cr then len - 1 else len
  | none => min buffered.length (bytes - 1)

variable (self : MultipartBuffer)

/-- The buffer as `multipart_buffer_read` searches it. -/
def fillIfNeeded : MultipartBuffer :=
  if self.buffered.length < bytes then fillBuffer boundary self else self

/-- `multipart_buffer_read(self, buf, bytes, end)`: the bytes copied, and whether `*end` is set. -/
def multipartBufferRead : Bytes × Bool × MultipartBuffer :=
  let self := fillIfNeeded boundary bytes self
  let len := readLength boundary bytes self.buffered
  (self.buffered.take len, (phpApMemstr (boundaryNext boundary) false self.buffered).isSome,
    { self with buffered := self.buffered.drop len })

/-- The loop of `multipart_buffer_read_body`, at most so many turns: the pieces read before a read returns 0. -/
def readBody (boundary : Bytes) : ℕ → MultipartBuffer → Option (List Bytes × MultipartBuffer)
  | 0, _ => none
  | turns + 1, self =>
    match multipartBufferRead boundary fillUnit self with
    | ([], _, self') => some ([], self')
    | (piece, _, self') => (readBody boundary turns self').map fun r => (piece :: r.1, r.2)

/-! ### Filling the buffer -/

theorem fillLoop_append (buf : Bytes) (post : Request) :
    (fillLoop n buf post).1 ++ Request.bytes (fillLoop n buf post).2 = buf ++ Request.bytes post := by
  fun_induction fillLoop n buf post with
  | case1 n buf post h ih => rw [ih, append_assoc, readPost_append]
  | case2 n buf post h => rfl

/-- The loop stops when there is no room left or the request has ended. -/
theorem length_fillLoop (buf : Bytes) (post : Request) :
    (fillLoop n buf post).1.length = buf.length + min n (Request.bytes post).length := by
  fun_induction fillLoop n buf post with
  | case1 n buf post h ih =>
    have hle := length_readPost_le n post
    have hpost := congrArg List.length (readPost_append n post)
    rw [length_append] at hpost
    rw [ih, length_append]
    omega
  | case2 n buf post h =>
    rcases Nat.eq_zero_or_pos n with rfl | hn
    · rw [Nat.zero_min, Nat.add_zero]
    · have hpost : post = [] := eq_nil_of_readPost hn (not_not.mp fun hne => h ⟨hn, hne⟩)
      rw [hpost, show Request.bytes [] = [] from rfl, length_nil, Nat.min_zero, Nat.add_zero]

variable {boundary : Bytes} {self : MultipartBuffer}

theorem fillBuffer_stream (boundary : Bytes) (self : MultipartBuffer) :
    (fillBuffer boundary self).stream = self.stream :=
  fillLoop_append _ _ _

theorem length_fillBuffer (h : self.buffered.length ≤ bufsize boundary) :
    (fillBuffer boundary self).buffered.length = min (bufsize boundary) self.stream.length := by
  rw [fillBuffer, length_fillLoop, stream, length_append]
  omega

theorem MultipartBuffer.prefix_stream (self : MultipartBuffer) : self.buffered <+: self.stream :=
  prefix_append _ _

theorem MultipartBuffer.take_stream (self : MultipartBuffer) {n : ℕ} (h : n ≤ self.buffered.length) :
    self.stream.take n = self.buffered.take n :=
  take_append_of_le_length h

/-- The buffer that is searched holds `FILLUNIT` bytes at least, or all there is. -/
structure Filled (boundary : Bytes) (b : MultipartBuffer) : Prop where
  fits : b.buffered.length ≤ bufsize boundary
  /-- It could not be filled further, or need not be. -/
  enough : fillUnit ≤ b.buffered.length ∨ b.buffered = b.stream

theorem fillUnit_le_bufsize (boundary : Bytes) : fillUnit ≤ bufsize boundary := by
  unfold bufsize
  split <;> omega

theorem fillIfNeeded_stream (boundary : Bytes) (bytes : ℕ) (self : MultipartBuffer) :
    (fillIfNeeded boundary bytes self).stream = self.stream := by
  unfold fillIfNeeded
  split
  · exact fillBuffer_stream boundary self
  · rfl

theorem filled_fillIfNeeded (h : self.buffered.length ≤ bufsize boundary) :
    Filled boundary (fillIfNeeded boundary fillUnit self) := by
  unfold fillIfNeeded
  split_ifs with hb
  · have hlen := length_fillBuffer h
    have hunit := fillUnit_le_bufsize boundary
    refine ⟨by omega, ?_⟩
    rcases Nat.le_total (bufsize boundary) self.stream.length with hle | hle
    · left
      omega
    · right
      apply (prefix_stream _).eq_of_length
      rw [fillBuffer_stream, hlen, Nat.min_eq_right hle]
  · exact ⟨h, .inl (Nat.not_lt.mp hb)⟩

/-! ### Searching the buffer -/

variable {partially : Bool} {needle hay : Bytes}

theorem memFits_iff : memFits needle partially hay = true ↔ needle <+: hay ∨ partially = true ∧ hay <+: needle := by
  rw [memFits, Bool.and_eq_true, beq_iff_eq, Bool.or_eq_true, decide_eq_true_iff]
  rcases Nat.le_total needle.length hay.length with hle | hle
  · rw [Nat.min_eq_left hle, take_length]
    constructor
    · rintro ⟨h, -⟩
      exact .inl (prefix_iff_eq_take.mpr h)
    · rintro (h | ⟨-, h⟩)
      · exact ⟨prefix_iff_eq_take.mp h, .inr hle⟩
      · obtain rfl := h.eq_of_length_le hle
        exact ⟨(take_length).symm, .inr hle⟩
  · rw [Nat.min_eq_right hle, take_length]
    constructor
    · rintro ⟨h, hp | hlen⟩
      · exact .inr ⟨hp, prefix_iff_eq_take.mpr h.symm⟩
      · have heq : hay = needle := by rw [← h, take_of_length_le hlen]
        exact .inl (heq ▸ prefix_rfl)
    · rintro (h | ⟨hp, h⟩)
      · obtain rfl := h.eq_of_length_le hle
        exact ⟨take_length, .inr le_rfl⟩
      · exact ⟨(prefix_iff_eq_take.mp h).symm, .inl hp⟩

theorem head?_of_memFits {c : UInt8} {cs : Bytes} (hn : needle ≠ []) (h : memFits needle partially (c :: cs) = true) :
    needle.head? = some c := by
  obtain ⟨a, needle, rfl⟩ := exists_cons_of_ne_nil hn
  rcases memFits_iff.mp h with h | ⟨-, h⟩ <;> rw [head?_cons, (cons_prefix_cons.mp h).1]

/-- `php_ap_memstr` goes through the ends of the text, the longest first. -/
theorem phpApMemstr_eq_findIdx? (hn : needle ≠ []) :
    phpApMemstr needle partially hay = hay.tails.findIdx? fun t => t ≠ [] ∧ memFits needle partially t := by
  induction hay with
  | nil => simp [phpApMemstr]
  | cons c cs ih =>
    have hhead : needle.head? = some c ∧ memFits needle partially (c :: cs) ↔ memFits needle partially (c :: cs) :=
      and_iff_right_of_imp (head?_of_memFits hn)
    simp [phpApMemstr, findIdx?_cons, ih, hhead]

/-- `php_ap_memstr` returns the first place where the needle fits. -/
theorem phpApMemstr_eq_some_iff {i : ℕ} (hn : needle ≠ []) :
    phpApMemstr needle partially hay = some i ↔
      i < hay.length ∧ memFits needle partially (hay.drop i) = true ∧
        ∀ j < i, memFits needle partially (hay.drop j) = false := by
  rw [phpApMemstr_eq_findIdx? hn, findIdx?_eq_some_iff_getElem]
  simp only [length_tails, getElem_tails, ne_eq, drop_eq_nil_iff, not_le, decide_eq_true_eq, not_and, Bool.not_eq_true]
  constructor
  · rintro ⟨-, ⟨hi, hfit⟩, hj⟩
    exact ⟨hi, hfit, fun j hlt => hj j hlt (hlt.trans hi)⟩
  · rintro ⟨hi, hfit, hj⟩
    exact ⟨hi.trans (Nat.lt_succ_self _), ⟨hi, hfit⟩, fun j hlt _ => hj j hlt⟩

theorem phpApMemstr_eq_none (hn : needle ≠ []) (h : phpApMemstr needle partially hay = none) {i : ℕ}
    (hi : i < hay.length) : memFits needle partially (hay.drop i) = false := by
  rw [phpApMemstr_eq_findIdx? hn, findIdx?_eq_none_iff] at h
  simpa [hi.not_ge] using h (hay.drop i) ((mem_tails _ _).mpr (drop_suffix i hay))

/-! ### Where the delimiter is -/

/-- What ends a part: CR LF, the boundary line and CR LF. -/
def delimiter (boundary : Bytes) : Bytes := cr :: (boundaryNext boundary ++ [cr, lf])

/-- The boundaries for which the search of the buffer is right. -/
structure Separates (boundary : Bytes) : Prop where
  /-- A delimiter with the CR before it fits into what is always buffered. -/
  short : boundary.length + 4 ≤ fillUnit
  oneLine : lf ∉ boundary
  /-- The CR of the delimiter cannot be the end of a boundary. -/
  noCr : boundary.getLast? ≠ some cr

theorem length_boundaryNext (boundary : Bytes) : (boundaryNext boundary).length = boundary.length + 3 := by
  rw [boundaryNext, boundaryLine, length_cons, length_append, Nat.add_comm (ascii "--").length]
  rfl

theorem boundaryNext_ne_nil (boundary : Bytes) : boundaryNext boundary ≠ [] := cons_ne_nil _ _

theorem lf_notMem_boundaryLine (h : lf ∉ boundary) : lf ∉ boundaryLine boundary := by
  rw [boundaryLine, mem_append, not_or]
  exact ⟨by decide, h⟩

theorem boundaryNext_getLast? (h : boundary.getLast? ≠ some cr) : (boundaryNext boundary).getLast? ≠ some cr := by
  rw [boundaryNext, boundaryLine, ← cons_append, getLast?_append]
  cases hb : boundary.getLast? with
  | none => decide
  | some c => rwa [hb] at h

/-- Before a delimiter there is no place where the needle is, unless it is in the content. -/
theorem not_prefix_drop {content rest : Bytes} (hb : Separates boundary) (hc : ¬ boundaryNext boundary <:+: content)
    {j : ℕ} (hj : j ≤ content.length) : ¬ boundaryNext boundary <+: (content ++ cr :: lf :: rest).drop j := by
  intro h
  rw [drop_append_of_le_length hj] at h
  rcases Nat.lt_or_ge (content.drop j).length (boundaryNext boundary).length with hlen | hlen
  · -- the needle reaches over the CR, which must be one of its bytes
    have hpre : content.drop j ++ [cr] <+: boundaryNext boundary := by
      apply prefix_of_prefix_length_le _ h
      · rw [length_append]
        exact hlen
      · exact ⟨lf :: rest, by rw [append_assoc]; rfl⟩
    obtain ⟨w, hw⟩ := hpre
    cases w with
    | nil =>
      apply boundaryNext_getLast? hb.noCr
      rw [← hw, append_nil, getLast?_append]
      rfl
    | cons x w =>
      rw [← hw, append_assoc, prefix_append_right_inj, singleton_append, cons_prefix_cons, cons_prefix_cons] at h
      obtain ⟨-, rfl, -⟩ := h
      apply lf_notMem_boundaryLine hb.oneLine
      rw [show boundaryLine boundary = (boundaryNext boundary).tail from rfl, ← hw, tail_append_of_ne_nil (by simp)]
      exact mem_append_right _ mem_cons_self
  · apply hc
    have hin := prefix_of_prefix_length_le h (prefix_append _ _) hlen
    exact hin.isInfix.trans (drop_suffix j content).isInfix

/-- A place in the buffer where the needle fits whole. -/
theorem prefix_drop_of_memFits {j : ℕ} (h : memFits needle true (self.buffered.drop j) = true)
    (hlen : j + needle.length ≤ self.buffered.length) : needle <+: self.stream.drop j := by
  have hdrop : self.buffered.drop j <+: self.stream.drop j := by
    rw [stream, drop_append_of_le_length (by omega)]
    exact prefix_append _ _
  rcases memFits_iff.mp h with h | ⟨-, h⟩
  · exact h.trans hdrop
  · have heq := h.eq_of_length_le (by rw [length_drop]; omega)
    rwa [heq] at hdrop

section Reading

variable {content rest : Bytes}

/-- What the search finds in a buffer that starts inside the content. -/
structure Found (content : Bytes) (b : MultipartBuffer) (bound : ℕ) : Prop where
  lt : bound < b.buffered.length
  le : bound ≤ content.length + 1
  ne : bound ≠ content.length
  /-- A match at the start of the content or after one byte of it is no partial one. -/
  whole : bound ≤ 1 → content.length < bound

variable (hs : self.stream = content ++ cr :: (boundaryNext boundary ++ rest))

include hs

theorem memFits_delimiter : memFits (boundaryNext boundary) true (self.buffered.drop (content.length + 1)) = true := by
  rw [memFits_iff]
  have hN : boundaryNext boundary <+: self.stream.drop (content.length + 1) := by
    rw [hs, append_cons, drop_left' (by simp)]
    exact prefix_append _ _
  have hu : self.buffered.drop (content.length + 1) <+: self.stream.drop (content.length + 1) :=
    self.prefix_stream.drop _
  rcases prefix_or_prefix_of_prefix hN hu with h | h
  · exact .inl h
  · exact .inr ⟨rfl, h⟩

/-- Unless it holds all there is, the buffer that is searched holds a whole delimiter's length. -/
theorem Filled.enough' (hf : Filled boundary self) (hb : Separates boundary) :
    1 + (boundaryNext boundary).length ≤ self.buffered.length := by
  rcases hf.enough with h | h
  · have := hb.short
    rw [length_boundaryNext]
    omega
  · rw [h, hs, length_append, length_cons, length_append]
    omega

/-- A search that finds nothing leaves no room for a delimiter in the buffer. -/
theorem length_le_of_phpApMemstr_eq_none (h : phpApMemstr (boundaryNext boundary) true self.buffered = none) :
    self.buffered.length ≤ content.length + 1 := by
  by_contra hgt
  have := phpApMemstr_eq_none (boundaryNext_ne_nil boundary) h (Nat.lt_of_not_le hgt)
  rw [memFits_delimiter hs] at this
  exact Bool.noConfusion this

theorem getLast?_take_succ_length (h : content.length < self.buffered.length) :
    (self.buffered.take (content.length + 1)).getLast? = some cr := by
  have htake : self.buffered.take (content.length + 1) = content ++ [cr] := by
    rw [← self.take_stream h, hs, append_cons, take_left' (by simp)]
  rw [htake, getLast?_append]
  rfl

variable (hb : Separates boundary) (hc : ¬ boundaryNext boundary <:+: content)

include hb hc

theorem found_of_phpApMemstr (hf : Filled boundary self) {bound : ℕ}
    (h : phpApMemstr (boundaryNext boundary) true self.buffered = some bound) : Found content self bound := by
  obtain ⟨hlt, hfit, hmin⟩ := (phpApMemstr_eq_some_iff (boundaryNext_ne_nil boundary)).mp h
  have hnot : ∀ j ≤ content.length, ¬ boundaryNext boundary <+: self.stream.drop j := by
    intro j hj
    rw [hs]
    exact not_prefix_drop hb hc hj
  refine ⟨hlt, ?_, ?_, ?_⟩
  · by_contra hgt
    have := hmin _ (Nat.lt_of_not_le hgt)
    rw [memFits_delimiter hs] at this
    exact Bool.noConfusion this
  · rintro rfl
    have hcr : self.buffered[content.length]? = some cr := by
      rw [← getElem?_append_left hlt, show self.buffered ++ Request.bytes self.post = _ from hs,
        getElem?_append_right le_rfl, Nat.sub_self]
      rfl
    obtain ⟨t, ht⟩ : ∃ t, self.buffered.drop content.length = cr :: t := by
      refine ⟨self.buffered.drop (content.length + 1), ?_⟩
      rw [drop_eq_getElem_cons hlt]
      rw [getElem?_eq_getElem hlt, some.injEq] at hcr
      rw [hcr]
    rw [ht] at hfit
    have := head?_of_memFits (boundaryNext_ne_nil boundary) hfit
    exact absurd this (by simp [boundaryNext, lf, cr])
  · intro hle
    have hlen := Filled.enough' hs hf hb
    by_contra hin
    exact hnot bound (Nat.le_of_not_lt hin) (prefix_drop_of_memFits hfit (by omega))

/-- The number of bytes read out of a filled buffer: not more than there are of the content, and none only when there
are none. -/
theorem readLength_le (hf : Filled boundary self) :
    readLength boundary fillUnit self.buffered ≤ content.length ∧
      readLength boundary fillUnit self.buffered ≤ self.buffered.length ∧
      (readLength boundary fillUnit self.buffered = 0 → content = []) := by
  have hunit : fillUnit = 5120 := rfl
  unfold readLength
  cases hm : phpApMemstr (boundaryNext boundary) true self.buffered with
  | none =>
    have hle := length_le_of_phpApMemstr_eq_none hs hm
    have henough : fillUnit ≤ self.buffered.length := by
      rcases hf.enough with h | h
      · exact h
      · rw [h, hs, length_append, length_cons, length_append, length_boundaryNext] at hle
        omega
    dsimp only
    refine ⟨by omega, by omega, ?_⟩
    intro h0
    omega
  | some bound =>
    obtain ⟨hlt, hle, hne, hwhole⟩ := found_of_phpApMemstr hs hb hc hf hm
    dsimp only
    split_ifs with hcr
    · refine ⟨by omega, by omega, ?_⟩
      intro h0
      exact length_eq_zero_iff.mp (by omega)
    -- a match after the whole content would have its CR cut
    have hcut : min bound (fillUnit - 1) ≠ content.length + 1 := by
      intro heq
      rw [heq] at hcr
      exact hcr (getLast?_take_succ_length hs (by omega))
    refine ⟨by omega, by omega, ?_⟩
    intro h0
    exact length_eq_zero_iff.mp (by omega)

variable {self' : MultipartBuffer} (hfits : self.buffered.length ≤ bufsize boundary)

include hfits

/-- One call of `multipart_buffer_read` returns a piece of the content, and nothing only at its end. -/
theorem multipartBufferRead_spec {piece : Bytes} {ended : Bool}
    (h : multipartBufferRead boundary fillUnit self = (piece, ended, self')) :
    (piece = [] → content = []) ∧ self'.buffered.length ≤ bufsize boundary ∧
      ∃ content', content = piece ++ content' ∧
        self'.stream = content' ++ cr :: (boundaryNext boundary ++ rest) := by
  have hf := filled_fillIfNeeded hfits
  rw [← fillIfNeeded_stream boundary fillUnit] at hs
  obtain ⟨hle, hle', h0⟩ := readLength_le hs hb hc hf
  obtain ⟨rfl, -, rfl⟩ := h
  generalize fillIfNeeded boundary fillUnit self = filled at *
  generalize readLength boundary fillUnit filled.buffered = len at *
  -- the piece is the first part of the content
  have htake : filled.buffered.take len = content.take len := by
    rw [← filled.take_stream hle', hs, take_append_of_le_length hle]
  refine ⟨?_, ?_, content.drop len, ?_, ?_⟩
  · intro hnil
    apply h0
    have := congrArg List.length hnil
    rw [length_take, length_nil] at this
    omega
  · have := hf.fits
    rw [length_drop]
    omega
  · rw [htake, take_append_drop]
  · rw [stream, ← drop_append_of_le_length hle',
      show filled.buffered ++ Request.bytes filled.post = _ from hs, drop_append_of_le_length hle]

/-- The pieces read until a read returns 0 are the content. -/
theorem readBody_spec :
    ∃ turns pieces self', readBody boundary turns self = some (pieces, self') ∧ pieces.flatten = content ∧
      self'.buffered.length ≤ bufsize boundary ∧ self'.stream = cr :: (boundaryNext boundary ++ rest) := by
  -- every read that returns something makes what is left of the content shorter
  generalize hn : content.length = n
  induction n using Nat.strong_induction_on generalizing content self with
  | _ n ih =>
    rcases hread : multipartBufferRead boundary fillUnit self with ⟨piece, ended, self'⟩
    obtain ⟨hnil, hfits', content', rfl, hs'⟩ := multipartBufferRead_spec hs hb hc hfits hread
    cases piece with
    | nil =>
      obtain rfl : content' = [] := hnil rfl
      refine ⟨1, [], self', ?_, rfl, hfits', hs'⟩
      rw [readBody, hread]
    | cons b bs =>
      have hc' : ¬ boundaryNext boundary <:+: content' := fun hin =>
        hc (hin.trans (suffix_append _ _).isInfix)
      have hlt : content'.length < n := by
        rw [← hn, length_append, length_cons]
        omega
      obtain ⟨turns, pieces, last, hbody, rfl, hlast⟩ := ih _ hlt hs' hc' hfits' rfl
      refine ⟨turns + 1, (b :: bs) :: pieces, last, ?_, rfl, hlast⟩
      rw [readBody, hread]
      simp [hbody]

end Reading

/-! ### Finding the boundary line -/

variable {self' : MultipartBuffer}

section Lines

variable {line rest : Bytes}

theorem stripCr_append_cr (line : Bytes) : stripCr (line ++ [cr]) = line := by
  have hlast : (line ++ [cr]).getLast? = some cr := getLast?_concat
  rw [stripCr, if_pos hlast, dropLast_concat]

/-- A line that is in the buffer with its LF. -/
theorem nextLine_of_mem (boundary : Bytes) (hs : self.stream = line ++ lf :: rest) (hline : lf ∉ line)
    (hmem : lf ∈ self.buffered) :
    ∃ self', nextLine boundary self = (some (stripCr line), self') ∧ self'.stream = rest ∧
      self'.buffered.length ≤ self.buffered.length := by
  have hall : ∀ {l : Bytes}, lf ∉ l → ∀ c ∈ l, decide (c ≠ lf) = true := by
    intro l hl c hc
    exact decide_eq_true fun heq => hl (heq ▸ hc)
  have hsplit : ∀ {l t : Bytes}, lf ∉ l → (l ++ lf :: t).takeWhile (· ≠ lf) = l := by
    intro l t hl
    rw [takeWhile_append_of_pos (hall hl), takeWhile_cons_of_neg (by simp), append_nil]
  obtain ⟨pre, post, heq, hpre⟩ := eq_append_cons_of_mem hmem
  have hstream : self.stream = pre ++ lf :: (post ++ Request.bytes self.post) := by
    rw [stream, heq, append_assoc, cons_append]
  have hpl : pre = line := by rw [← hsplit hpre, ← hstream, hs, hsplit hline]
  subst hpl
  refine ⟨{ self with buffered := post }, ?_, ?_, ?_⟩
  · rw [nextLine, if_pos hmem, heq, hsplit hpre, dropWhile_append_of_pos (hall hpre), dropWhile_cons_of_neg (by simp)]
    rfl
  · rw [hs] at hstream
    exact (List.cons.inj (append_cancel_left hstream)).2.symm
  · rw [heq, length_append, length_cons]
    dsimp only
    omega

/-- A line that fits into the buffer is returned without its CR LF. -/
theorem getLine_spec (hfits : self.buffered.length ≤ bufsize boundary) (hs : self.stream = line ++ cr :: lf :: rest)
    (hline : lf ∉ line) (hlen : line.length + 2 ≤ bufsize boundary) :
    ∃ self', getLine boundary self = (some line, self') ∧ self'.stream = rest ∧
      self'.buffered.length ≤ bufsize boundary := by
  rw [append_cons] at hs
  have hline' : lf ∉ line ++ [cr] := by
    rw [mem_append, not_or]
    exact ⟨hline, by decide⟩
  have hnext : ∀ {b : MultipartBuffer}, b.stream = (line ++ [cr]) ++ lf :: rest → lf ∈ b.buffered →
      b.buffered.length ≤ bufsize boundary → ∃ b', nextLine boundary b = (some line, b') ∧ b'.stream = rest ∧
        b'.buffered.length ≤ bufsize boundary := by
    intro b hb hmem hle
    obtain ⟨b', heq, hrest, hle'⟩ := nextLine_of_mem boundary hb hline' hmem
    rw [stripCr_append_cr] at heq
    exact ⟨b', heq, hrest, hle'.trans hle⟩
  by_cases hmem : lf ∈ self.buffered
  · obtain ⟨self', heq, h⟩ := hnext hs hmem hfits
    refine ⟨self', ?_, h⟩
    rw [getLine, heq]
  -- without an LF the buffer holds less than the line, and is filled
  have hmem_of_lt : ∀ {b : MultipartBuffer}, b.stream = (line ++ [cr]) ++ lf :: rest →
      line.length + 1 < b.buffered.length → lf ∈ b.buffered := by
    intro b hb hlt
    have hpre : (line ++ [cr]) ++ [lf] <+: b.buffered := by
      have hfull : (line ++ [cr]) ++ [lf] <+: b.stream :=
        ⟨rest, by rw [hb, append_assoc, singleton_append]⟩
      apply prefix_of_prefix_length_le hfull b.prefix_stream
      rw [length_append, length_append]
      exact hlt
    exact hpre.subset (by simp)
  have hlt : self.buffered.length < bufsize boundary := by
    by_contra hge
    exact hmem (hmem_of_lt hs (by omega))
  have hfill := fillBuffer_stream boundary self
  have hfilled := length_fillBuffer hfits
  have hstream : line.length + 2 ≤ self.stream.length := by
    rw [hs, length_append, length_append, length_singleton, length_cons]
    omega
  obtain ⟨self', heq, h⟩ := hnext (hfill.trans hs) (hmem_of_lt (hfill.trans hs) (by omega)) (by omega)
  refine ⟨self', ?_, h⟩
  rw [getLine, nextLine, if_neg hmem, if_pos hlt]
  exact heq

/-- The CR LF before a boundary line is an empty line; the boundary line is found after it. -/
theorem findBoundary_spec (hnul : 0 ∉ boundary) (hlf : lf ∉ boundary)
    (hfits : self.buffered.length ≤ bufsize boundary) (hs : self.stream = delimiter boundary ++ rest) :
    ∃ turns self', findBoundary boundary turns self = some (true, self') ∧ self'.stream = rest := by
  have hsize : (boundaryLine boundary).length + 2 ≤ bufsize boundary := by
    have hlen : (boundaryLine boundary).length + 1 = boundary.length + 3 := length_boundaryNext boundary
    unfold bufsize
    split <;> omega
  have hs₁ : self.stream = [] ++ cr :: lf :: (boundaryLine boundary ++ cr :: lf :: rest) := by
    rw [hs, delimiter, boundaryNext]
    simp
  obtain ⟨self₁, hline₁, hrest₁, hfits₁⟩ := getLine_spec hfits hs₁ not_mem_nil (by simp; omega)
  obtain ⟨self₂, hline₂, hrest₂, -⟩ := getLine_spec hfits₁ hrest₁ (lf_notMem_boundaryLine hlf) hsize
  refine ⟨2, self₂, ?_, hrest₂⟩
  have hempty : strEq [] (boundaryLine boundary) = false := by
    rw [strEq, boundaryLine]
    rfl
  have hfound : strEq (boundaryLine boundary) (boundaryLine boundary) = true := by
    have hall : ∀ c ∈ boundaryLine boundary, decide (c ≠ 0) = true := by
      intro c hc
      rw [boundaryLine, mem_append] at hc
      apply decide_eq_true
      rintro rfl
      rcases hc with hc | hc
      · revert hc
        decide
      · exact hnul hc
    rw [strEq, takeWhile_eq_self_iff.mpr hall]
    exact beq_self_eq_true _
  simp [findBoundary, hline₁, hempty, hline₂, hfound]

theorem lf_notMem_of_nextLine (h : nextLine boundary self = (some line, self')) : lf ∉ line := by
  unfold nextLine at h
  split_ifs at h with hmem
  · simp only [Prod.mk.injEq, some.injEq] at h
    obtain ⟨rfl, -⟩ := h
    have htake : lf ∉ self.buffered.takeWhile (· ≠ lf) := by
      intro hin
      have := mem_takeWhile_imp hin
      simp at this
    unfold stripCr
    split
    · exact fun hin => htake (mem_of_mem_dropLast hin)
    · exact htake
  · simp only [Prod.mk.injEq, reduceCtorEq, false_and] at h
  · simp only [Prod.mk.injEq, some.injEq] at h
    obtain ⟨rfl, -⟩ := h
    exact hmem

theorem lf_notMem_of_getLine (h : getLine boundary self = (some line, self')) : lf ∉ line := by
  unfold getLine at h
  split at h
  case h_1 line' self₁ hnext =>
    obtain ⟨rfl, -⟩ := h
    exact lf_notMem_of_nextLine hnext
  case h_2 self₁ hnext => exact lf_notMem_of_nextLine h

/-- No line is a boundary line with an LF in it. -/
theorem findBoundary_ne_true (hlf : lf ∈ boundary) (turns : ℕ) (self self' : MultipartBuffer) :
    findBoundary boundary turns self ≠ some (true, self') := by
  induction turns generalizing self with
  | zero => exact some_ne_none _ ∘ Eq.symm
  | succ turns ih =>
    unfold findBoundary
    split
    case h_1 self₁ hline => simp
    case h_2 line self₁ hline =>
      split
      · rename_i heq
        rw [strEq, beq_iff_eq] at heq
        have hin : lf ∈ line.takeWhile (· ≠ 0) := by
          rw [heq]
          exact mem_append_right _ hlf
        exact absurd ((List.takeWhile_prefix _).subset hin) (lf_notMem_of_getLine hline)
      · exact ih self₁

end Lines

/-! ### Which boundaries separate -/

/-- A part is extracted: the pieces up to the first empty read are the content, and the search for the boundary stops
right after the boundary line. -/
def Extracts (boundary content further : Bytes) (self : MultipartBuffer) : Prop :=
  ∃ turns pieces self', readBody boundary turns self = some (pieces, self') ∧ pieces.flatten = content ∧
    ∃ turns' self'', findBoundary boundary turns' self' = some (true, self'') ∧ self''.stream = further

/-- A boundary, a C string. -/
structure Boundary where
  /-- Its bytes. -/
  bytes : Bytes
  /-- It has no NUL. -/
  nonul : 0 ∉ bytes

section Separation

variable {content further : Bytes}

theorem Separates.extracts (hb : Separates boundary) (hnul : 0 ∉ boundary)
    (hfits : self.buffered.length ≤ bufsize boundary) (hc : ¬ boundaryNext boundary <:+: content)
    (hs : self.stream = content ++ delimiter boundary ++ further) : Extracts boundary content further self := by
  have hs' : self.stream = content ++ cr :: (boundaryNext boundary ++ ([cr, lf] ++ further)) := by
    rw [hs, delimiter]
    simp
  obtain ⟨turns, pieces, self', hbody, hcontent, hfits', hrest⟩ := readBody_spec hs' hb hc hfits
  have hdelim : self'.stream = delimiter boundary ++ further := by
    rw [hrest, delimiter]
    simp
  exact ⟨turns, pieces, self', hbody, hcontent, findBoundary_spec hnul hb.oneLine hfits' hdelim⟩

variable {pieces : List Bytes}

/-- A first read that returns nothing ends the part. -/
theorem pieces_eq_nil {turns : ℕ}
    (h0 : readLength boundary fillUnit (fillIfNeeded boundary fillUnit self).buffered = 0)
    (h : readBody boundary turns self = some (pieces, self')) : pieces = [] := by
  cases turns with
  | zero => exact absurd h (some_ne_none _).symm
  | succ turns =>
    simp only [readBody, multipartBufferRead, h0, take_zero, some.injEq, Prod.mk.injEq] at h
    exact h.1.symm

theorem not_extracts_of_readLength (hne : content ≠ [])
    (h0 : readLength boundary fillUnit (fillIfNeeded boundary fillUnit self).buffered = 0) :
    ¬ Extracts boundary content further self := by
  rintro ⟨turns, pieces, self', hbody, hcontent, -⟩
  rw [pieces_eq_nil h0 hbody] at hcontent
  exact hne hcontent.symm

/-- A whole request that has not been read yet. -/
def unreadRequest (bs : Bytes) : MultipartBuffer := { buffered := [], post := Request.unread bs [] }

theorem unreadRequest_stream (bs : Bytes) : (unreadRequest bs).stream = bs := by
  rw [stream, unreadRequest, nil_append, Request.bytes_unread]
  exact append_nil bs

theorem buffered_fillIfNeeded_unreadRequest (boundary bs : Bytes) :
    (fillIfNeeded boundary fillUnit (unreadRequest bs)).buffered = bs.take (bufsize boundary) := by
  have hfits : (unreadRequest bs).buffered.length ≤ bufsize boundary := Nat.zero_le _
  have hneed : (unreadRequest bs).buffered.length < fillUnit := show 0 < fillUnit by decide
  have hlen := length_fillBuffer hfits
  have hpre := (fillBuffer boundary (unreadRequest bs)).prefix_stream
  rw [fillBuffer_stream, unreadRequest_stream] at hpre
  rw [unreadRequest_stream] at hlen
  rw [fillIfNeeded, if_pos hneed, prefix_iff_eq_take.mp hpre, hlen]
  exact take_eq_take_iff.mpr (by omega)

/-- A buffer that starts with the needle. -/
theorem readLength_of_prefix {buffered : Bytes} (h : boundaryNext boundary <+: buffered) :
    readLength boundary fillUnit buffered = 0 := by
  have hpos : 0 < buffered.length := Nat.lt_of_lt_of_le (Nat.succ_pos _) h.length_le
  have hm : phpApMemstr (boundaryNext boundary) true buffered = some 0 := by
    rw [phpApMemstr_eq_some_iff (boundaryNext_ne_nil boundary)]
    exact ⟨hpos, memFits_iff.mpr (.inl h), fun j hj => absurd hj (Nat.not_lt_zero j)⟩
  rw [readLength, hm]
  rfl

/-- What a buffer of `FILLUNIT` bytes can hold of a long delimiter. -/
def cutDelimiter (boundary : Bytes) : Bytes := cr :: (boundaryNext boundary).take (fillUnit - 1)

theorem length_cutDelimiter (h : fillUnit < boundary.length + 4) : (cutDelimiter boundary).length = fillUnit := by
  have hunit : fillUnit = 5120 := rfl
  rw [cutDelimiter, length_cons, length_take, length_boundaryNext]
  omega

variable {pre : Bytes}

/-- A cut delimiter after bytes that are no LF is where the search stops. -/
theorem phpApMemstr_cutDelimiter (hpre : lf ∉ pre) :
    phpApMemstr (boundaryNext boundary) true (pre ++ cutDelimiter boundary) = some (pre.length + 1) := by
  have hlen : 0 < ((boundaryNext boundary).take (fillUnit - 1)).length := by
    have hunit : fillUnit = 5120 := rfl
    rw [length_take, length_boundaryNext]
    omega
  rw [phpApMemstr_eq_some_iff (boundaryNext_ne_nil boundary), cutDelimiter, append_cons]
  refine ⟨?_, ?_, ?_⟩
  · rw [length_append, length_append, length_singleton]
    omega
  · rw [drop_left' (by simp)]
    exact memFits_iff.mpr (.inr ⟨rfl, take_prefix _ _⟩)
  · intro j hj
    apply Bool.eq_false_iff.mpr
    intro hfit
    have hj' : j < (pre ++ [cr]).length := by simpa using hj
    rw [drop_append_of_le_length hj'.le, drop_eq_getElem_cons hj', cons_append] at hfit
    have hhead := head?_of_memFits (boundaryNext_ne_nil boundary) hfit
    have hmem : lf ∈ pre ++ [cr] := by
      rw [show lf = (pre ++ [cr])[j] from some.inj hhead]
      exact getElem_mem hj'
    rcases mem_append.mp hmem with hin | hin
    · exact hpre hin
    · revert hin
      decide

/-- The first bytes of it are read, and then nothing more. -/
theorem readLength_cutDelimiter (hpre : lf ∉ pre) (hshort : pre.length + 1 < fillUnit) :
    readLength boundary fillUnit (pre ++ cutDelimiter boundary) = pre.length := by
  have htake : (pre ++ cutDelimiter boundary).take (pre.length + 1) = pre ++ [cr] := by
    rw [cutDelimiter, append_cons, take_left' (by simp)]
  rw [readLength, phpApMemstr_cutDelimiter hpre]
  dsimp only
  rw [Nat.min_eq_left (by omega), htake, if_pos getLast?_concat]
  rfl

variable (h : fillUnit < boundary.length + 4)

include h

theorem not_infix_cutDelimiter (hpre : lf ∉ pre) : ¬ boundaryNext boundary <:+: pre ++ cutDelimiter boundary := by
  rintro ⟨s, t, heq⟩
  have hlen := congrArg List.length heq
  rw [length_append, length_append, length_append, length_cutDelimiter h, length_boundaryNext] at hlen
  -- the needle is too long to start after the CR, and before it there is no LF
  have hlt : s.length < (pre ++ [cr]).length := by
    rw [length_append, length_singleton]
    omega
  have hat : (pre ++ [cr])[s.length]? = some lf := by
    rw [← getElem?_append_left hlt, ← append_cons, ← cutDelimiter, ← heq, append_assoc,
      getElem?_append_right le_rfl, Nat.sub_self]
    rfl
  rcases mem_append.mp (mem_of_getElem? hat) with hin | hin
  · exact hpre hin
  · revert hin
    decide

/-- A buffer of a cut delimiter is not filled before it is searched. -/
theorem readLength_stalled (post : Request) :
    readLength boundary fillUnit (fillIfNeeded boundary fillUnit ⟨cutDelimiter boundary, post⟩).buffered = 0 := by
  have hfull : ¬ (cutDelimiter boundary).length < fillUnit := by
    rw [length_cutDelimiter h]
    exact Nat.lt_irrefl _
  have hnone : lf ∉ ([] : Bytes) := not_mem_nil
  rw [fillIfNeeded, if_neg hfull]
  exact readLength_cutDelimiter hnone (by decide)

/-- What is returned of a content that ends with a cut delimiter. -/
theorem pieces_eq_singleton (hne : pre ≠ []) (hpre : lf ∉ pre)
    (hshort : pre.length + 1 < fillUnit)
    (hbuf : (fillIfNeeded boundary fillUnit self).buffered = pre ++ cutDelimiter boundary) {turns : ℕ}
      (hbody : readBody boundary turns self = some (pieces, self')) : pieces = [pre] := by
  cases turns with
  | zero => exact absurd hbody (some_ne_none _).symm
  | succ turns =>
    obtain ⟨b, bs, rfl⟩ := exists_cons_of_ne_nil hne
    simp only [readBody, multipartBufferRead, hbuf, readLength_cutDelimiter hpre hshort, take_left,
      drop_left, map_eq_some_iff, Prod.mk.injEq] at hbody
    obtain ⟨⟨pieces', last⟩, hbody', rfl, rfl⟩ := hbody
    rw [pieces_eq_nil (readLength_stalled h _) hbody']

end Separation

/-- Every part of every request is extracted exactly, however the request is delivered and however much of it is
buffered when the part starts, just for the boundaries that leave room for a delimiter in `FILLUNIT` bytes, have no LF
and do not end in CR. -/
theorem extracts_iff (boundary : Boundary) :
    (∀ (content further : Bytes) (self : MultipartBuffer), self.buffered.length ≤ bufsize boundary.bytes →
        ¬ boundaryNext boundary.bytes <:+: content →
        self.stream = content ++ delimiter boundary.bytes ++ further →
        Extracts boundary.bytes content further self) ↔
      boundary.bytes.length + 4 ≤ fillUnit ∧ lf ∉ boundary.bytes ∧ boundary.bytes.getLast? ≠ some cr := by
  obtain ⟨boundary, hnul⟩ := boundary
  constructor
  · intro h
    refine ⟨?_, ?_, ?_⟩
    · by_contra hlong
      have hlt := Nat.lt_of_not_le hlong
      have hc : ¬ boundaryNext boundary <:+: cutDelimiter boundary := not_infix_cutDelimiter hlt not_mem_nil
      refine not_extracts_of_readLength (cons_ne_nil _ _)
        (readLength_stalled hlt (Request.unread (delimiter boundary) [])) (h (cutDelimiter boundary) [] _ ?_ hc ?_)
      · rw [length_cutDelimiter hlt]
        exact fillUnit_le_bufsize boundary
      · rw [stream, Request.bytes_unread, append_assoc]
        rfl
    · intro hlf
      have hc : ¬ boundaryNext boundary <:+: [] := fun hin => boundaryNext_ne_nil boundary (infix_nil.mp hin)
      obtain ⟨-, -, self', -, -, turns, self'', hfind, -⟩ :=
        h [] [] (unreadRequest (delimiter boundary)) (Nat.zero_le _) hc (by rw [unreadRequest_stream]; simp)
      exact findBoundary_ne_true hlf turns self' self'' hfind
    · intro hcr
      -- the content and the CR of the delimiter are together what the search looks for
      obtain ⟨w, rfl⟩ := getLast?_eq_some_iff.mp hcr
      have hN : boundaryNext (w ++ [cr]) = boundaryNext w ++ [cr] := rfl
      have hc : ¬ boundaryNext (w ++ [cr]) <:+: boundaryNext w := by
        intro hin
        have := hin.length_le
        rw [hN, length_append, length_singleton] at this
        omega
      refine not_extracts_of_readLength (cons_ne_nil _ _) ?_
        (h (boundaryNext w) [] (unreadRequest (boundaryNext w ++ delimiter (w ++ [cr]))) (Nat.zero_le _) hc
          (by rw [unreadRequest_stream, append_nil]))
      apply readLength_of_prefix
      rw [buffered_fillIfNeeded_unreadRequest, prefix_take_iff]
      refine ⟨?_, ?_⟩
      · rw [hN, delimiter]
        exact ⟨boundaryNext (w ++ [cr]) ++ [cr, lf], by rw [append_assoc, singleton_append]⟩
      · rw [length_boundaryNext]
        unfold bufsize
        split <;> omega
  · rintro ⟨hshort, hlf, hcr⟩ content further self hfits hc hs
    exact Separates.extracts ⟨hshort, hlf, hcr⟩ hnul hfits hc hs


/-- A boundary of 5117 bytes and a request read from its start: of the content `abc`, CR, LF, `--` and 5116 bytes of the
boundary only `abc` is returned. -/
theorem not_extracts_long_boundary :
    let boundary : Bytes := replicate 5117 97
    let content := ascii "abc" ++ cutDelimiter boundary
    ¬ boundaryNext boundary <:+: content ∧
      ¬ Extracts boundary content [] (unreadRequest (content ++ delimiter boundary)) := by
  intro boundary content
  have hlong : fillUnit < boundary.length + 4 := by
    rw [length_replicate]
    decide
  have hlen : content.length = bufsize boundary := by
    rw [length_append, length_cutDelimiter hlong, bufsize, length_replicate]
    rfl
  have hbuf : (fillIfNeeded boundary fillUnit (unreadRequest (content ++ delimiter boundary))).buffered = content := by
    rw [buffered_fillIfNeeded_unreadRequest, ← hlen, take_left]
  refine ⟨not_infix_cutDelimiter hlong (by decide), ?_⟩
  rintro ⟨turns, pieces, self', hbody, hcontent, -⟩
  rw [pieces_eq_singleton hlong (by decide) (by decide) (by decide) hbuf hbody] at hcontent
  have := congrArg List.length hcontent
  rw [hlen, bufsize, length_replicate] at this
  exact absurd this (by decide)

end PhpSandbox.Post
