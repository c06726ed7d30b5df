import Mathlib.Data.List.Forall2
import PhpSandbox.Lib.CString

/-!
# Output buffering

The output layer of `main/output.c`: a stack of handlers, each with a buffer, through which what a script writes goes to
the server.

## The model

`Globals` is `OG`, with the stack as a list, the top first; `OG(active)` is the top of the stack between two calls. A
context is its operation and the bytes of its two buffers; who owns them is not in the model. Handlers are the internal
ones (`php_output_handler_default_func`, `php_output_handler_devnull_func`), which do not write while they run, so that
`OG(running)` is `NULL` in every call. Notices are results, and the status flags that only `ob_get_status` shows are
left out.

## What is proved

`Levels` says what output buffering is for: a stack of byte strings. Both give the same bytes to the server as long as
no more than `UINT_MAX` bytes go out at once, which is the largest length that `ub_write` can be given
(`endAll_sapi_iff`).
-/

namespace PhpSandbox.Output

open Lib List

/-! ### Contexts -/

/-- `PHP_OUTPUT_HANDLER_WRITE`. -/
def opWrite : ℕ := 0x00

/-- `PHP_OUTPUT_HANDLER_START`. -/
def opStart : ℕ := 0x01

/-- `PHP_OUTPUT_HANDLER_CLEAN`. -/
def opClean : ℕ := 0x02

/-- `PHP_OUTPUT_HANDLER_FLUSH`. -/
def opFlush : ℕ := 0x04

/-- `PHP_OUTPUT_HANDLER_FINAL`. -/
def opFinal : ℕ := 0x08

/-- `php_output_handler_status_t`. -/
inductive Status where
  /-- `PHP_OUTPUT_HANDLER_FAILURE`. -/
  | failure
  /-- `PHP_OUTPUT_HANDLER_SUCCESS`. -/
  | success
  /-- `PHP_OUTPUT_HANDLER_NO_DATA`. -/
  | noData

/-- `php_output_context`. -/
structure Context where
  op : ℕ
  /-- `in`. -/
  input : Bytes
  /-- `out`. -/
  output : Bytes

namespace Context

variable (c : Context)

/-- `php_output_context_swap`. -/
def swap : Context := { c with input := c.output, output := [] }

/-- `php_output_context_pass`. -/
def pass : Context := { c with input := [], output := c.input }

/-- `php_output_context_reset`. -/
def reset : Context := { c with input := [], output := [] }

end Context

/-! ### Handlers -/

/-- The internal handler functions. -/
inductive Func where
  /-- `php_output_handler_default_func`. -/
  | default
  /-- `php_output_handler_devnull_func`. -/
  | devnull

/-- A call of a handler function; `true` is `SUCCESS`. -/
def Func.call : Func → Context → Bool × Context
  | .default, c => (true, c.pass)
  | .devnull, c => (true, c)

/-- `php_output_handler`. -/
structure Handler where
  level : ℕ
  /-- `size`, where `0` is no chunk size. -/
  size : ℕ
  /-- `PHP_OUTPUT_HANDLER_CLEANABLE`. -/
  cleanable : Bool
  /-- `PHP_OUTPUT_HANDLER_FLUSHABLE`. -/
  flushable : Bool
  /-- `PHP_OUTPUT_HANDLER_REMOVABLE`. -/
  removable : Bool
  /-- `PHP_OUTPUT_HANDLER_STARTED`. -/
  started : Bool
  /-- `PHP_OUTPUT_HANDLER_DISABLED`. -/
  disabled : Bool
  name : String
  /-- `func.internal`. -/
  func : Func
  /-- `buffer.data`, as far as it is used. -/
  data : Bytes
  /-- `buffer.size`. -/
  capacity : ℕ

/-- `PHP_OUTPUT_HANDLER_INITBUF_SIZE`. -/
def initbufSize (n : ℕ) : ℕ := if 1 < n then n + 0x1000 - n % 0x1000 else 0x4000

/-- `php_output_start_user` with no function, and `php_output_start_default`: a handler with the standard flags. -/
def Handler.create (level size : ℕ) : Handler where
  level := level
  size := size
  cleanable := true
  flushable := true
  removable := true
  started := false
  disabled := false
  name := "default output handler"
  func := .default
  data := []
  capacity := initbufSize size

namespace Handler

variable (h : Handler)

/-- The size of the buffer when some bytes are appended. -/
def grow (n : ℕ) : ℕ :=
  if h.capacity - h.data.length ≤ n then
    h.capacity + max (initbufSize h.size) (initbufSize (n - (h.capacity - h.data.length)))
  else h.capacity

/-- `php_output_handler_append`: whether the handler does not have to run. -/
def append (buf : Bytes) : Bool × Handler :=
  if buf = [] then (true, h)
  else
    let h := { h with data := h.data ++ buf, capacity := h.grow buf.length }
    (!decide (h.size ≠ 0 ∧ h.size ≤ h.data.length), h)

/-- The second part of `php_output_handler_op`: the handler runs. -/
def exec (c : Context) : Status × Handler × Context :=
  let r := h.func.call ⟨if h.started then c.op else c.op ||| opStart, h.data, c.output⟩
  let h := { h with started := true }
  match r.1, r.2.output with
  | false, _ =>
    (.failure, { h with disabled := true, data := [], capacity := 0 }, { r.2 with op := c.op, output := h.data })
  | true, [] => (.noData, { h with data := [] }, { r.2.reset with op := c.op })
  | true, _ :: _ => (.success, { h with data := [] }, { r.2 with op := c.op })

/-- `php_output_handler_op`. -/
def op (h : Handler) (c : Context) : Status × Handler × Context :=
  let r := h.append c.input
  if r.1 ∧ c.op = opWrite then (.noData, r.2, c) else r.2.exec c

/-- `php_output_stack_apply_op`; `true` ends the walk. -/
def applyOp (c : Context) : Bool × Handler × Context :=
  if h.disabled then (false, h, if h.level = 0 then c.pass else c)
  else
    match h.op c with
    | (.noData, h, c) => (true, h, c)
    | (.success, h, c) => (false, h, if h.level = 0 then c else c.swap)
    | (.failure, h, c) => (false, h, if h.level = 0 then c else c.swap)

end Handler

/-- `zend_stack_apply_with_argument` from the top to the bottom, with `php_output_stack_apply_op`. -/
def stackApply : Context → List Handler → List Handler × Context
  | c, [] => ([], c)
  | c, h :: hs =>
    match h.applyOp c with
    | (true, h, c) => (h :: hs, c)
    | (false, h, c) => (h :: (stackApply c hs).1, (stackApply c hs).2)

/-- The first part of `php_output_op`: it is the one handler, or the stack of handlers, that gets the bytes. -/
def dispatch (op : ℕ) (str : Bytes) : List Handler → List Handler × Context
  | [] => ([], ⟨op, [], str⟩)
  | [h] =>
    if h.disabled then ([h], Context.pass ⟨op, str, []⟩)
    else ([(h.op ⟨op, str, []⟩).2.1], (h.op ⟨op, str, []⟩).2.2)
  | h :: h' :: hs => stackApply ⟨op, str, []⟩ (h :: h' :: hs)

/-! ### The output layer -/

/-- `OG`, and what the server has got. -/
structure Globals where
  /-- `handlers`, the top first. -/
  handlers : List Handler
  /-- `PHP_OUTPUT_DISABLED`. -/
  disabled : Bool
  /-- `SG(headers_sent)`. -/
  headersSent : Bool
  /-- `SG(request_info).headers_only`. -/
  headersOnly : Bool
  /-- The bytes given to `ub_write`. -/
  sapi : Bytes

open Globals

/-- What a call returns. -/
inductive Result where
  | success
  /-- `FAILURE`, with the text of the notice. -/
  | failure (notice : Option String)

namespace Globals

/-- `php_output_activate`, in a new request. -/
def activate (headersOnly : Bool) : Globals := ⟨[], false, false, headersOnly, []⟩

variable (s : Globals)

/-- `php_output_header`; `php_header` fails for a request that wants the header only. -/
def header : Globals :=
  if s.headersSent then s else { s with headersSent := true, disabled := s.disabled || s.headersOnly }

/-- What `ub_write` gets of some bytes: their number is a `size_t`, but its argument is an `unsigned int`. -/
def ubWrite (out : Bytes) : Bytes := out.take (out.length % 2 ^ 32)

/-- The end of `php_output_op`. -/
def send (out : Bytes) : Globals :=
  if out = [] then s
  else if s.header.disabled then s.header
  else { s.header with sapi := s.sapi ++ ubWrite out }

/-- `php_output_op`. -/
def op (s : Globals) (op : ℕ) (str : Bytes) : Globals :=
  { s with handlers := (dispatch op str s.handlers).1 }.send (dispatch op str s.handlers).2.output

/-- `php_output_write`. -/
def write (str : Bytes) : Globals := if s.disabled then s else s.op opWrite str

/-- `php_output_start_user` or `php_output_start_default`. -/
def start (chunkSize : ℕ) : Globals :=
  { s with handlers := Handler.create s.handlers.length chunkSize :: s.handlers }

/-- `php_output_flush`: the handler is not on the stack while what it gives is written. -/
def flush : Result × Globals :=
  match s.handlers with
  | [] => (.failure none, s)
  | h :: hs =>
    if h.flushable then
      let r := (h.op ⟨opFlush, [], []⟩).2
      if r.2.output = [] then (.success, { s with handlers := r.1 :: hs })
      else
        let s := { s with handlers := hs }.write r.2.output
        (.success, { s with handlers := r.1 :: s.handlers })
    else (.failure none, s)

/-- `php_output_clean`. -/
def clean : Result × Globals :=
  match s.handlers with
  | [] => (.failure none, s)
  | h :: hs =>
    if h.cleanable then (.success, { s with handlers := (h.op ⟨opClean, [], []⟩).2.1 :: hs }) else (.failure none, s)

/-- What the notices call it. -/
def popVerb (discard : Bool) : String := if discard then "discard" else "send"

/-- The operation of `php_output_stack_pop`. -/
def popOp (h : Handler) (discard : Bool) : ℕ :=
  opFinal ||| (if h.started then 0 else opStart) ||| (if discard then opClean else 0)

/-- `php_output_stack_pop`. -/
def stackPop (force discard : Bool) : Result × Globals :=
  match s.handlers with
  | [] => (.failure s!"failed to {popVerb discard} buffer. No buffer to {popVerb discard}", s)
  | h :: hs =>
    if ¬force ∧ ¬h.removable then
      (.failure s!"failed to {popVerb discard} buffer of {h.name} ({h.level})", s)
    else
      let out := if h.disabled then [] else (h.op ⟨popOp h discard, [], []⟩).2.2.output
      let s := { s with handlers := hs }
      (.success, if out ≠ [] ∧ ¬discard then s.write out else s)

/-- `php_output_end`. -/
def endTop : Result × Globals := s.stackPop false false

/-- `php_output_discard`. -/
def discard : Result × Globals := s.stackPop false true

/-- The loop of `php_output_end_all`, which goes on while there are handlers. -/
def endLoop : ℕ → Globals → Globals
  | 0, s => s
  | n + 1, s => if s.handlers = [] then s else endLoop n (s.stackPop true false).2

/-- `php_output_end_all`. -/
def endAll : Globals := endLoop s.handlers.length s

end Globals

/-- A call. -/
inductive Call where
  /-- A default output handler is started. -/
  | start (chunkSize : ℕ)
  /-- `php_output_write`. -/
  | write (str : Bytes)
  /-- `php_output_flush`. -/
  | flush
  /-- `php_output_clean`. -/
  | clean
  /-- `php_output_end`. -/
  | endTop
  /-- `php_output_discard`. -/
  | discard

namespace Globals

/-- One call. -/
def step (s : Globals) : Call → Globals
  | .start chunkSize => s.start chunkSize
  | .write str => s.write str
  | .flush => s.flush.2
  | .clean => s.clean.2
  | .endTop => s.endTop.2
  | .discard => s.discard.2

/-- Many calls. -/
def run (s : Globals) (calls : List Call) : Globals := calls.foldl step s

end Globals

/-! ### What output buffering is for -/

/-- A buffer. -/
structure Level where
  /-- The size at which it passes its content on, or `0`. -/
  chunkSize : ℕ
  /-- The content. -/
  content : Bytes

/-- A stack of buffers, the top first, and what went out. -/
structure Levels where
  /-- The buffers. -/
  stack : List Level
  /-- What went out, each time. -/
  out : List Bytes

/-- Bytes are written to a stack of buffers: what goes out, and the stack afterwards. A buffer that reaches its chunk
size passes all it has on to the one below. -/
def passDown : Bytes → List Level → Bytes × List Level
  | str, [] => (str, [])
  | str, l :: ls =>
    if l.chunkSize ≠ 0 ∧ l.chunkSize ≤ (l.content ++ str).length then
      ((passDown (l.content ++ str) ls).1, { l with content := [] } :: (passDown (l.content ++ str) ls).2)
    else ([], { l with content := l.content ++ str } :: ls)

namespace Levels

variable (m : Levels)

/-- Bytes are written. -/
def write (str : Bytes) : Levels := ⟨(passDown str m.stack).2, m.out ++ [(passDown str m.stack).1]⟩

/-- One call. -/
def step : Call → Levels
  | .start chunkSize => { m with stack := ⟨chunkSize, []⟩ :: m.stack }
  | .write str => m.write str
  | .flush =>
    match m.stack with
    | [] => m
    | l :: ls =>
      let m := { m with stack := ls }.write l.content
      { m with stack := { l with content := [] } :: m.stack }
  | .clean =>
    match m.stack with
    | [] => m
    | l :: ls => { m with stack := { l with content := [] } :: ls }
  | .endTop =>
    match m.stack with
    | [] => m
    | l :: ls => { m with stack := ls }.write l.content
  | .discard => { m with stack := m.stack.tail }

/-- Many calls. -/
def run (calls : List Call) : Levels := calls.foldl step m

/-- All buffers are ended. -/
def endAll : Levels := m.run (replicate m.stack.length .endTop)

end Levels

/-! ### One handler -/

/-- A handler for a buffer: a default handler with the standard flags. -/
structure Handler.For (h : Handler) (l : Level) : Prop where
  size : h.size = l.chunkSize
  data : h.data = l.content
  cleanable : h.cleanable = true
  flushable : h.flushable = true
  removable : h.removable = true
  disabled : h.disabled = false
  func : h.func = .default
  small : l.chunkSize ≠ 0 → l.content.length < l.chunkSize
  fits : h.data.length ≤ h.capacity

variable {h : Handler} {l : Level} {hs : List Handler} {ls : List Level} {c : Context} {str : Bytes}

theorem lt_initbufSize (n : ℕ) : n < initbufSize n := by
  rw [initbufSize]
  split_ifs <;> omega

/-- The buffer is large enough for what is appended. -/
theorem Handler.length_le_grow (hfits : h.data.length ≤ h.capacity) (n : ℕ) : h.data.length + n ≤ h.grow n := by
  have hlt := lt_initbufSize (n - (h.capacity - h.data.length))
  rw [Handler.grow]
  split_ifs <;> omega

theorem handlerFor_create (level size : ℕ) : (Handler.create level size).For ⟨size, []⟩ :=
  ⟨rfl, rfl, rfl, rfl, rfl, rfl, rfl, fun hne => Nat.pos_of_ne_zero hne, Nat.zero_le _⟩

/-- A default handler that runs gives all it has. -/
theorem Handler.exec_default (hfunc : h.func = .default) (c : Context) :
    h.exec c = (if h.data = [] then .noData else .success, { h with started := true, data := [] },
      ⟨c.op, [], h.data⟩) := by
  obtain ⟨level, size, cleanable, flushable, removable, started, disabled, name, func, data, capacity⟩ := h
  obtain rfl : func = .default := hfunc
  cases data with
  | nil | cons b bs => rfl

namespace Handler.For

variable (hl : h.For l)

include hl

/-- Nothing is in the buffer any more. -/
theorem emptied : Handler.For { h with started := true, data := [] } { l with content := [] } :=
  { hl with data := rfl, small := fun hne => Nat.pos_of_ne_zero hne, fits := Nat.zero_le _ }

/-- A default handler with another operation than a write. -/
theorem op_eq {op : ℕ} (hop : op ≠ opWrite) :
    h.op ⟨op, [], []⟩ = (if l.content = [] then .noData else .success, { h with started := true, data := [] },
      ⟨op, [], l.content⟩) := by
  have hexec := Handler.exec_default hl.func ⟨op, [], []⟩
  rw [hl.data] at hexec
  rw [← hexec, Handler.op]
  exact if_neg fun hboth => hop hboth.2

theorem append_eq (str : Bytes) :
    ∃ h', h.append str = (!decide (l.chunkSize ≠ 0 ∧ l.chunkSize ≤ (l.content ++ str).length), h') ∧
      h'.data = l.content ++ str ∧ h'.level = h.level ∧
      (∀ content, (l.chunkSize ≠ 0 → content.length < l.chunkSize) → content.length ≤ (l.content ++ str).length →
        Handler.For { h' with data := content } ⟨l.chunkSize, content⟩) := by
  rw [Handler.append]
  split_ifs with hstr
  · subst hstr
    have hnot : ¬(l.chunkSize ≠ 0 ∧ l.chunkSize ≤ (l.content ++ []).length) := by
      rintro ⟨hne, hle⟩
      rw [append_nil] at hle
      exact absurd (hl.small hne) (Nat.not_lt.mpr hle)
    refine ⟨h, ?_, ?_, rfl, ?_⟩
    · rw [decide_eq_false hnot]
      rfl
    · rw [append_nil, hl.data]
    · intro content hsmall hlen
      rw [append_nil, ← hl.data] at hlen
      exact { hl with data := rfl, small := hsmall, fits := hlen.trans hl.fits }
  · refine ⟨{ h with data := h.data ++ str, capacity := h.grow str.length }, ?_, ?_, rfl, ?_⟩
    · rw [← hl.size, ← hl.data]
    · rw [← hl.data]
    · intro content hsmall hlen
      refine { hl with data := rfl, small := hsmall, fits := ?_ }
      rw [length_append, ← hl.data] at hlen
      exact hlen.trans (length_le_grow hl.fits _)

/-- A default handler that is written to, when the chunk size is reached. -/
theorem op_pass (hreach : l.chunkSize ≠ 0 ∧ l.chunkSize ≤ (l.content ++ str).length) :
    ∃ h', h.op ⟨opWrite, str, []⟩ = (.success, h', ⟨opWrite, [], l.content ++ str⟩) ∧
      h'.For { l with content := [] } ∧ h'.level = h.level := by
  obtain ⟨h₁, happend, hdata, hlevel, hfor⟩ := hl.append_eq str
  rw [decide_eq_true hreach, Bool.not_true] at happend
  have hne : h₁.data ≠ [] := by
    rw [hdata]
    rintro hnil
    rw [hnil, length_nil] at hreach
    exact hreach.1 (Nat.le_zero.mp hreach.2)
  have hempty := hfor [] (fun h => Nat.pos_of_ne_zero h) (Nat.zero_le _)
  refine ⟨{ h₁ with started := true, data := [] }, ?_, ?_, hlevel⟩
  · rw [Handler.op, happend]
    refine (if_neg fun hboth => Bool.false_ne_true hboth.1).trans ?_
    have hfunc : h₁.func = .default := hempty.func
    rw [Handler.exec_default hfunc, if_neg hne, hdata]
  · exact { hempty with data := rfl, fits := Nat.zero_le _ }

/-- A default handler that is written to, when the chunk size is not reached. -/
theorem op_keep (hreach : ¬(l.chunkSize ≠ 0 ∧ l.chunkSize ≤ (l.content ++ str).length)) :
    ∃ h', h.op ⟨opWrite, str, []⟩ = (.noData, h', ⟨opWrite, str, []⟩) ∧
      h'.For { l with content := l.content ++ str } ∧ h'.level = h.level := by
  obtain ⟨h₁, happend, hdata, hlevel, hfor⟩ := hl.append_eq str
  rw [decide_eq_false hreach, Bool.not_false] at happend
  refine ⟨h₁, ?_, ?_, hlevel⟩
  · rw [Handler.op, happend]
    exact if_pos ⟨rfl, rfl⟩
  · have hkept := hfor (l.content ++ str) (fun hne => Nat.not_le.mp fun hle => hreach ⟨hne, hle⟩) le_rfl
    rw [← hdata] at hkept ⊢
    exact hkept

end Handler.For

/-! ### The stack -/

/-- The handlers count their levels from the bottom. -/
def Counted : List Handler → Prop
  | [] => True
  | h :: hs => h.level = hs.length ∧ Counted hs

/-- Handlers for a stack of buffers. -/
def StackFor (hs : List Handler) (ls : List Level) : Prop := Forall₂ Handler.For hs ls ∧ Counted hs

theorem StackFor.length_eq (h : StackFor hs ls) : hs.length = ls.length := h.1.length_eq

theorem stackFor_cons : StackFor (h :: hs) (l :: ls) ↔ (h.For l ∧ h.level = hs.length) ∧ StackFor hs ls := by
  rw [StackFor, StackFor, forall₂_cons, Counted]
  tauto

theorem length_passDown (str : Bytes) (ls : List Level) : (passDown str ls).2.length = ls.length := by
  induction ls generalizing str with
  | nil => rfl
  | cons l ls ih =>
    rw [passDown]
    split_ifs
    · rw [length_cons, ih, length_cons]
    · rfl

/-- **The walk over the stack passes the bytes down**, by induction over the stack. -/
theorem stackApply_spec (hstack : StackFor hs ls) (hne : hs ≠ []) (str : Bytes) :
    StackFor (stackApply ⟨opWrite, str, []⟩ hs).1 (passDown str ls).2 ∧
      (stackApply ⟨opWrite, str, []⟩ hs).2.output = (passDown str ls).1 := by
  induction hs generalizing ls str with
  | nil => exact absurd rfl hne
  | cons h hs ih =>
    cases ls with
    | nil => exact absurd hstack.length_eq (Nat.succ_ne_zero _)
    | cons l ls =>
      obtain ⟨⟨hl, hlevel⟩, hrest⟩ := stackFor_cons.mp hstack
      rw [stackApply, passDown, Handler.applyOp, hl.disabled, if_neg Bool.false_ne_true]
      by_cases hreach : l.chunkSize ≠ 0 ∧ l.chunkSize ≤ (l.content ++ str).length
      · obtain ⟨h', hop, hl', hlevel'⟩ := hl.op_pass hreach
        rw [hop, if_pos hreach]
        dsimp only
        cases hs with
        | nil =>
          obtain rfl : ls = [] := length_eq_zero_iff.mp hrest.length_eq.symm
          have hzero : h'.level = 0 := hlevel'.trans hlevel
          rw [if_pos hzero]
          exact ⟨stackFor_cons.mpr ⟨⟨hl', hzero⟩, hrest⟩, rfl⟩
        | cons h₁ hs =>
          have hpos : h'.level ≠ 0 := by
            rw [hlevel', hlevel]
            exact Nat.succ_ne_zero _
          rw [if_neg hpos, Context.swap]
          obtain ⟨hbelow, hout⟩ := ih hrest (cons_ne_nil _ _) (l.content ++ str)
          refine ⟨stackFor_cons.mpr ⟨⟨hl', ?_⟩, hbelow⟩, hout⟩
          rw [hlevel', hlevel, hbelow.length_eq, length_passDown, hrest.length_eq]
      · obtain ⟨h', hop, hl', hlevel'⟩ := hl.op_keep hreach
        rw [hop, if_neg hreach]
        exact ⟨stackFor_cons.mpr ⟨⟨hl', hlevel'.trans hlevel⟩, hrest⟩, rfl⟩

theorem dispatch_spec (hstack : StackFor hs ls) (str : Bytes) :
    StackFor (dispatch opWrite str hs).1 (passDown str ls).2 ∧
      (dispatch opWrite str hs).2.output = (passDown str ls).1 := by
  match hs, hstack with
  | [], hstack =>
    obtain rfl : ls = [] := length_eq_zero_iff.mp hstack.length_eq.symm
    exact ⟨hstack, rfl⟩
  | [h], hstack =>
    obtain ⟨l, rfl⟩ := length_eq_one_iff.mp hstack.length_eq.symm
    obtain ⟨⟨hl, hlevel⟩, hrest⟩ := stackFor_cons.mp hstack
    rw [dispatch, passDown, hl.disabled, if_neg Bool.false_ne_true]
    by_cases hreach : l.chunkSize ≠ 0 ∧ l.chunkSize ≤ (l.content ++ str).length
    · obtain ⟨h', hop, hl', hlevel'⟩ := hl.op_pass hreach
      rw [hop, if_pos hreach]
      exact ⟨stackFor_cons.mpr ⟨⟨hl', hlevel'.trans hlevel⟩, hrest⟩, rfl⟩
    · obtain ⟨h', hop, hl', hlevel'⟩ := hl.op_keep hreach
      rw [hop, if_neg hreach]
      exact ⟨stackFor_cons.mpr ⟨⟨hl', hlevel'.trans hlevel⟩, hrest⟩, rfl⟩
  | h₁ :: h₂ :: hs, hstack => exact stackApply_spec hstack (cons_ne_nil _ _) str

/-! ### The layer -/

/-- The layer and the stack of buffers are in the same state, in a request that wants a body. -/
structure Simulates (s : Globals) (m : Levels) : Prop where
  stack : StackFor s.handlers m.stack
  disabled : s.disabled = false
  headersOnly : s.headersOnly = false
  sapi : s.sapi = (m.out.map ubWrite).flatten

variable {s : Globals} {m : Levels}

namespace Simulates

theorem send (h : Simulates s m) (out : Bytes) : Simulates (s.send out) { m with out := m.out ++ [out] } := by
  have hsapi : s.sapi ++ ubWrite out = ((m.out ++ [out]).map ubWrite).flatten := by
    rw [map_append, flatten_append, ← h.sapi, map_singleton, flatten_singleton]
  have hheader : s.header.disabled = false := by
    rw [header]
    split_ifs
    · exact h.disabled
    · change (s.disabled || s.headersOnly) = false
      rw [h.disabled, h.headersOnly]
      rfl
  have hhandlers : s.header.handlers = s.handlers ∧ s.header.headersOnly = s.headersOnly := by
    rw [header]
    split_ifs <;> exact ⟨rfl, rfl⟩
  rw [Globals.send]
  split_ifs with hnil hdisabled
  · refine ⟨h.stack, h.disabled, h.headersOnly, hsapi ▸ ?_⟩
    rw [hnil, ubWrite, take_nil, append_nil]
  · exact absurd (hdisabled.symm.trans hheader) (by decide)
  · refine ⟨?_, hheader, hhandlers.2.trans h.headersOnly, hsapi⟩
    rw [hhandlers.1]
    exact h.stack

/-- The layer with other handlers, and the stack with other buffers. -/
theorem withStack (h : Simulates s m) (hstack : StackFor hs ls) :
    Simulates { s with handlers := hs } { m with stack := ls } := ⟨hstack, h.disabled, h.headersOnly, h.sapi⟩

/-- **A write.** -/
theorem write (h : Simulates s m) (str : Bytes) : Simulates (s.write str) (m.write str) := by
  obtain ⟨hstack, hout⟩ := dispatch_spec h.stack str
  rw [Globals.write, h.disabled, if_neg Bool.false_ne_true, Globals.op, hout]
  exact (h.withStack hstack).send _

/-- Nothing is written. -/
theorem write_nil (h : Simulates s m) : Simulates s (m.write []) := by
  have hpass : passDown [] m.stack = ([], m.stack) := by
    have hstack := h.stack
    cases hlevels : m.stack with
    | nil => rfl
    | cons l ls =>
      rw [hlevels] at hstack
      obtain ⟨handler, hs, hl, -, -⟩ := forall₂_cons_right_iff.mp hstack.1
      rw [passDown, append_nil]
      refine if_neg ?_
      rintro ⟨hne, hle⟩
      exact absurd (hl.small hne) (Nat.not_lt.mpr hle)
  rw [Levels.write, hpass]
  refine ⟨h.stack, h.disabled, h.headersOnly, ?_⟩
  rw [map_append, flatten_append, ← h.sapi]
  exact (append_nil _).symm

/-- The stack is not empty. -/
theorem cons (h : Simulates s m) {handler : Handler} {rest : List Handler} (hs : s.handlers = handler :: rest) :
    ∃ l ls, m.stack = l :: ls ∧ handler.For l ∧ handler.level = rest.length ∧
      Simulates { s with handlers := rest } { m with stack := ls } := by
  have hstack := h.stack
  rw [hs] at hstack
  obtain ⟨l, ls, hl, hrest, hlevels⟩ := forall₂_cons_left_iff.mp hstack.1
  exact ⟨l, ls, hlevels, hl, hstack.2.1, h.withStack ⟨hrest, hstack.2.2⟩⟩

theorem nil (h : Simulates s m) (hs : s.handlers = []) : m.stack = [] := by
  have hlength := h.stack.length_eq
  rw [hs] at hlength
  exact length_eq_zero_iff.mp hlength.symm

/-- A handler goes back on the stack. -/
theorem push (h : Simulates s m) {handler : Handler} (hl : handler.For l) (hlevel : handler.level = s.handlers.length) :
    Simulates { s with handlers := handler :: s.handlers } { m with stack := l :: m.stack } :=
  h.withStack (stackFor_cons.mpr ⟨⟨hl, hlevel⟩, h.stack⟩)

theorem length_write (h : Simulates s m) (str : Bytes) : (s.write str).handlers.length = s.handlers.length := by
  rw [(h.write str).stack.length_eq, Levels.write, length_passDown, h.stack.length_eq]

end Simulates

theorem popOp_ne_write (handler : Handler) (discard : Bool) : popOp handler discard ≠ opWrite := by
  rw [popOp]
  cases handler.started <;> cases discard <;> decide

namespace Simulates

theorem flush (h : Simulates s m) : Simulates s.flush.2 (m.step .flush) := by
  rw [Globals.flush, Levels.step]
  cases hs : s.handlers with
  | nil =>
    rw [h.nil hs]
    exact h
  | cons handler rest =>
    obtain ⟨l, ls, hlevels, hl, hlevel, hbelow⟩ := h.cons hs
    rw [hlevels]
    dsimp only
    rw [hl.flushable, if_pos rfl, hl.op_eq (show opFlush ≠ opWrite by decide)]
    split_ifs with hnil
    · have hwrite := hbelow.write_nil
      rw [← hnil] at hwrite
      exact hwrite.push hl.emptied hlevel
    · exact (hbelow.write l.content).push hl.emptied (hlevel.trans (hbelow.length_write l.content).symm)

theorem clean (h : Simulates s m) : Simulates s.clean.2 (m.step .clean) := by
  rw [Globals.clean, Levels.step]
  cases hs : s.handlers with
  | nil =>
    rw [h.nil hs]
    exact h
  | cons handler rest =>
    obtain ⟨l, ls, hlevels, hl, hlevel, hbelow⟩ := h.cons hs
    rw [hlevels]
    dsimp only
    rw [hl.cleanable, if_pos rfl, hl.op_eq (show opClean ≠ opWrite by decide)]
    exact hbelow.push hl.emptied hlevel

/-- A handler is popped and what it has is written. -/
theorem stackPop (h : Simulates s m) (force : Bool) : Simulates (s.stackPop force false).2 (m.step .endTop) := by
  rw [Globals.stackPop, Levels.step]
  cases hs : s.handlers with
  | nil =>
    rw [h.nil hs]
    exact h
  | cons handler rest =>
    obtain ⟨l, ls, hlevels, hl, hlevel, hbelow⟩ := h.cons hs
    have hremovable : ¬(¬force = true ∧ ¬handler.removable = true) := fun hboth => hboth.2 hl.removable
    rw [hlevels]
    dsimp only
    rw [if_neg hremovable, hl.disabled, if_neg Bool.false_ne_true, hl.op_eq (popOp_ne_write handler false)]
    by_cases hnil : l.content = []
    · rw [if_neg fun hout => hout.1 hnil, hnil]
      exact hbelow.write_nil
    · rw [if_pos ⟨hnil, Bool.false_ne_true⟩]
      exact hbelow.write l.content

theorem discard (h : Simulates s m) : Simulates s.discard.2 (m.step .discard) := by
  rw [Globals.discard, Globals.stackPop, Levels.step]
  cases hs : s.handlers with
  | nil =>
    have hstack := h.nil hs
    rw [hstack, tail_nil, ← hstack]
    exact h
  | cons handler rest =>
    obtain ⟨l, ls, hlevels, hl, hlevel, hbelow⟩ := h.cons hs
    have hremovable : ¬(¬false = true ∧ ¬handler.removable = true) := fun hboth => hboth.2 hl.removable
    rw [hlevels, tail_cons]
    dsimp only
    rw [if_neg hremovable]
    rw [if_neg fun hboth => hboth.2 rfl]
    exact hbelow

/-- **Every call does to the layer what it does to the stack of buffers.** -/
theorem step (h : Simulates s m) (call : Call) : Simulates (s.step call) (m.step call) := by
  cases call with
  | start chunkSize => exact h.push (handlerFor_create _ _) rfl
  | write str => exact h.write str
  | flush => exact h.flush
  | clean => exact h.clean
  | endTop => exact h.stackPop false
  | discard => exact h.discard

theorem run (h : Simulates s m) (calls : List Call) : Simulates (s.run calls) (m.run calls) := by
  induction calls generalizing s m with
  | nil => exact h
  | cons call calls ih => exact ih (h.step call)

end Simulates

theorem length_step_endTop (m : Levels) : (m.step .endTop).stack.length = m.stack.length - 1 := by
  rw [Levels.step]
  cases hlevels : m.stack with
  | nil =>
    rw [hlevels]
    rfl
  | cons l ls => exact length_passDown _ _

/-- The loop ends when there are no handlers, by induction over their number. -/
theorem Simulates.endLoop (h : Simulates s m) {n : ℕ} (hn : s.handlers.length = n) :
    Simulates (endLoop n s) (m.run (replicate n .endTop)) ∧ (endLoop n s).handlers = [] := by
  induction n generalizing s m with
  | zero => exact ⟨h, length_eq_zero_iff.mp hn⟩
  | succ n ih =>
    have hne : s.handlers ≠ [] := ne_nil_of_length_eq_add_one hn
    rw [endLoop, if_neg hne]
    refine ih (h.stackPop true) ?_
    rw [(h.stackPop true).stack.length_eq, length_step_endTop, ← h.stack.length_eq, hn]
    rfl

/-- All handlers are ended. -/
theorem Simulates.endAll (h : Simulates s m) : Simulates s.endAll m.endAll ∧ s.endAll.handlers = [] := by
  rw [Globals.endAll, Levels.endAll, ← h.stack.length_eq]
  exact h.endLoop rfl

/-! ### A request that wants the header only -/

/-- The server has got nothing, and will not. -/
structure Muted (s : Globals) : Prop where
  headersOnly : s.headersOnly = true
  disabled : s.headersSent = true → s.disabled = true
  sapi : s.sapi = []

theorem Muted.withHandlers (h : Muted s) (hs : List Handler) : Muted { s with handlers := hs } :=
  ⟨h.headersOnly, h.disabled, h.sapi⟩

theorem Muted.header (h : Muted s) : Muted s.header ∧ s.header.disabled = true := by
  rw [Globals.header]
  split_ifs with hsent
  · exact ⟨h, h.disabled hsent⟩
  · have hdisabled : (s.disabled || s.headersOnly) = true := by rw [h.headersOnly, Bool.or_true]
    exact ⟨⟨h.headersOnly, fun _ => hdisabled, h.sapi⟩, hdisabled⟩

theorem Muted.write (h : Muted s) (str : Bytes) : Muted (s.write str) := by
  rw [Globals.write]
  split_ifs
  · exact h
  rw [op, send]
  obtain ⟨hheader, hdisabled⟩ := (h.withHandlers (dispatch opWrite str s.handlers).1).header
  rw [if_pos hdisabled]
  split_ifs
  · exact h.withHandlers _
  · exact hheader

theorem Muted.stackPop (h : Muted s) (force discard : Bool) : Muted (s.stackPop force discard).2 := by
  rw [Globals.stackPop]
  cases s.handlers with
  | nil => exact h
  | cons handler rest =>
    dsimp only
    generalize (if handler.disabled = true then []
      else (handler.op ⟨popOp handler discard, [], []⟩).2.2.output) = out
    split_ifs
    · exact h
    · exact (h.withHandlers rest).write out
    · exact h.withHandlers rest

theorem Muted.step (h : Muted s) (call : Call) : Muted (s.step call) := by
  cases call with
  | start chunkSize => exact h.withHandlers _
  | write str => exact h.write str
  | flush =>
    rw [Globals.step, Globals.flush]
    cases s.handlers with
    | nil => exact h
    | cons handler rest =>
      dsimp only
      split_ifs
      · exact h.withHandlers _
      · exact ((h.withHandlers rest).write _).withHandlers _
      · exact h
  | clean =>
    rw [Globals.step, Globals.clean]
    cases s.handlers with
    | nil => exact h
    | cons handler rest =>
      dsimp only
      split_ifs
      · exact h.withHandlers _
      · exact h
  | endTop => exact h.stackPop false false
  | discard => exact h.stackPop false true

theorem Muted.run (h : Muted s) (calls : List Call) : Muted (s.run calls) := by
  induction calls generalizing s with
  | nil => exact h
  | cons call calls ih => exact ih (h.step call)

theorem Muted.endLoop (h : Muted s) (n : ℕ) : Muted (endLoop n s) := by
  induction n generalizing s with
  | zero => exact h
  | succ n ih =>
    rw [endLoop]
    split_ifs
    · exact h
    · exact ih (h.stackPop true false)

/-! ### The server -/

theorem simulates_activate : Simulates (activate false) ⟨[], []⟩ :=
  ⟨⟨.nil, trivial⟩, rfl, rfl, rfl⟩

theorem endAll_sapi (calls : List Call) : ((activate false).run calls).endAll.sapi =
    (((⟨[], []⟩ : Levels).run calls).endAll.out.map ubWrite).flatten :=
  ((simulates_activate.run calls).endAll).1.sapi

/-- Nothing is cut off just when each length is an `unsigned int`. -/
theorem flatten_ubWrite_eq_iff (outs : List Bytes) :
    (outs.map ubWrite).flatten = outs.flatten ↔ ∀ out ∈ outs, out.length < 2 ^ 32 := by
  have hle : ∀ outs : List Bytes, (outs.map ubWrite).flatten.length ≤ outs.flatten.length := by
    intro outs
    induction outs with
    | nil => exact le_rfl
    | cons out outs ih =>
      simp only [map_cons, flatten_cons, length_append, ubWrite, length_take]
      omega
  induction outs with
  | nil => exact iff_of_true rfl (forall_mem_nil _)
  | cons out outs ih =>
    rw [forall_mem_cons, map_cons, flatten_cons, flatten_cons]
    constructor
    · intro h
      have hlength := congrArg length h
      have hrest := hle outs
      simp only [length_append, ubWrite, length_take] at hlength
      have hlt : out.length < 2 ^ 32 := by omega
      rw [ubWrite, Nat.mod_eq_of_lt hlt, take_length] at h
      exact ⟨hlt, ih.mp (append_cancel_left h)⟩
    · rintro ⟨hlt, h⟩
      rw [ih.mpr h, ubWrite, Nat.mod_eq_of_lt hlt, take_length]

/-- **The server gets the bytes that the stack of buffers lets out just when less than `2 ^ 32` go out each time.** For
a request that wants the header only it gets nothing, as it should. -/
theorem endAll_sapi_iff (headersOnly : Bool) (calls : List Call) :
    ((activate headersOnly).run calls).endAll.sapi =
        (if headersOnly then [] else ((⟨[], []⟩ : Levels).run calls).endAll.out.flatten) ↔
      headersOnly = true ∨ ∀ out ∈ ((⟨[], []⟩ : Levels).run calls).endAll.out, out.length < 2 ^ 32 := by
  cases headersOnly with
  | false =>
    rw [if_neg Bool.false_ne_true, endAll_sapi, flatten_ubWrite_eq_iff]
    exact (or_iff_right Bool.false_ne_true).symm
  | true =>
    have hmuted : Muted (activate true) := ⟨rfl, fun h => absurd h Bool.false_ne_true, rfl⟩
    exact iff_of_true ((hmuted.run calls).endLoop _).sapi (.inl rfl)

/-- A gigabyte is written four times into one buffer, and the server gets nothing of it. -/
theorem endAll_sapi_lost :
    let calls := .start 0 :: replicate 4 (.write (replicate (2 ^ 30) 65))
    ((activate false).run calls).endAll.sapi = [] ∧
      ((⟨[], []⟩ : Levels).run calls).endAll.out.flatten = replicate (2 ^ 32) 65 := by
  have hout (b : Bytes) : ((⟨[], []⟩ : Levels).run (.start 0 :: replicate 4 (.write b))).endAll.out =
      [[], [], [], [], b ++ b ++ b ++ b] := rfl
  dsimp only
  rw [endAll_sapi, hout]
  simp only [replicate_append_replicate, Nat.reduceAdd, Nat.reducePow]
  constructor
  · simp only [map_cons, map_nil, ubWrite, length_replicate, Nat.reducePow, Nat.mod_self, take_zero, take_nil,
      flatten_cons, flatten_nil, append_nil]
  · simp only [flatten_cons, flatten_nil, nil_append, append_nil]

-- the flush of the second buffer makes the first one reach its chunk size, and what was cleaned is lost
example : ((activate false).run [.start 3, .write (ascii "ab"), .start 0, .write (ascii "cd"), .flush,
    .write (ascii "e"), .clean, .write (ascii "f")]).endAll.sapi = ascii "abcdf" := by decide

end PhpSandbox.Output
