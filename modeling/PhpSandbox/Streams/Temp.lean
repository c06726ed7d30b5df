import PhpSandbox.Streams.Transparent

/-!
# Temporary streams

`php://temp` of `main/streams/memory.c`: the data is in memory until a write would make it as long as a threshold
(`smax`), and in a temporary file from then on.

## The model

`MemoryData` is a memory stream's own data, and `MemoryStream` the `php_stream` around it, which has no buffer
(`PHP_STREAM_FLAG_NO_BUFFER`). The stream of the temporary file is a `Buffered.Stream` with its buffer; the file takes
all bytes that are written and gives all that are asked for. Memory that `erealloc` adds is zero here; it is
overwritten before it is read. `emalloc` does not return if there is no memory. `meta` and `tmpdir` are left out.

## What is proved

`php_stream_temp_cast` takes the position over to the file, but `php_stream_temp_write` does not: the file's position is
behind the data that was copied to it. `temp_write_refines_iff` says when such a write is right, and `answers_array` is
about the runs in which every write is: the threshold is not seen then.
-/

namespace PhpSandbox.Streams.Temp

open Lib Streams.Buffered Buffered.Stream List Option

-- the inner streams, not those the plain files wrapper opens
export PhpSandbox.Streams.Buffered (Stream)

/-! ### Memory streams -/

/-- An `off_t` as a `size_t`. -/
def sizeT (z : ℤ) : ℕ := (z % 2 ^ 64).toNat

/-- `php_stream_memory_data`. -/
structure MemoryData where
  /-- `data`; `none` is `NULL`. -/
  data : Option Bytes
  fpos : ℕ
  fsize : ℕ
  /-- `mode & TEMP_STREAM_READONLY`. -/
  readonly : Bool

namespace MemoryData

/-- `emalloc` or `erealloc`. -/
def resize (data : Bytes) (n : ℕ) : Bytes := data.take n ++ replicate (n - data.length) 0

variable (ms : MemoryData)

/-- The memory grows if the bytes do not fit. -/
def grow (count : ℕ) : MemoryData :=
  let n := (ms.fpos + count) % 2 ^ 64
  if n > ms.fsize then { ms with data := some (resize (ms.data.getD []) n), fsize := n } else ms

/-- `php_stream_memory_write`. -/
def write (buf : Bytes) : ℕ × MemoryData :=
  if ms.readonly then (0, ms)
  else
    let ms := ms.grow buf.length
    match ms.data with
    | none => (0, ms)
    | some data =>
      (buf.length, { ms with
        data := some (data.take ms.fpos ++ buf ++ data.drop (ms.fpos + buf.length))
        fpos := ms.fpos + buf.length })

/-- `php_stream_memory_read`: the bytes, and whether the end is noticed. -/
def read (count : ℕ) : Bytes × Bool × MemoryData :=
  if ms.fpos = ms.fsize then ([], true, ms)
  else
    let count := if (ms.fpos + count) % 2 ^ 64 ≥ ms.fsize then ms.fsize - ms.fpos else count
    (((ms.data.getD []).drop ms.fpos).take count, false, { ms with fpos := ms.fpos + count })

/-- `php_stream_memory_seek`: whether it succeeds, `*newoffs`, and the data. -/
def seek (offset : ℤ) (whence : Whence) : Bool × ℤ × MemoryData :=
  let fail (fpos : ℕ) := (false, (-1 : ℤ), { ms with fpos := fpos })
  let go (fpos : ℤ) := (true, fpos, { ms with fpos := fpos.toNat })
  match whence with
  | .cur =>
    if offset < 0 then
      if ms.fpos < sizeT (-offset) then fail 0 else go (ms.fpos + offset)
    else if (ms.fpos + sizeT offset) % 2 ^ 64 > ms.fsize then fail ms.fsize
    else go (ms.fpos + offset)
  | .set => if ms.fsize < sizeT offset then fail ms.fsize else go offset
  | .endOfFile =>
    if offset > 0 then fail ms.fsize
    else if ms.fsize < sizeT (-offset) then fail 0
    else go (ms.fsize + offset)
  | .other => (false, ms.fpos, ms)

end MemoryData

/-- The `php_stream` of a memory stream. -/
structure MemoryStream where
  /-- `abstract`. -/
  ms : MemoryData
  position : ℤ
  eof : Bool
  chunkSize : ℕ

open MemoryStream

namespace MemoryStream

/-- `_php_stream_memory_create`, for a stream that can be written. -/
def create (chunkSize : ℕ) : MemoryStream where
  ms := ⟨none, 0, 0, false⟩
  position := 0
  eof := false
  chunkSize := chunkSize

/-- The loop of `_php_stream_write_buffer`. Every turn but the last writes something. -/
def writeLoop : ℕ → MemoryStream → Bytes → ℕ × MemoryStream
  | 0, s, _ => (0, s)
  | turns + 1, s, bs =>
    if bs = [] then (0, s)
    else
      let (justwrote, ms) := s.ms.write (bs.take s.chunkSize)
      let s := { s with ms := ms }
      if toInt justwrote > 0 then
        let (didwrite, s) := writeLoop turns { s with position := s.position + justwrote } (bs.drop justwrote)
        (justwrote + didwrite, s)
      else (0, s)

variable (s : MemoryStream)

/-- `_php_stream_write`. -/
def write (bs : Bytes) : ℕ × MemoryStream := if bs = [] then (0, s) else writeLoop bs.length s bs

/-- `_php_stream_read`: there is no buffer, and as it is not a plain file there is one turn. -/
def read (s : MemoryStream) (size : ℕ) : Bytes × MemoryStream :=
  if size = 0 then ([], s)
  else
    let (bs, atEnd, ms) := s.ms.read size
    (bs, { s with ms := ms, position := s.position + bs.length, eof := s.eof || atEnd })

/-- What `_php_stream_seek` asks of the data. -/
def seekData (offset : ℤ) : Whence → Bool × ℤ × MemoryData
  | .cur => s.ms.seek (addOff s.position offset) .set
  | whence => s.ms.seek offset whence

/-- `_php_stream_seek`. -/
def seek (offset : ℤ) (whence : Whence) : Bool × MemoryStream :=
  let (ok, newoffs, ms) := s.seekData offset whence
  (ok, { s with ms := ms, position := newoffs, eof := !ok && s.eof })

end MemoryStream

/-! ### Temporary streams -/

/-- `innerstream`. -/
inductive Inner where
  /-- A memory stream. -/
  | memory (m : MemoryStream)
  /-- The stream of the temporary file. -/
  | file (s : Stream)

/-- `php_stream_temp_data`, and what a temporary file will be like. -/
structure TempStream where
  /-- `innerstream`. -/
  inner : Inner
  smax : ℕ
  /-- The largest offset of a file. -/
  limit : ℕ
  /-- `FG(def_chunk_size)`. -/
  chunkSize : ℕ

namespace TempStream

/-- `_php_stream_temp_create`. -/
def create (smax limit chunkSize : ℕ) : TempStream where
  inner := .memory (.create chunkSize)
  smax := smax
  limit := limit
  chunkSize := chunkSize

/-- `php_stream_fopen_temporary_file`. -/
def fopenTemporaryFile (s : TempStream) : Stream := .opened [] s.limit s.chunkSize false false false true

/-- The threshold would be reached. -/
def reaches (s : TempStream) (memsize count : ℕ) : Bool := (memsize + count) % 2 ^ 64 ≥ s.smax

/-- `php_stream_temp_write`. -/
def write (s : TempStream) (buf : Bytes) : ℕ × TempStream :=
  match s.inner with
  | .memory m =>
    if s.reaches m.ms.fsize buf.length then
      let file := (s.fopenTemporaryFile.write ((m.ms.data.getD []).take m.ms.fsize) []).2
      let (n, file) := file.write buf []
      (n, { s with inner := .file file })
    else
      let (n, m) := m.write buf
      (n, { s with inner := .memory m })
  | .file file =>
    let (n, file) := file.write buf []
    (n, { s with inner := .file file })

/-- `php_stream_temp_read`. -/
def read (s : TempStream) (count : ℕ) : Bytes × TempStream :=
  match s.inner with
  | .memory m =>
    let (bs, m) := m.read count
    (bs, { s with inner := .memory m })
  | .file file =>
    let (bs, file) := file.read count []
    (bs, { s with inner := .file file })

/-- `php_stream_temp_seek`: whether it succeeds, and `*newoffs`. -/
def seek (s : TempStream) (offset : ℤ) (whence : Whence) : (Bool × ℤ) × TempStream :=
  match s.inner with
  | .memory m =>
    let (ok, m) := m.seek offset whence
    ((ok, m.position), { s with inner := .memory m })
  | .file file =>
    let (ok, file) := file.seek offset whence
    ((ok, file.tell), { s with inner := .file file })

end TempStream

/-! ### Calls -/

/-- A call of one of the three functions. -/
inductive Call where
  /-- `php_stream_temp_write`. -/
  | write (buf : Bytes)
  /-- `php_stream_temp_read`. -/
  | read (count : ℕ)
  /-- `php_stream_temp_seek`. -/
  | seek (offset : ℤ) (whence : Whence)

/-- What a call returns. -/
inductive Answer where
  /-- How many bytes were written. -/
  | count (n : ℕ)
  /-- The bytes that were read. -/
  | data (bs : Bytes)
  /-- Whether the seek succeeded, and the new position. -/
  | position (ok : Bool) (newoffs : ℤ)
  deriving DecidableEq

/-- A call on a temporary stream. -/
def TempStream.step (s : TempStream) : Call → Answer × TempStream
  | .write buf => (.count (s.write buf).1, (s.write buf).2)
  | .read count => (.data (s.read count).1, (s.read count).2)
  | .seek offset whence =>
    (.position (s.seek offset whence).1.1 (s.seek offset whence).1.2, (s.seek offset whence).2)

/-- The same call on a memory stream. -/
def MemoryStream.step (s : MemoryStream) : Call → Answer × MemoryStream
  | .write buf => (.count (s.write buf).1, (s.write buf).2)
  | .read count => (.data (s.read count).1, (s.read count).2)
  | .seek offset whence =>
    (.position (s.seek offset whence).1 (s.seek offset whence).2.position, (s.seek offset whence).2)

/-! ### A byte array with one position -/

/-- What a call does to a byte array with one position. -/
def arrayStep (f : PlainFile) : Call → Answer × PlainFile
  | .write buf => (.count buf.length, ⟨overwrite f.content f.pos buf, f.pos + buf.length⟩)
  | .read count => (.data (f.rest.take count), { f with pos := f.pos + (f.rest.take count).length })
  | .seek offset whence =>
    match f.target offset whence with
    | some t =>
      if 0 ≤ t ∧ t ≤ f.content.length then (.position true t, { f with pos := t.toNat })
      else (.position false f.pos, f)
    | none => (.position false f.pos, f)

/-- A call as the types have it: what is written has a place, the buffer for what is read fits into memory, and the
target of a seek is within the array. -/
def InRange (limit : ℕ) (f : PlainFile) : Call → Prop
  | .write buf => f.pos + buf.length ≤ limit
  | .read count => count < 2 ^ 63
  | .seek offset whence =>
    -2 ^ 63 ≤ offset ∧ offset < 2 ^ 63 ∧ ∃ t : ℕ, f.target offset whence = some (t : ℤ) ∧ t ≤ f.content.length

theorem arrayStep_seek {f : PlainFile} {offset : ℤ} {whence : Whence} {t : ℕ}
    (htarget : f.target offset whence = some (t : ℤ)) (ht : t ≤ f.content.length) :
    arrayStep f (.seek offset whence) = (.position true t, { f with pos := t }) := by
  have hin : (0 : ℤ) ≤ t ∧ (t : ℤ) ≤ f.content.length := ⟨Int.natCast_nonneg t, Int.ofNat_le.mpr ht⟩
  simp only [arrayStep, htarget, if_pos hin, Int.toNat_natCast]

/-! ### A memory stream is an array -/

section Memory

variable {limit : ℕ} {ms : MemoryData} {m : MemoryStream} {buf : Bytes}

/-- The bytes of a memory stream. -/
def MemoryData.content (ms : MemoryData) : Bytes := ms.data.getD []

/-- The array that a memory stream stands for. -/
def MemoryStream.abs (m : MemoryStream) : PlainFile := ⟨m.ms.content, m.ms.fpos⟩

/-- The fields of the data fit to each other. -/
structure MemoryData.Ok (limit : ℕ) (ms : MemoryData) : Prop where
  writable : ms.readonly = false
  fsize : ms.fsize = ms.content.length
  fpos_le : ms.fpos ≤ ms.fsize
  fsize_le : ms.fsize ≤ limit
  limit_lt : limit < 2 ^ 63

/-- A memory stream as it should be. -/
structure MemoryStream.Ok (limit : ℕ) (m : MemoryStream) : Prop where
  ms : m.ms.Ok limit
  position : m.position = m.ms.fpos
  two_le : 2 ≤ m.chunkSize
  chunk_lt : m.chunkSize < 2 ^ 31

/-- One call of `php_stream_memory_write`. -/
theorem MemoryData.Ok.write (h : ms.Ok limit) (hne : buf ≠ []) (hroom : ms.fpos + buf.length ≤ limit) :
    (ms.write buf).1 = buf.length ∧ (ms.write buf).2.Ok limit ∧
      (ms.write buf).2.content = overwrite ms.content ms.fpos buf ∧ (ms.write buf).2.fpos = ms.fpos + buf.length := by
  have hfit : (ms.fpos + buf.length) % 2 ^ 64 = ms.fpos + buf.length :=
    Nat.mod_eq_of_lt (by have := h.limit_lt; omega)
  have hsize := h.fsize
  have hpos := h.fpos_le
  have hlen : 0 < buf.length := length_pos_iff.mpr hne
  rw [overwrite, if_neg hne, Nat.sub_eq_zero_of_le (hsize ▸ hpos), replicate_zero, append_nil]
  by_cases hgrow : ms.fpos + buf.length > ms.fsize
  · -- all that is behind the position is overwritten
    have hdata : ms.grow buf.length =
        { ms with data := some (resize ms.content (ms.fpos + buf.length)), fsize := ms.fpos + buf.length } := by
      rw [grow, hfit, if_pos hgrow]
      rfl
    have hlong : ms.content.length ≤ ms.fpos + buf.length := by omega
    have hresize : resize ms.content (ms.fpos + buf.length) =
        ms.content ++ replicate (ms.fpos + buf.length - ms.content.length) 0 := by
      rw [resize, take_of_length_le hlong]
    have hwrite : ms.write buf = (buf.length,
        { data := some (ms.content.take ms.fpos ++ buf), fpos := ms.fpos + buf.length,
          fsize := ms.fpos + buf.length, readonly := false }) := by
      rw [MemoryData.write, h.writable, if_neg Bool.false_ne_true, hdata]
      simp only [hresize]
      rw [take_append_of_le_length (by omega), drop_eq_nil_of_le (by simp; omega), append_nil]
      rw [h.writable]
    rw [hwrite, drop_eq_nil_of_le hlong, append_nil]
    refine ⟨rfl, ⟨rfl, ?_, le_rfl, hroom, h.limit_lt⟩, rfl, rfl⟩
    change ms.fpos + buf.length = (ms.content.take ms.fpos ++ buf).length
    rw [length_append, length_take]
    omega
  · have hdata : ms.grow buf.length = ms := by rw [grow, hfit, if_neg hgrow]
    obtain ⟨data, hsome⟩ : ∃ data, ms.data = some data := by
      refine Option.ne_none_iff_exists'.mp fun hnone => ?_
      rw [content, hnone] at hsize
      change ms.fsize = 0 at hsize
      omega
    have hcontent : ms.content = data := by rw [content, hsome]; rfl
    have hwrite : ms.write buf = (buf.length,
        { ms with
          data := some (data.take ms.fpos ++ buf ++ data.drop (ms.fpos + buf.length))
          fpos := ms.fpos + buf.length }) := by
      rw [MemoryData.write, h.writable, if_neg Bool.false_ne_true, hdata]
      simp only [hsome]
      rw [h.writable]
    rw [hwrite, hcontent]
    rw [hcontent] at hsize
    refine ⟨rfl, ⟨h.writable, ?_, Nat.not_lt.mp hgrow, h.fsize_le, h.limit_lt⟩, rfl, rfl⟩
    change ms.fsize = (data.take ms.fpos ++ buf ++ data.drop (ms.fpos + buf.length)).length
    simp only [length_append, length_take, length_drop]
    omega

/-- All bytes are written, chunk by chunk. -/
theorem MemoryStream.Ok.writeLoop {turns : ℕ} (h : m.Ok limit) (hturns : buf.length ≤ turns)
    (hroom : m.ms.fpos + buf.length ≤ limit) :
    (writeLoop turns m buf).1 = buf.length ∧ (writeLoop turns m buf).2.Ok limit ∧
      (writeLoop turns m buf).2.abs =
        ⟨overwrite m.ms.content m.ms.fpos buf, m.ms.fpos + buf.length⟩ := by
  induction turns generalizing m buf with
  | zero =>
    obtain rfl : buf = [] := length_eq_zero_iff.mp (by omega)
    refine ⟨rfl, h, ?_⟩
    rw [overwrite_nil]
    rfl
  | succ turns ih =>
    by_cases hbuf : buf = []
    · subst hbuf
      rw [writeLoop, if_pos rfl, overwrite_nil]
      exact ⟨rfl, h, rfl⟩
    have hpos : 0 < buf.length := length_pos_iff.mpr hbuf
    have htwo := h.two_le
    have hchunk := h.chunk_lt
    have hlen : (buf.take m.chunkSize).length = min m.chunkSize buf.length := length_take
    have hne : buf.take m.chunkSize ≠ [] := length_pos_iff.mp (by omega)
    obtain ⟨hcount, hok, hcontent, hfpos⟩ := h.ms.write hne (by omega)
    generalize hw : m.ms.write (buf.take m.chunkSize) = w at hcount hok hcontent hfpos
    obtain ⟨n, ms'⟩ := w
    obtain rfl : n = (buf.take m.chunkSize).length := hcount
    have hint : toInt (buf.take m.chunkSize).length > 0 := by
      rw [toInt_eq (by omega)]
      omega
    have hok' : MemoryStream.Ok limit
        { m with ms := ms', position := m.position + (buf.take m.chunkSize).length } := by
      refine ⟨hok, ?_, htwo, hchunk⟩
      rw [hfpos, h.position]
      push_cast
      rfl
    have hdrop : buf.drop (buf.take m.chunkSize).length = buf.drop m.chunkSize := by
      rw [hlen]
      rcases Nat.le_total m.chunkSize buf.length with hle | hle
      · rw [Nat.min_eq_left hle]
      · rw [Nat.min_eq_right hle, drop_length, drop_eq_nil_of_le hle]
    have hdlen : (buf.drop m.chunkSize).length = buf.length - m.chunkSize := length_drop
    have hroom' : ms'.fpos + (buf.drop m.chunkSize).length ≤ limit := by
      change ms'.fpos = _ at hfpos
      omega
    obtain ⟨hcount', hend, habs⟩ := ih hok' (by omega) hroom'
    rw [writeLoop, if_neg hbuf, hw]
    simp only [if_pos hint, hdrop]
    refine ⟨by rw [hcount']; omega, hend, ?_⟩
    rw [habs]
    rw [hcontent, hfpos, overwrite_append, take_append_drop, hdlen, Nat.add_assoc]
    congr 2
    omega

theorem MemoryStream.Ok.write (h : m.Ok limit) (hroom : m.ms.fpos + buf.length ≤ limit) :
    (m.write buf).1 = buf.length ∧ (m.write buf).2.Ok limit ∧
      (m.write buf).2.abs = ⟨overwrite m.ms.content m.ms.fpos buf, m.ms.fpos + buf.length⟩ := by
  rw [MemoryStream.write]
  split_ifs with hbuf
  · subst hbuf
    rw [overwrite_nil]
    exact ⟨rfl, h, rfl⟩
  · exact h.writeLoop le_rfl hroom

theorem MemoryStream.Ok.read (h : m.Ok limit) {count : ℕ} (hcount : count < 2 ^ 63) :
    (m.read count).1 = m.abs.rest.take count ∧ (m.read count).2.Ok limit ∧
      (m.read count).2.abs = { m.abs with pos := m.ms.fpos + (m.abs.rest.take count).length } := by
  have hsize := h.ms.fsize
  have hpos := h.ms.fpos_le
  have hle := h.ms.fsize_le
  have hlimit := h.ms.limit_lt
  rw [MemoryStream.read]
  split_ifs with hzero
  · subst hzero
    rw [take_zero]
    exact ⟨rfl, h, rfl⟩
  by_cases hend : m.ms.fpos = m.ms.fsize
  · have hrest : m.abs.rest = [] := drop_eq_nil_of_le (hsize ▸ hend.ge)
    rw [MemoryData.read, if_pos hend, hrest, take_nil]
    refine ⟨rfl, ⟨h.ms, ?_, h.two_le, h.chunk_lt⟩, rfl⟩
    change m.position + 0 = _
    rw [Int.add_zero, h.position]
  · have hfit : (m.ms.fpos + count) % 2 ^ 64 = m.ms.fpos + count := Nat.mod_eq_of_lt (by omega)
    have hrest : m.abs.rest.length = m.ms.fsize - m.ms.fpos := by
      rw [hsize]
      exact length_drop
    have hlen : (m.abs.rest.take count).length = min count (m.ms.fsize - m.ms.fpos) := by rw [length_take, hrest]
    -- the count that `php_stream_memory_read` makes of it
    have hcount : (if m.ms.fpos + count ≥ m.ms.fsize then m.ms.fsize - m.ms.fpos else count) =
        (m.abs.rest.take count).length := by
      split_ifs <;> omega
    have htake := (prefix_iff_eq_take.mp (List.take_prefix count m.abs.rest)).symm
    rw [MemoryData.read, if_neg hend, hfit, hcount]
    refine ⟨htake, ⟨⟨h.ms.writable, hsize, ?_, hle, hlimit⟩, ?_, h.two_le, h.chunk_lt⟩, rfl⟩
    · change m.ms.fpos + (m.abs.rest.take count).length ≤ m.ms.fsize
      omega
    · change m.position + ((m.abs.rest.take _).length : ℤ) = _
      rw [htake, h.position]
      push_cast
      rfl

theorem sizeT_natCast {n : ℕ} (h : n < 2 ^ 64) : sizeT n = n := by
  unfold sizeT
  omega

/-- A seek to a place in the data. -/
theorem MemoryStream.Ok.seek (h : m.Ok limit) {offset : ℤ} {whence : Whence} {t : ℕ} (hhi : offset < 2 ^ 63)
    (htarget : m.abs.target offset whence = some (t : ℤ)) (ht : t ≤ m.abs.content.length) :
    (m.seek offset whence).1 = true ∧ (m.seek offset whence).2.position = t ∧ (m.seek offset whence).2.Ok limit ∧
      (m.seek offset whence).2.abs = { m.abs with pos := t } := by
  have hsize : m.ms.fsize = m.abs.content.length := h.ms.fsize
  have hle := h.ms.fsize_le
  have hlimit := h.ms.limit_lt
  have hmem : t < 2 ^ 64 := by omega
  have hinside : ¬m.ms.fsize < t := by omega
  have hdata : m.seekData offset whence = (true, (t : ℤ), { m.ms with fpos := t }) := by
    cases whence with
    | set =>
      obtain rfl : offset = t := some.inj htarget
      simp only [seekData, MemoryData.seek, sizeT_natCast hmem, if_neg hinside, Int.toNat_natCast]
    | cur =>
      have hsum : (m.ms.fpos : ℤ) + offset = t := some.inj htarget
      have hadd : addOff m.position offset = t := by
        rw [addOff, h.position, hsum, if_pos (by omega)]
      simp only [seekData, hadd, MemoryData.seek, sizeT_natCast hmem, if_neg hinside, Int.toNat_natCast]
    | endOfFile =>
      have hsum : (m.abs.content.length : ℤ) + offset = t := some.inj htarget
      have hneg : sizeT (-offset) = m.ms.fsize - t := by
        unfold sizeT
        omega
      have hfpos : (m.ms.fsize : ℤ) + offset = t := by rw [hsize, hsum]
      simp only [seekData, MemoryData.seek, if_neg (by omega : ¬offset > 0), hneg,
        if_neg (by omega : ¬m.ms.fsize < m.ms.fsize - t), hfpos, Int.toNat_natCast]
    | other => cases htarget
  rw [MemoryStream.seek, hdata]
  exact ⟨rfl, rfl, ⟨⟨h.ms.writable, hsize, Nat.not_lt.mp hinside, hle, hlimit⟩, rfl, h.two_le, h.chunk_lt⟩, rfl⟩

/-- A call on a memory stream is a call on its array. -/
theorem MemoryStream.Ok.step (h : m.Ok limit) {call : Call} (hcall : InRange limit m.abs call) :
    (m.step call).1 = (arrayStep m.abs call).1 ∧ (m.step call).2.Ok limit ∧
      (m.step call).2.abs = (arrayStep m.abs call).2 := by
  cases call with
  | write buf =>
    obtain ⟨hcount, hok, habs⟩ := h.write hcall
    exact ⟨congrArg Answer.count hcount, hok, habs⟩
  | read count =>
    obtain ⟨hdata, hok, habs⟩ := h.read hcall
    exact ⟨congrArg Answer.data hdata, hok, habs⟩
  | seek offset whence =>
    obtain ⟨-, hhi, t, htarget, ht⟩ := hcall
    obtain ⟨htrue, hposition, hok, habs⟩ := h.seek hhi htarget ht
    rw [arrayStep_seek htarget ht]
    refine ⟨?_, hok, habs⟩
    rw [MemoryStream.step, htrue, hposition]

end Memory

/-! ### The stream of the file is an array -/

section File

variable {file : Stream}

/-- All bytes are written. -/
theorem file_write (h : file.Ok) {buf : Bytes} (hroom : file.position + buf.length ≤ file.file.limit) :
    (file.write buf []).1 = buf.length ∧ (file.write buf []).2.Ok ∧ Stream.Kept file (file.write buf []).2 ∧
      (file.write buf []).2.abs = ⟨overwrite file.abs.content file.abs.pos buf, file.abs.pos + buf.length⟩ := by
  obtain ⟨-, hok, hkept, habs, hfull⟩ := write_wrote_all h buf []
  have hall := hfull not_mem_nil hroom
  refine ⟨hall, hok, hkept, ?_⟩
  rw [habs, hall, take_length]
  rfl

/-- A call on the file's stream, as `php_stream_temp_write` and the others make it. -/
def fileStep (file : Stream) : Call → Answer × Stream
  | .write buf => (.count (file.write buf []).1, (file.write buf []).2)
  | .read count => (.data (file.read count []).1, (file.read count []).2)
  | .seek offset whence =>
    (.position (file.seek offset whence).1 (file.seek offset whence).2.tell, (file.seek offset whence).2)

theorem fileStep_spec (h : file.Ok) (hplain : file.plain = true) {call : Call}
    (hcall : InRange file.file.limit file.abs call) :
    (fileStep file call).1 = (arrayStep file.abs call).1 ∧ (fileStep file call).2.Ok ∧
      Stream.Kept file (fileStep file call).2 ∧ (fileStep file call).2.abs = (arrayStep file.abs call).2 := by
  cases call with
  | write buf =>
    obtain ⟨hcount, hok, hkept, habs⟩ := file_write h hcall
    exact ⟨congrArg Answer.count hcount, hok, hkept, habs⟩
  | read count =>
    obtain ⟨hok, hkept, -, -, hfull, habs⟩ := step_spec h (show file.Allows (.read count []) from hcall)
    have hdata : (file.read count []).1 = file.abs.rest.take count := hfull hplain
    refine ⟨congrArg Answer.data hdata, hok, hkept, ?_⟩
    rw [hdata] at habs
    exact habs
  | seek offset whence =>
    obtain ⟨hlo, hhi, t, htarget, ht⟩ := hcall
    have htlimit : t ≤ file.file.limit := ht.trans h.length_le
    obtain ⟨hok, hkept, hsucc, hfail⟩ := seek_spec h hlo hhi (.inr ⟨t, htarget, htlimit⟩)
    have htrue : (file.seek offset whence).1 = true := by
      cases hstatus : (file.seek offset whence).1 with
      | true => rfl
      | false => exact absurd ⟨t, htarget, htlimit⟩ (hfail hstatus).1
    obtain ⟨t', htarget', -, habs⟩ := hsucc htrue
    obtain rfl : t' = t := by
      rw [htarget] at htarget'
      exact_mod_cast (some.inj htarget').symm
    have htell : (file.seek offset whence).2.tell = t' := congrArg PlainFile.pos habs
    rw [arrayStep_seek htarget ht]
    refine ⟨?_, hok, hkept, habs⟩
    rw [fileStep, htrue, htell]

end File

/-! ### A temporary stream -/

/-- A write behind all data. -/
theorem overwrite_length (content buf : Bytes) : overwrite content content.length buf = content ++ buf := by
  by_cases hnil : buf = []
  · rw [hnil, overwrite_nil, append_nil]
  · rw [overwrite_of_ne_nil hnil]
    simp [before]

namespace TempStream

variable {s : TempStream} {m : MemoryStream} {buf : Bytes}

/-- The array that a temporary stream stands for. -/
def abs (s : TempStream) : PlainFile :=
  match s.inner with
  | .memory m => m.abs
  | .file file => file.abs

/-- The stream inside is as it should be. -/
def InnerOk (limit : ℕ) : Inner → Prop
  | .memory m => m.Ok limit
  | .file file => file.Ok ∧ file.file.limit = limit ∧ file.plain = true

/-- A temporary stream as it should be. -/
structure Ok (s : TempStream) : Prop where
  inner : InnerOk s.limit s.inner
  limit_lt : s.limit < 2 ^ 63
  two_le : 2 ≤ s.chunkSize
  chunk_lt : s.chunkSize < 2 ^ 31

theorem create_ok (smax : ℕ) {limit chunkSize : ℕ} (hlimit : limit < 2 ^ 63) (htwo : 2 ≤ chunkSize)
    (hchunk : chunkSize < 2 ^ 31) : (create smax limit chunkSize).Ok :=
  ⟨⟨⟨rfl, rfl, le_rfl, Nat.zero_le _, hlimit⟩, rfl, htwo, hchunk⟩, hlimit, htwo, hchunk⟩

theorem Ok.setInner (h : s.Ok) {inner : Inner} (hinner : InnerOk s.limit inner) : Ok { s with inner := inner } :=
  ⟨hinner, h.limit_lt, h.two_le, h.chunk_lt⟩

/-- The write that moves the data to a file: what is written is behind all data. -/
theorem Ok.switch (h : s.Ok) (hm : s.inner = .memory m) (hreach : s.reaches m.ms.fsize buf.length = true)
    (hroom : m.ms.fsize + buf.length ≤ s.limit) :
    (s.write buf).1 = buf.length ∧ (s.write buf).2.Ok ∧ (s.write buf).2.limit = s.limit ∧
      (s.write buf).2.abs = ⟨m.ms.content ++ buf, m.ms.fsize + buf.length⟩ := by
  have hok : m.Ok s.limit := by
    have := h.inner
    rwa [hm] at this
  have hsize := hok.ms.fsize
  have hdata : (m.ms.data.getD []).take m.ms.fsize = m.ms.content := by
    rw [hsize]
    exact take_length
  -- the data is copied to the empty file, and then comes the write itself
  have hopened : s.fopenTemporaryFile.Ok :=
    opened_ok (Nat.zero_le _) h.limit_lt h.two_le h.chunk_lt false false false true
  have hfits : 0 + m.ms.content.length ≤ s.limit := by omega
  obtain ⟨-, hok₁, hkept₁, habs₁⟩ := file_write hopened hfits
  generalize hfile : (s.fopenTemporaryFile.write m.ms.content []).2 = file at hok₁ hkept₁ habs₁
  have habs : file.abs = ⟨m.ms.content, m.ms.fsize⟩ := by
    rw [habs₁, hsize]
    change (⟨overwrite [] (length (α := UInt8) []) m.ms.content, 0 + m.ms.content.length⟩ : PlainFile) = _
    rw [overwrite_length, Nat.zero_add, nil_append]
  have hlimit : file.file.limit = s.limit := hkept₁.limit
  have hposition : file.position = m.ms.fsize := congrArg PlainFile.pos habs
  rw [← hposition, ← hlimit] at hroom
  obtain ⟨hcount, hok₂, hkept₂, habs₂⟩ := file_write hok₁ hroom
  have hbehind := overwrite_length m.ms.content buf
  rw [← hsize] at hbehind
  rw [habs, hbehind] at habs₂
  have hwrite : s.write buf = ((file.write buf []).1, { s with inner := .file (file.write buf []).2 }) := by
    rw [write, hm]
    simp only [hreach, if_true, hdata, hfile]
  rw [hwrite]
  exact ⟨hcount, h.setInner ⟨hok₂, hkept₂.limit.trans hlimit, hkept₂.plain.trans hkept₁.plain⟩, rfl, habs₂⟩

/-- **When the write that moves the data to a file is right**: if the position is at the end of the data. -/
theorem temp_write_refines_iff (h : s.Ok) (hm : s.inner = .memory m)
    (hreach : s.reaches m.ms.fsize buf.length = true) (hroom : m.ms.fsize + buf.length ≤ s.limit) :
    ((s.step (.write buf)).1 = (arrayStep s.abs (.write buf)).1 ∧
      (s.step (.write buf)).2.abs = (arrayStep s.abs (.write buf)).2) ↔ m.ms.fpos = m.ms.fsize := by
  obtain ⟨hcount, -, -, habs⟩ := h.switch hm hreach hroom
  have hok : m.Ok s.limit := by
    have := h.inner
    rwa [hm] at this
  have harray : s.abs = m.abs := by rw [abs, hm]
  change (Answer.count (s.write buf).1 = Answer.count buf.length ∧
    (s.write buf).2.abs = ⟨overwrite s.abs.content s.abs.pos buf, s.abs.pos + buf.length⟩) ↔ _
  rw [hcount, habs, harray]
  constructor
  · rintro ⟨-, heq⟩
    have hpos : m.ms.fsize + buf.length = m.ms.fpos + buf.length := congrArg PlainFile.pos heq
    omega
  · intro hend
    refine ⟨rfl, ?_⟩
    change _ = (⟨overwrite m.ms.content m.ms.fpos buf, m.ms.fpos + buf.length⟩ : PlainFile)
    rw [hend, hok.ms.fsize, overwrite_length]

/-- A write that moves the data to a file is made at the end of the data. -/
def Carries (s : TempStream) : Call → Prop
  | .write buf =>
    match s.inner with
    | .memory m => s.reaches m.ms.fsize buf.length = true → m.ms.fpos = m.ms.fsize
    | .file _ => True
  | _ => True

/-- What a call may be. -/
def Allows (s : TempStream) (call : Call) : Prop := InRange s.limit s.abs call ∧ s.Carries call

theorem step_file {file : Stream} (hs : s.inner = .file file) (call : Call) :
    (s.step call).1 = (fileStep file call).1 ∧ (s.step call).2 = { s with inner := .file (fileStep file call).2 } := by
  cases call <;> simp only [step, write, read, seek, fileStep, hs, and_self]

theorem step_memory (hm : s.inner = .memory m) {call : Call}
    (hstay : ∀ buf, call = .write buf → s.reaches m.ms.fsize buf.length = false) :
    (s.step call).1 = (m.step call).1 ∧ (s.step call).2 = { s with inner := .memory (m.step call).2 } := by
  cases call with
  | write buf =>
    simp only [step, write, MemoryStream.step, hm, hstay buf rfl, Bool.false_eq_true, if_false, and_self]
  | read count => simp only [step, read, MemoryStream.step, hm, and_self]
  | seek offset whence => simp only [step, seek, MemoryStream.step, hm, and_self]

/-- **One call.** -/
theorem Ok.step (h : s.Ok) {call : Call} (hcall : s.Allows call) :
    (s.step call).1 = (arrayStep s.abs call).1 ∧ (s.step call).2.Ok ∧ (s.step call).2.limit = s.limit ∧
      (s.step call).2.abs = (arrayStep s.abs call).2 := by
  obtain ⟨hrange, hcarries⟩ := hcall
  have hinner := h.inner
  cases hs : s.inner with
  | file file =>
    rw [hs] at hinner
    obtain ⟨hok, hlimit, hplain⟩ := hinner
    have habs : s.abs = file.abs := by rw [abs, hs]
    rw [habs, ← hlimit] at hrange
    obtain ⟨hanswer, hok', hkept, habs'⟩ := fileStep_spec hok hplain hrange
    obtain ⟨hfst, hsnd⟩ := step_file hs call
    rw [hfst, hsnd, habs]
    exact ⟨hanswer, h.setInner ⟨hok', hkept.limit.trans hlimit, hkept.plain.trans hplain⟩, rfl, habs'⟩
  | memory m =>
    rw [hs] at hinner
    have habs : s.abs = m.abs := by rw [abs, hs]
    by_cases hstay : ∀ buf, call = .write buf → s.reaches m.ms.fsize buf.length = false
    · rw [habs] at hrange
      obtain ⟨hanswer, hok', habs'⟩ := MemoryStream.Ok.step hinner hrange
      obtain ⟨hfst, hsnd⟩ := step_memory hs hstay
      rw [hfst, hsnd, habs]
      exact ⟨hanswer, h.setInner hok', rfl, habs'⟩
    · -- the data goes to a file
      simp only [not_forall] at hstay
      obtain ⟨buf, rfl, hne⟩ := hstay
      have hreach : s.reaches m.ms.fsize buf.length = true := Bool.not_eq_false _ ▸ hne
      have hend : m.ms.fpos = m.ms.fsize := by
        have := hcarries
        simp only [Carries, hs] at this
        exact this hreach
      have hroom : m.ms.fsize + buf.length ≤ s.limit := by
        rw [habs] at hrange
        rw [← hend]
        exact hrange
      obtain ⟨-, hok', hlimit', -⟩ := h.switch hs hreach hroom
      obtain ⟨hanswer, habs'⟩ := (temp_write_refines_iff h hs hreach hroom).mpr hend
      exact ⟨hanswer, hok', hlimit', habs'⟩

/-- **The threshold is not seen**, in runs in which the data is moved to a file only by a write at its end: the answers
and the array are those of a byte array with one position, and of a memory stream. -/
theorem answers_array (smax : ℕ) {limit chunkSize : ℕ} (hlimit : limit < 2 ^ 63) (htwo : 2 ≤ chunkSize)
    (hchunk : chunkSize < 2 ^ 31) {calls : List Call}
    (hcalls : Along (fun s call => (s.step call).2) Allows (create smax limit chunkSize) calls) :
    (answers step (create smax limit chunkSize) calls = answers arrayStep ⟨[], 0⟩ calls ∧
      (run (fun s call => (s.step call).2) (create smax limit chunkSize) calls).abs =
        run (fun f call => (arrayStep f call).2) ⟨[], 0⟩ calls) ∧
    answers step (create smax limit chunkSize) calls = answers MemoryStream.step (.create chunkSize) calls ∧
      (run (fun s call => (s.step call).2) (create smax limit chunkSize) calls).abs =
        (run (fun m call => (m.step call).2) (MemoryStream.create chunkSize) calls).abs := by
  have hok := create_ok smax hlimit htwo hchunk
  constructor
  · obtain ⟨hanswers, -, habs⟩ := answers_eq (R := fun (s : TempStream) f => s.Ok ∧ s.abs = f)
      (fun s f call hR hcall => by
        obtain ⟨h, rfl⟩ := hR
        obtain ⟨hanswer, hok', -, habs'⟩ := h.step hcall
        exact ⟨hanswer, hok', habs'⟩) ⟨hok, rfl⟩ hcalls
    exact ⟨hanswers, habs⟩
  · obtain ⟨hanswers, -, -, habs⟩ := answers_eq
      (R := fun (s : TempStream) (m : MemoryStream) => s.Ok ∧ m.Ok s.limit ∧ s.abs = m.abs)
      (fun s m call hR hcall => by
        obtain ⟨h, hm, habs⟩ := hR
        obtain ⟨hanswer, hok', hlimit', habs'⟩ := h.step hcall
        have hrange := hcall.1
        rw [habs] at hrange hanswer habs'
        obtain ⟨hanswer', hm', habs''⟩ := hm.step hrange
        rw [hlimit']
        exact ⟨hanswer.trans hanswer'.symm, hok', hm', habs'.trans habs''.symm⟩) ⟨hok, hok.inner, rfl⟩ hcalls
    exact ⟨hanswers, habs⟩

/-- Three bytes, and two behind them that make it a file; all of it is read. -/
theorem answers_array_appending :
    answers step (create 4 100 8192) [.write [97, 98, 99], .write [100, 101], .seek (-4) .cur, .read 9] =
      [.count 3, .count 2, .position true 1, .data [98, 99, 100, 101]] := by
  refine (answers_array 4 (by decide) (by decide) (by decide) ?_).1.1.trans (by decide)
  refine ⟨⟨show 0 + 3 ≤ 100 by decide, ?_⟩, ⟨show 3 + 2 ≤ 100 by decide, ?_⟩,
    ⟨⟨by decide, by decide, 1, rfl, by decide⟩, trivial⟩, ⟨show 9 < 2 ^ 63 by decide, trivial⟩, trivial⟩
  · exact fun h => absurd h (by decide)
  · exact fun _ => rfl

/-- Three bytes, and two over the first of them that make it a file: they are written behind the three. -/
theorem not_array_overwriting :
    answers step (create 4 100 8192) [.write [97, 98, 99], .seek 0 .set, .write [100, 101], .seek 0 .cur] =
        [.count 3, .position true 0, .count 2, .position true 5] ∧
      answers arrayStep ⟨[], 0⟩ [.write [97, 98, 99], .seek 0 .set, .write [100, 101], .seek 0 .cur] =
        [.count 3, .position true 0, .count 2, .position true 2] ∧
      (run (fun s call => (s.step call).2) (create 4 100 8192)
        [.write [97, 98, 99], .seek 0 .set, .write [100, 101]]).abs.content = [97, 98, 99, 100, 101] ∧
      (run (fun f call => (arrayStep f call).2) ⟨[], 0⟩
        [.write [97, 98, 99], .seek 0 .set, .write [100, 101]]).content = [100, 101, 99] := by
  refine ⟨by decide +kernel, by decide, by decide +kernel, by decide⟩

end TempStream

end PhpSandbox.Streams.Temp
