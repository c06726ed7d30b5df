import PhpSandbox.Lib.ByteMemory
import Mathlib.Data.Int.Basic

/-!
# Buffered streams

`main/streams/streams.c` reads from a file in chunks and keeps what was not asked for yet in a buffer, so that the
file's own offset runs ahead of the position that the stream reports. Writes and seeks have to deal with that: a write
throws the buffer away and takes the file's offset back, a short seek forward moves within the buffer, and any other
seek goes to the file and throws the buffer away.

## The model

`ByteFile` is the file as `read`, `write` and `lseek` see it: `read` gives at least one byte if there is one but maybe
fewer than asked for, `write` takes some of the bytes or none, and `lseek` refuses offsets that are negative or beyond
the largest one. How much each call gives or takes is part of the operation (`caps`). `Stream` is `php_stream` for a
stream that can seek and has no filters. The memory of the buffer is a function from positions to bytes.
-/

namespace PhpSandbox.Streams.Buffered

open Lib

/-! ### The file -/

/-- The last argument of `lseek`. -/
inductive Whence where
  /-- `SEEK_SET`. -/
  | set
  /-- `SEEK_CUR`. -/
  | cur
  /-- `SEEK_END`. -/
  | endOfFile
  /-- Any other number. -/
  | other

/-- A file that is open. -/
structure ByteFile where
  /-- Its bytes. -/
  content : Bytes
  /-- Where the next `read` or `write` begins. -/
  offset : ℕ
  /-- The largest offset there is. -/
  limit : ℕ

/-- The bytes after `bs` are written at `pos`; a gap is filled with zeros, and nothing is written if `bs` is empty. -/
def overwrite (content : Bytes) (pos : ℕ) (bs : Bytes) : Bytes :=
  if bs = [] then content
  else content.take pos ++ List.replicate (pos - content.length) 0 ++ bs ++ content.drop (pos + bs.length)

namespace ByteFile

variable (f : ByteFile)

/-- The bytes from the offset on. -/
def rest : Bytes := f.content.drop f.offset

/-- `read`: at most `count` bytes, and at most `cap + 1`. -/
def read (count cap : ℕ) : Bytes × ByteFile :=
  let bs := f.rest.take (min count (cap + 1))
  (bs, { f with offset := f.offset + bs.length })

/-- `write`: at most `cap` bytes, and none beyond the largest offset. -/
def write (bs : Bytes) (cap : ℕ) : ℕ × ByteFile :=
  let n := min (min bs.length cap) (f.limit - f.offset)
  (n, { f with
    content := overwrite f.content f.offset (bs.take n)
    offset := f.offset + n })

/-- `lseek`: the new offset, or `none` if it fails. -/
def seek (offset : ℤ) (whence : Whence) : Option (ℕ × ByteFile) :=
  let go (target : ℤ) :=
    if 0 ≤ target ∧ target ≤ f.limit then some (target.toNat, { f with offset := target.toNat }) else none
  match whence with
  | .set => go offset
  | .cur => go (f.offset + offset)
  | .endOfFile => go (f.content.length + offset)
  | .other => none

end ByteFile

/-! ### The stream -/

/-- `php_stream`, for a stream that can seek and has no filters. -/
structure Stream where
  /-- The file under the stream. -/
  file : ByteFile
  readbuf : ℕ → UInt8
  readbuflen : ℕ
  readpos : ℕ
  writepos : ℕ
  position : ℕ
  eof : Bool
  chunkSize : ℕ
  /-- `PHP_STREAM_FLAG_NO_BUFFER`. -/
  noBuffer : Bool
  /-- `PHP_STREAM_FLAG_DETECT_EOL`. -/
  detectEol : Bool
  /-- `PHP_STREAM_FLAG_EOL_MAC`. -/
  eolMac : Bool
  /-- `wrapper == &php_plain_files_wrapper`. -/
  plain : Bool

/-- A `size_t` as an `off_t`. -/
def offT (n : ℕ) : ℤ := if n < 2 ^ 63 then n else n - 2 ^ 64

/-- The sum of two `off_t`. -/
def addOff (a b : ℤ) : ℤ := if a + b < 2 ^ 63 then a + b else a + b - 2 ^ 64

/-- A `size_t` as an `int`. -/
def toInt (n : ℕ) : ℤ := if n % 2 ^ 32 < 2 ^ 31 then n % 2 ^ 32 else n % 2 ^ 32 - 2 ^ 32

/-- `'\r'`. -/
def cr : UInt8 := 13

/-- `'\n'`. -/
def lf : UInt8 := 10

namespace Stream

/-- A stream over a file that was just opened. -/
def opened (content : Bytes) (limit chunkSize : ℕ) (noBuffer detectEol eolMac plain : Bool) : Stream where
  file := ⟨content, 0, limit⟩
  readbuf := fun _ => 0
  readbuflen := 0
  readpos := 0
  writepos := 0
  position := 0
  eof := false
  chunkSize := chunkSize
  noBuffer := noBuffer
  detectEol := detectEol
  eolMac := eolMac
  plain := plain

variable (s : Stream)

/-- How much is in the buffer. -/
def avail : ℕ := s.writepos - s.readpos

/-- What is in the buffer. -/
def buffered : Bytes := slice s.readbuf s.readpos s.avail

/-- `ops->read`: the end of the file is noticed when nothing is read. -/
def opsRead (count cap : ℕ) : Bytes × Stream :=
  let (bs, file) := s.file.read count cap
  (bs, { s with file := file, eof := bs.isEmpty })

/-- What is left in the buffer moves to its beginning if there is not room for another chunk. -/
def compact : Stream :=
  if s.readbuflen ≠ 0 ∧ s.readbuflen - s.writepos < s.chunkSize then
    { s with
      readbuf := blit s.readbuf 0 (slice s.readbuf s.readpos (s.readbuflen - s.readpos))
      writepos := s.writepos - s.readpos
      readpos := 0 }
  else s

/-- The buffer grows if there is not room for another chunk. -/
def enlarge : Stream :=
  if s.readbuflen - s.writepos < s.chunkSize then { s with readbuflen := s.readbuflen + s.chunkSize } else s

variable (size : ℕ) (caps : List ℕ)

/-- `_php_stream_fill_read_buffer`. -/
def fillReadBuffer : Stream × List ℕ :=
  if (s.avail : ℤ) < offT size then
    let s := s.compact.enlarge
    let count := s.readbuflen - s.writepos
    let (bs, s) := s.opsRead count (caps.headD count)
    ({ s with
      readbuf := blit s.readbuf s.writepos bs
      writepos := s.writepos + bs.length }, caps.tail)
  else (s, caps)

/-- Bytes are taken from the buffer. -/
def takeBuffered : Bytes × Stream :=
  let toread := min s.avail size
  (slice s.readbuf s.readpos toread, { s with readpos := s.readpos + toread })

/-- `_php_stream_read` when the buffer is empty: from the file itself, or from the buffer after filling it. -/
def readMore : Bytes × Stream × List ℕ :=
  if s.noBuffer ∨ s.chunkSize = 1 then
    let (bs, s) := s.opsRead size (caps.headD size)
    (bs, s, caps.tail)
  else
    let (s, caps) := s.fillReadBuffer size caps
    let (bs, s) := s.takeBuffered size
    (bs, s, caps)

/-- The loop of `_php_stream_read`. Every turn but the last reads something, so that `size` turns are enough. -/
def readLoop : ℕ → Stream → ℕ → List ℕ → Bytes × Stream
  | 0, s, _, _ => ([], s)
  | turns + 1, s, size, caps =>
    if size = 0 then ([], s)
    else
      let (first, s) := s.takeBuffered size
      let size := size - first.length
      if size = 0 then (first, s)
      else
        let (more, s, caps) := s.readMore size caps
        if more = [] ∨ ¬ s.plain then (first ++ more, s)
        else
          let (others, s) := readLoop turns s (size - more.length) caps
          (first ++ more ++ others, s)

/-- `_php_stream_read`. -/
def read : Bytes × Stream :=
  let (bs, s) := readLoop size s size caps
  (bs, { s with position := s.position + bs.length })

/-- `php_stream_locate_eol` in the buffer: where the line ends, and the flags after that. -/
def locateEol : Option ℕ × Stream :=
  let c := s.buffered.findIdx? (· = cr)
  let l := s.buffered.findIdx? (· = lf)
  if s.detectEol then
    match c, l with
    | some i, none => (some i, { s with detectEol := false, eolMac := true })
    | some i, some j =>
      if j ≠ i + 1 ∧ ¬ j < i then (some i, { s with detectEol := false, eolMac := true })
      else (some j, { s with detectEol := false })
    | none, some j => (some j, { s with detectEol := false })
    | none, none => (none, s)
  else if s.eolMac then (c, s)
  else (l, s)

/-- How much of the buffer goes into the line, and whether the line is done; `maxlen` is `none` if the caller's buffer
grows. -/
def lineChunk (maxlen : Option ℕ) (eol : Option ℕ) : ℕ × Bool :=
  let (cpysz, done) := match eol with
    | some i => (i + 1, true)
    | none => (s.avail, false)
  match maxlen with
  | none => (cpysz, done)
  | some maxlen => if cpysz ≥ maxlen - 1 then (maxlen - 1, true) else (cpysz, done)

/-- How much `_php_stream_get_line` wants in the buffer. -/
def lineToRead : Option ℕ → ℕ
  | none => s.chunkSize
  | some maxlen => min (maxlen - 1) s.chunkSize

/-- The loop of `_php_stream_get_line`; it takes at most two turns for each byte that is left. -/
def getLineLoop : ℕ → Stream → Option ℕ → List ℕ → Bytes × Stream
  | 0, s, _, _ => ([], s)
  | turns + 1, s, maxlen, caps =>
    if s.avail > 0 then
      let (eol, s) := s.locateEol
      let (cpysz, done) := s.lineChunk maxlen eol
      let first := slice s.readbuf s.readpos cpysz
      let s := { s with position := s.position + cpysz, readpos := s.readpos + cpysz }
      if done then (first, s)
      else
        let (others, s) := getLineLoop turns s (maxlen.map (· - cpysz)) caps
        (first ++ others, s)
    else if s.eof then ([], s)
    else
      let (s, caps) := s.fillReadBuffer (s.lineToRead maxlen) caps
      if s.avail = 0 then ([], s) else getLineLoop turns s maxlen caps

/-- `_php_stream_get_line`; `none` is `NULL`. -/
def getLine (maxlen : Option ℕ) (caps : List ℕ) : Option Bytes × Stream :=
  if maxlen = some 0 then (none, s)
  else
    let (bs, s) := getLineLoop (2 * (s.avail + s.file.rest.length) + 2) s maxlen caps
    (if bs = [] then none else some bs, s)

/-- The file's offset is taken back to the position, and the buffer is thrown away. -/
def resync : Stream :=
  if s.readpos ≠ s.writepos then
    match s.file.seek s.position .set with
    | some (pos, file) => { s with readpos := 0, writepos := 0, position := pos, file := file }
    | none => { s with readpos := 0, writepos := 0 }
  else s

/-- The loop of `_php_stream_write_buffer`. Every turn but the last writes something, so that `count` turns are
enough. -/
def writeLoop : ℕ → Stream → Bytes → List ℕ → ℕ × Stream
  | 0, s, _, _ => (0, s)
  | turns + 1, s, bs, caps =>
    if bs = [] then (0, s)
    else
      let piece := bs.take s.chunkSize
      let (justwrote, file) := s.file.write piece (caps.headD piece.length)
      let s := { s with file := file }
      if toInt justwrote > 0 then
        let s := { s with position := s.position + justwrote }
        let (didwrite, s) := writeLoop turns s (bs.drop justwrote) caps.tail
        (justwrote + didwrite, s)
      else (0, s)

/-- `_php_stream_write`. -/
def write (bs : Bytes) (caps : List ℕ) : ℕ × Stream :=
  if bs = [] then (0, s) else writeLoop bs.length s.resync bs caps

variable (offset : ℤ)

/-- A seek that ends within the buffer: how far it moves. -/
def seekBuffered (whence : Whence) : Option ℕ :=
  if s.noBuffer then none
  else
    match whence with
    | .cur => if offset > 0 ∧ offset ≤ s.avail then some offset.toNat else none
    | .set =>
      if offset > s.position ∧ offset ≤ s.position + s.avail then some (offset - s.position).toNat else none
    | _ => none

/-- What `_php_stream_seek` asks of the file. -/
def seekFile : Whence → Option (ℕ × ByteFile)
  | .cur => s.file.seek (addOff s.position offset) .set
  | whence => s.file.seek offset whence

/-- `_php_stream_seek`; `true` is `0`. -/
def seek (whence : Whence) : Bool × Stream :=
  match s.seekBuffered offset whence with
  | some n => (true, { s with readpos := s.readpos + n, position := s.position + n, eof := false })
  | none =>
    match s.seekFile offset whence with
    | some (pos, file) =>
      (true, { s with file := file, position := pos, eof := false, readpos := 0, writepos := 0 })
    | none => (false, { s with readpos := 0, writepos := 0 })

/-- `_php_stream_tell`. -/
def tell : ℕ := s.position

end Stream

/-! ### Operations -/

/-- An operation, with what the file does in it. -/
inductive Call where
  /-- `_php_stream_read`. -/
  | read (size : ℕ) (caps : List ℕ)
  /-- `_php_stream_get_line`, into a buffer of `maxlen` bytes or one that grows. -/
  | getLine (maxlen : Option ℕ) (caps : List ℕ)
  /-- `_php_stream_write`. -/
  | write (bs : Bytes) (caps : List ℕ)
  /-- `_php_stream_seek`. -/
  | seek (offset : ℤ) (whence : Whence)
  /-- `_php_stream_tell`. -/
  | tell

/-- What an operation returns. -/
inductive Answer where
  /-- The bytes that were read. -/
  | data (bs : Bytes)
  /-- The line, or `NULL`. -/
  | line (l : Option Bytes)
  /-- How many bytes were written. -/
  | count (n : ℕ)
  /-- Whether the seek succeeded. -/
  | status (ok : Bool)
  /-- The position. -/
  | position (n : ℕ)

/-- One operation. -/
def Stream.step (s : Stream) : Call → Answer × Stream
  | .read size caps => ((s.read size caps).1 |> .data, (s.read size caps).2)
  | .getLine maxlen caps => ((s.getLine maxlen caps).1 |> .line, (s.getLine maxlen caps).2)
  | .write bs caps => ((s.write bs caps).1 |> .count, (s.write bs caps).2)
  | .seek offset whence => ((s.seek offset whence).1 |> .status, (s.seek offset whence).2)
  | .tell => (.position s.tell, s)

end PhpSandbox.Streams.Buffered
