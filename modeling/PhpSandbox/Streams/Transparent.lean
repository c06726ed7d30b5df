import PhpSandbox.Streams.Buffered
import PhpSandbox.Lib.Runs

/-!
# Buffering is transparent

A stream should behave like a file with one position and no buffer. `PlainFile` is that file, and `PlainFile.Does`
says what each operation does to it and returns. A stream is such a file as long as the file under it stands ahead of
the stream's position by what is in the buffer, and the buffer holds what the file has there (`Stream.OkAt`).

A seek that the file refuses breaks this: the buffer is thrown away, but the file's offset stays where it is, and the
bytes that were in the buffer are skipped. The theorem is therefore about runs in which a seek fails only when the
buffer is empty (`Stream.transparent_along`).

Lines do not depend on how the data arrives, unless the line ends are still to be detected and the first one is CR LF
(`Stream.getLines_cuts_iff`): a CR at the end of what was read is then taken for a line end, even if LF is next.
-/

namespace PhpSandbox.Streams.Buffered

open Lib List Option

/-! ### A file without a buffer -/

/-- A file and the one position in it. -/
structure PlainFile where
  /-- The bytes of the file. -/
  content : Bytes
  /-- The position. -/
  pos : ℕ

open PlainFile

/-- Where the first line of some bytes ends. -/
def lineEnd (eol : UInt8) (bs : Bytes) : ℕ :=
  match bs.findIdx? (· = eol) with
  | some i => i + 1
  | none => bs.length

/-- How much of some bytes is their first line, in a buffer of `maxlen` bytes. -/
def lineLength (eol : UInt8) (bs : Bytes) : Option ℕ → ℕ
  | none => lineEnd eol bs
  | some maxlen => min (lineEnd eol bs) (maxlen - 1)

namespace PlainFile

variable (f : PlainFile)

/-- What is left to read. -/
def rest : Bytes := f.content.drop f.pos

/-- The line at the position: up to its end, and at most `maxlen - 1` bytes. -/
def line (eol : UInt8) (maxlen : Option ℕ) : Bytes := f.rest.take (lineLength eol f.rest maxlen)

/-- Where a seek goes. -/
def target (offset : ℤ) : Whence → Option ℤ
  | .set => some offset
  | .cur => some (f.pos + offset)
  | .endOfFile => some (f.content.length + offset)
  | .other => none

/-- A seek goes to an offset that there is. -/
def CanSeek (limit : ℕ) (f : PlainFile) (offset : ℤ) (whence : Whence) : Prop :=
  ∃ t : ℕ, f.target offset whence = some (t : ℤ) ∧ t ≤ limit

/-- What an operation may return, and the file after it. A read returns what is there, at least one byte if there is
one; for a plain file it returns all that was asked for. A write writes all, unless a `write` takes nothing. A seek
that fails changes nothing. -/
def Does (limit : ℕ) (plain : Bool) (eol : UInt8) (f : PlainFile) : Call → Answer → PlainFile → Prop
  | .read size _, .data bs, f' =>
    (∃ k ≤ size, bs = f.rest.take k) ∧ (0 < size → f.rest ≠ [] → bs ≠ []) ∧ (plain = true → bs = f.rest.take size) ∧
      f' = { f with pos := f.pos + bs.length }
  | .getLine maxlen _, .line l, f' =>
    l = (if f.line eol maxlen = [] then none else some (f.line eol maxlen)) ∧
      f' = { f with pos := f.pos + (f.line eol maxlen).length }
  | .write bs caps, .count n, f' =>
    n ≤ bs.length ∧ (0 ∉ caps → f.pos + bs.length ≤ limit → n = bs.length) ∧
      f' = { content := overwrite f.content f.pos (bs.take n), pos := f.pos + n }
  | .seek offset whence, .status ok, f' =>
    (ok = true → ∃ t : ℕ, f.target offset whence = some (t : ℤ) ∧ t ≤ limit ∧ f' = { f with pos := t }) ∧
      (ok = false → ¬ f.CanSeek limit offset whence ∧ f' = f)
  | .tell, .position n, f' => n = f.pos ∧ f' = f
  | _, _, _ => False

end PlainFile

/-! ### The invariant -/

variable (s : Stream)

/-- The byte that ends a line. -/
def Stream.eolByte : UInt8 := if s.eolMac then cr else lf

/-- The file that a stream stands for. -/
def Stream.abs : PlainFile := ⟨s.file.content, s.position⟩

/-- The buffer fits to the file, if the position is `p`. -/
structure Stream.OkAt (s : Stream) (p : ℕ) : Prop where
  order : s.readpos ≤ s.writepos
  room : s.writepos ≤ s.readbuflen
  /-- The file is ahead by what is in the buffer. -/
  ahead : s.file.offset = p + s.avail
  /-- The buffer holds what the file has from the position on. -/
  data : s.file.content.drop p = s.buffered ++ s.file.rest
  /-- If the end of the file was noticed, the position is there. -/
  atEnd : s.eof = true → s.avail = 0 ∧ s.file.rest = []
  offset_le : s.file.offset ≤ s.file.limit
  length_le : s.file.content.length ≤ s.file.limit
  limit_lt : s.file.limit < 2 ^ 63
  two_le : 2 ≤ s.chunkSize
  chunk_lt : s.chunkSize < 2 ^ 31

/-- The buffer fits to the file. -/
def Stream.Ok : Prop := s.OkAt s.position

/-- What reading does not change. -/
structure Stream.Same (s s' : Stream) : Prop where
  content : s'.file.content = s.file.content
  limit : s'.file.limit = s.file.limit
  position : s'.position = s.position
  chunkSize : s'.chunkSize = s.chunkSize
  noBuffer : s'.noBuffer = s.noBuffer
  detectEol : s'.detectEol = s.detectEol
  eolMac : s'.eolMac = s.eolMac
  plain : s'.plain = s.plain

namespace Stream

theorem Same.refl (s : Stream) : Same s s := ⟨rfl, rfl, rfl, rfl, rfl, rfl, rfl, rfl⟩

variable {s' s'' : Stream} {n : ℕ}

theorem Same.trans {s : Stream} (h : Same s s') (h' : Same s' s'') : Same s s'' :=
  ⟨h'.content.trans h.content, h'.limit.trans h.limit, h'.position.trans h.position, h'.chunkSize.trans h.chunkSize,
    h'.noBuffer.trans h.noBuffer, h'.detectEol.trans h.detectEol, h'.eolMac.trans h.eolMac, h'.plain.trans h.plain⟩

theorem Same.setPosition {s : Stream} (h : Same s s') (q : ℕ) :
    Same { s with position := q } { s' with position := q } :=
  ⟨h.content, h.limit, rfl, h.chunkSize, h.noBuffer, h.detectEol, h.eolMac, h.plain⟩

theorem offT_eq (h : n < 2 ^ 63) : offT n = n := if_pos h

theorem toInt_eq (h : n < 2 ^ 31) : toInt n = n := by
  rw [toInt, if_pos (by omega)]
  omega

@[simp] theorem length_buffered (s : Stream) : s.buffered.length = s.avail := length_slice _ _ _

variable {s : Stream} {p : ℕ}

theorem buffered_eq_nil (h0 : s.avail = 0) : s.buffered = [] := by
  rw [buffered, h0, slice_zero]

theorem OkAt.of_avail (h : s.OkAt p) (h0 : s.avail = 0) :
    s.file.offset = p ∧ s.file.content.drop p = s.file.rest := by
  rw [h.ahead, h0, h.data, buffered_eq_nil h0]
  exact ⟨rfl, rfl⟩

/-! ### Filling the buffer -/

theorem compact_okAt (h : s.OkAt p) : s.compact.OkAt p ∧ Same s s.compact ∧ s.compact.buffered = s.buffered ∧
    s.compact.file = s.file ∧ s.compact.eof = s.eof := by
  rw [compact]
  split_ifs with hc
  · have horder := h.order
    have hroom := h.room
    have havail : s.writepos - s.readpos - 0 = s.avail := by
      rw [avail]
      omega
    have hbuf : slice (blit s.readbuf 0 (slice s.readbuf s.readpos (s.readbuflen - s.readpos))) 0
        (s.writepos - s.readpos - 0) = s.buffered := by
      rw [slice_blit_slice _ _ _ (by omega), buffered, havail]
    refine ⟨{ h with order := Nat.zero_le _, room := ?_, ahead := ?_, data := ?_, atEnd := ?_ },
      ⟨rfl, rfl, rfl, rfl, rfl, rfl, rfl, rfl⟩, hbuf, rfl, rfl⟩
    · show s.writepos - s.readpos ≤ s.readbuflen
      omega
    · exact h.ahead.trans (by rw [← havail]; rfl)
    · exact h.data.trans (by rw [← hbuf]; rfl)
    · intro heof
      obtain ⟨h0, hrest⟩ := h.atEnd heof
      exact ⟨havail.trans h0, hrest⟩
  · exact ⟨h, .refl s, rfl, rfl, rfl⟩

theorem enlarge_okAt (h : s.OkAt p) : s.enlarge.OkAt p ∧ Same s s.enlarge ∧ s.enlarge.buffered = s.buffered ∧
    s.enlarge.file = s.file ∧ s.enlarge.eof = s.eof ∧ s.enlarge.writepos + 2 ≤ s.enlarge.readbuflen := by
  have hroom := h.room
  have htwo := h.two_le
  rw [enlarge]
  split_ifs with hc
  · refine ⟨{ h with room := ?_ }, ⟨rfl, rfl, rfl, rfl, rfl, rfl, rfl, rfl⟩, rfl, rfl, rfl, ?_⟩
    · show s.writepos ≤ s.readbuflen + s.chunkSize
      omega
    · show s.writepos + 2 ≤ s.readbuflen + s.chunkSize
      omega
  · exact ⟨h, .refl s, rfl, rfl, rfl, by omega⟩

variable {bs bs' : Bytes} {size : ℕ} {f : ByteFile}

/-- A `read` at the file's offset. -/
theorem file_read {count cap : ℕ} {f' : ByteFile} (h : f.read count cap = (bs, f')) :
    f.rest = bs ++ f'.rest ∧ f'.offset = f.offset + bs.length ∧ f'.content = f.content ∧ f'.limit = f.limit ∧
      bs.length ≤ count ∧ (0 < count → bs = [] → f.rest = []) := by
  rw [ByteFile.read] at h
  cases h
  refine ⟨?_, rfl, rfl, rfl, ?_, ?_⟩
  · rw [ByteFile.rest, ByteFile.rest, ← drop_drop]
    exact (prefix_iff_eq_append.mp (List.take_prefix _ _)).symm
  · rw [length_take]
    omega
  · intro hcount hnil
    rcases take_eq_nil_iff.1 hnil with h0 | h0
    · omega
    · exact h0

theorem rest_length_le (h : f.content.length ≤ f.limit) (ho : f.offset ≤ f.limit) :
    f.offset + f.rest.length ≤ f.limit := by
  rw [ByteFile.rest, length_drop]
  omega

theorem take_append_of_le (h : bs.length ≤ n) : (bs ++ bs').take n = bs ++ bs'.take (n - bs.length) := by
  rw [take_append, take_of_length_le h]

/-- What a part of `_php_stream_read` does: `bs` is read from `p` on. -/
structure Reads (s : Stream) (p : ℕ) (bs : Bytes) (s' : Stream) : Prop where
  okAt : s'.OkAt (p + bs.length)
  same : Same s s'
  data : bs <+: s.file.content.drop p

theorem Reads.nil (h : s.OkAt p) : Reads s p [] s := ⟨h, .refl s, nil_prefix⟩

theorem Reads.rest (h : Reads s p bs s') : s.file.content.drop p = bs ++ s'.file.content.drop (p + bs.length) := by
  obtain ⟨r, hr⟩ := h.data
  rw [h.same.content, ← drop_drop, ← hr, drop_left]

theorem Reads.append (h : Reads s p bs s') (h' : Reads s' (p + bs.length) bs' s'') : Reads s p (bs ++ bs') s'' := by
  refine ⟨?_, h.same.trans h'.same, ?_⟩
  · rw [length_append, ← Nat.add_assoc]
    exact h'.okAt
  · rw [h.rest]
    exact prefix_append_right_inj bs |>.2 h'.data

/-- A read from the file itself, past an empty buffer. -/
theorem opsRead_reads (h : s.OkAt p) (h0 : s.avail = 0) (hsize : 0 < size) (cap : ℕ) :
    Reads s p (s.opsRead size cap).1 (s.opsRead size cap).2 ∧ (s.opsRead size cap).1.length ≤ size ∧
      ((s.opsRead size cap).1 = [] → s.file.content.drop p = []) := by
  have hread : s.file.read size cap = ((s.opsRead size cap).1, (s.opsRead size cap).2.file) := rfl
  obtain ⟨hrest, hoff, hcontent, hlimit, hlen, hnil⟩ := file_read hread
  set bs := (s.opsRead size cap).1
  set s' := (s.opsRead size cap).2
  obtain ⟨hahead, hdrop⟩ := h.of_avail h0
  have hbound := rest_length_le h.length_le h.offset_le
  rw [hrest, length_append] at hbound
  refine ⟨⟨⟨h.order, h.room, ?_, ?_, ?_, ?_, ?_, ?_, h.two_le, h.chunk_lt⟩,
    ⟨hcontent, hlimit, rfl, rfl, rfl, rfl, rfl, rfl⟩, ?_⟩, hlen, ?_⟩
  · show s'.file.offset = p + bs.length + s.avail
    rw [hoff, hahead, h0]
    rfl
  · show s'.file.content.drop (p + bs.length) = s.buffered ++ s'.file.rest
    rw [hcontent, ← drop_drop, hdrop, hrest, drop_left, buffered_eq_nil h0, nil_append]
  · intro heof
    have hbs : bs = [] := isEmpty_iff.1 heof
    refine ⟨h0, ?_⟩
    rw [hbs, nil_append] at hrest
    rw [← hrest]
    exact hnil hsize hbs
  · rw [hoff, hlimit]
    omega
  · rw [hcontent, hlimit]
    exact h.length_le
  · rw [hlimit]
    exact h.limit_lt
  · rw [hdrop, hrest]
    exact prefix_append _ _
  · intro hbs
    rw [hdrop]
    exact hnil hsize hbs

/-- Bytes of the file come into the buffer. -/
theorem load_okAt (h : s.OkAt p) (cap : ℕ) (hroom : s.writepos < s.readbuflen) :
    let r := s.opsRead (s.readbuflen - s.writepos) cap
    let s' := { r.2 with readbuf := blit r.2.readbuf r.2.writepos r.1, writepos := r.2.writepos + r.1.length }
    s.avail = 0 → s'.OkAt p ∧ Same s s' ∧ s'.buffered = r.1 := by
  intro r s' h0
  obtain ⟨hreads, hlen, -⟩ : Reads s p r.1 r.2 ∧ r.1.length ≤ _ ∧ _ := opsRead_reads h h0 (by omega) cap
  have hok := hreads.okAt
  have horder := h.order
  have hpos : s.readpos = s.writepos := by
    rw [avail] at h0
    omega
  have havail : s'.avail = r.1.length := by
    show s.writepos + r.1.length - s.readpos = r.1.length
    omega
  have hbuf : s'.buffered = r.1 := by
    rw [buffered, havail]
    show slice (blit s.readbuf s.writepos r.1) s.readpos r.1.length = r.1
    rw [hpos, slice_blit]
  have hrest : s.file.content.drop p = r.1 ++ r.2.file.rest := by rw [hreads.rest, (hok.of_avail h0).2]
  refine ⟨⟨?_, ?_, ?_, ?_, ?_, hok.offset_le, hok.length_le, hok.limit_lt, h.two_le, h.chunk_lt⟩,
    ⟨hreads.same.content, hreads.same.limit, rfl, rfl, rfl, rfl, rfl, rfl⟩, hbuf⟩
  · show s.readpos ≤ s.writepos + r.1.length
    omega
  · show s.writepos + r.1.length ≤ s.readbuflen
    omega
  · rw [havail]
    exact (hok.of_avail h0).1
  · rw [hbuf, ← hrest]
    exact congrArg (drop p) hreads.same.content
  · intro heof
    rw [havail, show r.1 = [] from isEmpty_iff.1 heof]
    exact ⟨rfl, (hok.atEnd heof).2⟩

/-- An empty buffer is filled by one `read` of at least two bytes. -/
theorem fillReadBuffer_okAt (h : s.OkAt p) (h0 : s.avail = 0) (hsize : 0 < size) (hfit : size < 2 ^ 63)
    (caps : List ℕ) :
    (s.fillReadBuffer size caps).1.OkAt p ∧ Same s (s.fillReadBuffer size caps).1 ∧
      (s.fillReadBuffer size caps).1.eof = (s.fillReadBuffer size caps).1.buffered.isEmpty ∧
      (s.fillReadBuffer size caps).2 = caps.tail ∧ ∃ count, 2 ≤ count ∧
        (s.fillReadBuffer size caps).1.buffered = s.file.rest.take (min count (caps.headD count + 1)) := by
  obtain ⟨hc, hsame, hbufc, hfilec, -⟩ := compact_okAt h
  obtain ⟨he, hsame', hbufe, hfilee, -, hroom⟩ := enlarge_okAt hc
  have h0' : s.compact.enlarge.avail = 0 := by
    rw [← length_buffered, hbufe, hbufc, length_buffered]
    exact h0
  have hcond : (s.avail : ℤ) < offT size := by
    rw [offT_eq hfit]
    omega
  have hload := load_okAt he (caps.headD (s.compact.enlarge.readbuflen - s.compact.enlarge.writepos)) (by omega) h0'
  rw [fillReadBuffer, if_pos hcond]
  refine ⟨hload.1, (hsame.trans hsame').trans hload.2.1, ?_, rfl, _, Nat.le_sub_of_add_le' hroom, ?_⟩
  · rw [hload.2.2]
    rfl
  · rw [hload.2.2, ← hfilec, ← hfilee]
    rfl

/-- An empty buffer stays empty only if there is nothing more to read. -/
theorem avail_fillReadBuffer (h : s.OkAt p) (h0 : s.avail = 0) (hsize : 0 < size) (hfit : size < 2 ^ 63)
    (caps : List ℕ) : (s.fillReadBuffer size caps).1.avail = 0 → s.file.rest = [] := by
  obtain ⟨-, -, -, -, count, hcount, hbuf⟩ := fillReadBuffer_okAt h h0 hsize hfit caps
  intro hempty
  rw [buffered_eq_nil hempty, eq_comm, take_eq_nil_iff] at hbuf
  exact hbuf.resolve_left (by omega)

/-! ### Reading -/

theorem takeBuffered_reads (h : s.OkAt p) (size : ℕ) :
    Reads s p (s.takeBuffered size).1 (s.takeBuffered size).2 ∧ (s.takeBuffered size).1.length = min s.avail size ∧
      (s.takeBuffered size).2.avail = s.avail - min s.avail size := by
  have horder := h.order
  set n := min s.avail size with hn
  have hle : n ≤ s.avail := Nat.min_le_left _ _
  have hlen : (slice s.readbuf s.readpos n).length = n := length_slice _ _ _
  have havail : s.writepos - (s.readpos + n) = s.avail - n := by
    rw [avail]
    omega
  have hsplit : s.buffered = slice s.readbuf s.readpos n ++ slice s.readbuf (s.readpos + n) (s.avail - n) := by
    rw [buffered, ← slice_add]
    congr 1
    omega
  refine ⟨⟨{ h with order := ?_, ahead := ?_, data := ?_, atEnd := ?_ },
    ⟨rfl, rfl, rfl, rfl, rfl, rfl, rfl, rfl⟩, ?_⟩, hlen, havail⟩
  · show s.readpos + n ≤ s.writepos
    rw [avail] at hle
    omega
  · show s.file.offset = p + (slice s.readbuf s.readpos n).length + (s.writepos - (s.readpos + n))
    rw [hlen, havail, h.ahead]
    omega
  · show s.file.content.drop (p + (slice s.readbuf s.readpos n).length) =
      slice s.readbuf (s.readpos + n) (s.writepos - (s.readpos + n)) ++ s.file.rest
    rw [← drop_drop, h.data, hsplit, havail, append_assoc, drop_left]
  · intro heof
    obtain ⟨h0, hrest⟩ := h.atEnd heof
    exact ⟨havail.trans (by omega), hrest⟩
  · rw [h.data, hsplit, append_assoc]
    exact prefix_append _ _

theorem readMore_reads (h : s.OkAt p) (h0 : s.avail = 0) (hsize : 0 < size) (hfit : size < 2 ^ 63) (caps : List ℕ) :
    Reads s p (s.readMore size caps).1 (s.readMore size caps).2.1 ∧ (s.readMore size caps).1.length ≤ size ∧
      ((s.readMore size caps).1 = [] → s.file.content.drop p = []) := by
  by_cases hraw : s.noBuffer ∨ s.chunkSize = 1
  · rw [readMore, if_pos hraw]
    exact opsRead_reads h h0 hsize (caps.headD size)
  rw [readMore, if_neg hraw]
  obtain ⟨hfill, hsame, -⟩ := fillReadBuffer_okAt h h0 hsize hfit caps
  have hempty := avail_fillReadBuffer h h0 hsize hfit caps
  obtain ⟨htake, hlen, -⟩ := takeBuffered_reads hfill size
  refine ⟨⟨htake.okAt, hsame.trans htake.same, ?_⟩, ?_, ?_⟩
  · rw [← hsame.content]
    exact htake.data
  · rw [hlen]
    exact Nat.min_le_right _ _
  · intro hnil
    have hzero : min (s.fillReadBuffer size caps).1.avail size = 0 := by
      rw [← hlen, hnil]
      rfl
    rw [(h.of_avail h0).2]
    exact hempty (by omega)

variable {turns : ℕ}

theorem readLoop_reads (h : s.OkAt p) (hturns : size ≤ turns) (hfit : size < 2 ^ 63) (caps : List ℕ) :
    Reads s p (readLoop turns s size caps).1 (readLoop turns s size caps).2 ∧
      (readLoop turns s size caps).1.length ≤ size ∧
      (0 < size → s.file.content.drop p ≠ [] → (readLoop turns s size caps).1 ≠ []) ∧
      (s.plain = true → (readLoop turns s size caps).1 = (s.file.content.drop p).take size) := by
  induction turns generalizing s p size caps with
  | zero =>
    obtain rfl : size = 0 := by omega
    exact ⟨.nil h, le_rfl, fun h => absurd h (Nat.lt_irrefl 0), fun _ => rfl⟩
  | succ turns ih =>
    rw [readLoop]
    by_cases hsize : size = 0
    · subst hsize
      rw [if_pos rfl]
      exact ⟨.nil h, le_rfl, fun h => absurd h (Nat.lt_irrefl 0), fun _ => rfl⟩
    rw [if_neg hsize]
    obtain ⟨hfirst, hflen, hfavail⟩ := takeBuffered_reads h size
    generalize s.takeBuffered size = r at hfirst hflen hfavail ⊢
    obtain ⟨first, s₁⟩ := r
    simp only at hfirst hflen hfavail ⊢
    have hfull : ∀ k, k = first.length → first = (s.file.content.drop p).take k := by
      rintro k rfl
      exact prefix_iff_eq_take.1 hfirst.data
    by_cases hdone : size - first.length = 0
    · rw [if_pos hdone]
      dsimp only
      refine ⟨hfirst, by omega, ?_, ?_⟩
      · intro hpos _ hnil
        rw [hnil] at hdone
        exact hsize hdone
      · intro _
        exact hfull size (by omega)
    · rw [if_neg hdone]
      obtain ⟨hmore, hmlen, hmnil⟩ :=
        readMore_reads hfirst.okAt (by omega) (Nat.pos_of_ne_zero hdone) (by omega) caps
      generalize s₁.readMore (size - first.length) caps = r at hmore hmlen hmnil ⊢
      obtain ⟨more, s₂, caps₂⟩ := r
      simp only at hmore hmlen hmnil ⊢
      have hboth := hfirst.append hmore
      by_cases hstop : more = [] ∨ ¬ s₂.plain
      · rw [if_pos hstop]
        refine ⟨hboth, by rw [length_append]; omega, ?_, ?_⟩
        · intro _ hrest hnil
          obtain ⟨hf, hm⟩ := append_eq_nil_iff.1 hnil
          rw [hfirst.rest, hmnil hm, hf] at hrest
          exact hrest rfl
        · intro hplain
          have hm : more = [] := hstop.resolve_right (by rw [hmore.same.plain, hfirst.same.plain]; simp [hplain])
          rw [hm, append_nil, hfirst.rest, hmnil hm, append_nil, take_of_length_le (by omega)]
      · rw [if_neg hstop]
        rw [not_or] at hstop
        have hmpos : 0 < more.length := length_pos_iff.2 hstop.1
        obtain ⟨hothers, holen, -, hoplain⟩ :=
          ih hmore.okAt (show size - first.length - more.length ≤ turns by omega) (by omega) caps₂
        generalize readLoop turns s₂ (size - first.length - more.length) caps₂ = r at hothers holen hoplain ⊢
        obtain ⟨others, s₃⟩ := r
        simp only at hothers holen hoplain ⊢
        have hall := hboth.append (by rw [length_append, ← Nat.add_assoc]; exact hothers)
        refine ⟨hall, by simp only [length_append]; omega, ?_, ?_⟩
        · intro _ _ hnil
          simp only [append_eq_nil_iff] at hnil
          exact hstop.1 hnil.1.2
        · intro hplain
          have hplain₂ : s₂.plain = true := by rw [hmore.same.plain, hfirst.same.plain, hplain]
          rw [hoplain hplain₂, hfirst.rest, hmore.rest, take_append_of_le (by omega), take_append_of_le (by omega),
            append_assoc]

/-! ### Lines -/

variable {eol : UInt8}

theorem findIdx?_eq_none : bs.findIdx? (· = eol) = none ↔ eol ∉ bs := by
  rw [findIdx?_eq_none_iff]
  exact ⟨fun h hmem => absurd (h eol hmem) (by simp), fun h c hc => decide_eq_false fun heq => h (heq ▸ hc)⟩

theorem lineEnd_append_some {i : ℕ} (h : bs.findIdx? (· = eol) = some i) : lineEnd eol (bs ++ bs') = i + 1 := by
  rw [lineEnd, findIdx?_append, h]
  rfl

theorem lineEnd_append_none (h : bs.findIdx? (· = eol) = none) :
    lineEnd eol (bs ++ bs') = bs.length + lineEnd eol bs' := by
  rw [lineEnd, lineEnd, findIdx?_append, h]
  cases bs'.findIdx? (· = eol) with
  | none => simp
  | some i =>
    simp only [none_or, map_some]
    omega

/-- What goes from the buffer into the line: all of the line, or all of the buffer. -/
theorem lineChunk_spec (s : Stream) (maxlen : Option ℕ) (r : Bytes) (hmax : maxlen ≠ some 0) (eol : UInt8) :
    ∃ cpysz done, s.lineChunk maxlen (s.buffered.findIdx? (· = eol)) = (cpysz, done) ∧ cpysz ≤ s.avail ∧
      (done = true → cpysz = lineLength eol (s.buffered ++ r) maxlen) ∧
      (done = false → eol ∉ s.buffered ∧ cpysz = s.avail ∧ maxlen.map (· - s.avail) ≠ some 0 ∧
        lineLength eol (s.buffered ++ r) maxlen = s.avail + lineLength eol r (maxlen.map (· - s.avail))) := by
  cases hf : s.buffered.findIdx? (· = eol) with
  | some i =>
    have hi : i < s.avail := by
      rw [← length_buffered]
      exact (findIdx?_eq_some_iff_findIdx_eq.1 hf).1
    have hend : lineEnd eol (s.buffered ++ r) = i + 1 := lineEnd_append_some hf
    cases maxlen with
    | none => exact ⟨i + 1, true, rfl, hi, fun _ => hend.symm, fun h => by cases h⟩
    | some maxlen =>
      rw [lineLength, hend]
      by_cases hlong : i + 1 ≥ maxlen - 1
      · exact ⟨maxlen - 1, true, if_pos hlong, by omega, fun _ => by omega, fun h => by cases h⟩
      · exact ⟨i + 1, true, if_neg hlong, hi, fun _ => by omega, fun h => by cases h⟩
  | none =>
    have hend : lineEnd eol (s.buffered ++ r) = s.buffered.length + lineEnd eol r := lineEnd_append_none hf
    have hnot := findIdx?_eq_none.1 hf
    rw [length_buffered] at hend
    cases maxlen with
    | none => exact ⟨s.avail, false, rfl, le_rfl, by simp, fun _ => ⟨hnot, rfl, by simp, hend⟩⟩
    | some maxlen =>
      rw [lineLength, hend]
      by_cases hlong : s.avail ≥ maxlen - 1
      · exact ⟨maxlen - 1, true, if_pos hlong, hlong, fun _ => by omega, fun h => by cases h⟩
      refine ⟨s.avail, false, if_neg hlong, le_rfl, by simp, fun _ => ⟨hnot, rfl, ?_, ?_⟩⟩
      · intro h
        have hzero : maxlen - s.avail = 0 := some.inj h
        omega
      · show _ = s.avail + min (lineEnd eol r) (maxlen - s.avail - 1)
        omega

theorem OkAt.setPosition (h : s.OkAt p) (q : ℕ) : { s with position := q }.OkAt p :=
  { h with }

/-- What is left to read. -/
def restOf (s : Stream) : Bytes := s.file.content.drop s.position

/-- The stream after it has read `bs`. -/
structure Advances (s : Stream) (bs : Bytes) (s' : Stream) : Prop where
  ok : s'.Ok
  same : Same { s with position := s.position + bs.length } s'

theorem Reads.advances (h : Reads s s.position bs s') : Advances s bs { s' with position := s.position + bs.length } :=
  ⟨h.okAt.setPosition _, h.same.setPosition _⟩

theorem Advances.append (h : Advances s bs s') (h' : Advances s' bs' s'') : Advances s (bs ++ bs') s'' := by
  have hpos : s'.position + bs'.length = s.position + (bs ++ bs').length := by
    rw [h.same.position, length_append, Nat.add_assoc]
  exact ⟨h'.ok, (h.same.setPosition _).trans (hpos ▸ h'.same)⟩

theorem Advances.restOf (h : Advances s bs s') : s'.restOf = s.restOf.drop bs.length := by
  rw [Stream.restOf, Stream.restOf, h.same.content, h.same.position, drop_drop]

theorem Advances.of_same (h' : Advances s' bs s'') (h : Same s s') : Advances s bs s'' :=
  ⟨h'.ok, (h.setPosition _).trans (h.position ▸ h'.same)⟩

/-- The turns that `_php_stream_get_line` has. -/
theorem Ok.turns_eq (h : s.Ok) : 2 * s.restOf.length + 2 = 2 * (s.avail + s.file.rest.length) + 2 := by
  rw [restOf, h.data, length_append, length_buffered]

/-- If there is a CR or a LF, the first one is `eol`, and not a CR directly before a LF. -/
def FirstEol (eol : UInt8) (bs : Bytes) : Prop :=
  (cr ∉ bs ∧ lf ∉ bs) ∨ ∃ pre post, bs = pre ++ eol :: post ∧ cr ∉ pre ∧ lf ∉ pre ∧ (eol = cr → post.head? ≠ some lf)

/-- The first CR or LF is in the bytes that are there, or in those that follow. -/
theorem FirstEol.append (h : FirstEol eol (bs ++ bs')) :
    (cr ∉ bs ∧ lf ∉ bs ∧ FirstEol eol bs') ∨
      ∃ pre post, bs = pre ++ eol :: post ∧ cr ∉ pre ∧ lf ∉ pre ∧ (eol = cr → post.head? ≠ some lf) := by
  rcases h with ⟨hcr, hlf⟩ | ⟨pre, post, heq, hcr, hlf, hnext⟩
  · rw [mem_append, not_or] at hcr hlf
    exact .inl ⟨hcr.1, hlf.1, .inl ⟨hcr.2, hlf.2⟩⟩
  rcases append_eq_append_iff.1 heq with ⟨pre', rfl, hbs'⟩ | ⟨bs₁, rfl, hpost⟩
  · rw [mem_append, not_or] at hcr hlf
    exact .inl ⟨hcr.1, hlf.1, .inr ⟨pre', post, hbs', hcr.2, hlf.2, hnext⟩⟩
  cases bs₁ with
  | nil =>
    rw [append_nil]
    exact .inl ⟨hcr, hlf, .inr ⟨[], post, hpost.symm, not_mem_nil, not_mem_nil, hnext⟩⟩
  | cons c bs₁ =>
    obtain ⟨rfl, rfl⟩ := List.cons.inj hpost
    refine .inr ⟨pre, bs₁, rfl, hcr, hlf, fun heol hhead => hnext heol ?_⟩
    obtain ⟨bs₂, rfl⟩ := head?_eq_some_iff.1 hhead
    rfl

/-- The byte that ends the next line. -/
def Ends (s : Stream) (eol : UInt8) : Prop :=
  (eol = cr ∨ eol = lf) ∧ (s.detectEol = true → FirstEol eol s.restOf) ∧ (s.detectEol = false → eol = s.eolByte)

/-- The stream when the end of a line was found. -/
def found (s : Stream) (eol : UInt8) : Stream := { s with detectEol := false, eolMac := s.eolMac || decide (eol = cr) }

theorem ends_eolByte (h : s.detectEol = false) : s.Ends s.eolByte := by
  refine ⟨?_, fun hd => absurd (h.symm.trans hd) Bool.false_ne_true, fun _ => rfl⟩
  rw [eolByte]
  cases s.eolMac
  · exact .inr rfl
  · exact .inl rfl

theorem found_eolByte (h : s.detectEol = false) : s.found s.eolByte = s := by
  have hmac : (s.eolMac || decide (s.eolByte = cr)) = s.eolMac := by
    rw [eolByte]
    cases s.eolMac <;> rfl
  rw [found, hmac, ← h]

theorem findIdx?_append_of_notMem (h : eol ∉ bs) :
    (bs ++ bs').findIdx? (· = eol) = (bs'.findIdx? (· = eol)).map (· + bs.length) := by
  rw [findIdx?_append, findIdx?_eq_none.2 h, none_or]

/-- Where `php_stream_locate_eol` finds the end of the line. -/
theorem Ends.locateEol (h : s.Ends eol) (hrest : s.restOf = s.buffered ++ bs) :
    s.locateEol = (s.buffered.findIdx? (· = eol), if eol ∈ s.buffered then s.found eol else s) := by
  obtain ⟨heol, hdetect, hknown⟩ := h
  rw [Stream.locateEol]
  cases hd : s.detectEol with
  | false =>
    rw [hknown hd, found_eolByte hd, ite_self, eolByte]
    cases s.eolMac <;> rfl
  | true =>
    have hfirst := hdetect hd
    rw [hrest] at hfirst
    rcases hfirst.append with ⟨hcr, hlf, -⟩ | ⟨pre, post, hbuf, hcr, hlf, hnext⟩
    · have hnot : eol ∉ s.buffered := by rcases heol with rfl | rfl <;> assumption
      rw [findIdx?_eq_none.2 hcr, findIdx?_eq_none.2 hlf, findIdx?_eq_none.2 hnot, if_neg hnot]
      rfl
    · have hnot : eol ∉ pre := by rcases heol with rfl | rfl <;> assumption
      rw [hbuf, findIdx?_append_of_notMem hcr, findIdx?_append_of_notMem hlf, findIdx?_append_of_notMem hnot,
        if_pos (mem_append_right _ mem_cons_self)]
      rcases heol with rfl | rfl
      · have hfound : s.found cr = { s with detectEol := false, eolMac := true } := by simp [found]
        rw [hfound]
        cases post with
        | nil => rfl
        | cons c post =>
          -- a LF does not follow directly
          have hc : c ≠ lf := fun hc => hnext rfl (by rw [hc]; rfl)
          have hlf' : (cr :: c :: post).findIdx? (· = lf) = (post.findIdx? (· = lf)).map (· + 2) := by
            rw [findIdx?_cons, findIdx?_cons, if_neg (by decide), if_neg (by simpa using hc), Option.map_map]
            rfl
          rw [hlf']
          cases post.findIdx? (· = lf) with
          | none => rfl
          | some j =>
            have hindex : j + 2 + pre.length ≠ 0 + pre.length + 1 ∧ ¬j + 2 + pre.length < 0 + pre.length := by omega
            exact if_pos hindex
      · have hfound : s.found lf = { s with detectEol := false } := by
          have hne : decide (lf = cr) = false := rfl
          rw [found, hne, Bool.or_false]
        have hcr' : (lf :: post).findIdx? (· = cr) = (post.findIdx? (· = cr)).map (· + 1) := by
          rw [findIdx?_cons, if_neg (by decide)]
        rw [hfound, hcr']
        cases post.findIdx? (· = cr) with
        | none => rfl
        | some i =>
          have hindex : ¬(0 + pre.length ≠ i + 1 + pre.length + 1 ∧ ¬0 + pre.length < i + 1 + pre.length) := by omega
          exact if_neg hindex

/-- Some of the buffer goes into the line. -/
theorem chunk_advances (h : s.Ok) (hle : n ≤ s.avail) :
    Advances s (slice s.readbuf s.readpos n) { s with position := s.position + n, readpos := s.readpos + n } ∧
      slice s.readbuf s.readpos n = s.buffered.take n := by
  obtain ⟨htake, -, -⟩ := takeBuffered_reads h n
  rw [takeBuffered, Nat.min_eq_right hle] at htake
  have hadv := htake.advances
  rw [length_slice] at hadv
  exact ⟨hadv, by rw [buffered, take_slice _ _ hle]⟩

/-- What `_php_stream_get_line` does: it reads the line, and if it finds its end, the flags change. -/
theorem getLineLoop_advances {maxlen : Option ℕ} (h : s.Ok) (hends : s.Ends eol) (hmax : maxlen ≠ some 0)
    (hturns : 2 * s.restOf.length + 1 ≤ turns) (hturns' : s.avail = 0 → 2 * s.restOf.length + 2 ≤ turns)
    (caps : List ℕ) :
    (Advances s (getLineLoop turns s maxlen caps).1 (getLineLoop turns s maxlen caps).2 ∧
        (maxlen = none → eol ∉ (getLineLoop turns s maxlen caps).1) ∨
      Advances (s.found eol) (getLineLoop turns s maxlen caps).1 (getLineLoop turns s maxlen caps).2) ∧
      (getLineLoop turns s maxlen caps).1 = s.restOf.take (lineLength eol s.restOf maxlen) := by
  have hrest : s.restOf = s.buffered ++ s.file.rest := h.data
  induction turns generalizing s maxlen caps with
  | zero => omega
  | succ turns ih =>
    have stay : s.restOf = [] → [] = s.restOf.take (lineLength eol s.restOf maxlen) := by
      intro hnil
      rw [hnil, take_nil]
    rw [getLineLoop]
    by_cases h0 : s.avail > 0
    · rw [if_pos h0, hends.locateEol hrest]
      obtain ⟨cpysz, done, hchunk, hle, hdone, hmore⟩ := lineChunk_spec s maxlen s.file.rest hmax eol
      obtain ⟨hadv, hfirst⟩ := chunk_advances h hle
      have hline : done = true →
          slice s.readbuf s.readpos cpysz = s.restOf.take (lineLength eol s.restOf maxlen) := by
        intro hd
        rw [hrest, ← hdone hd, take_append_of_le_length (by rw [length_buffered]; exact hle), hfirst]
      by_cases hmem : eol ∈ s.buffered
      · have hadv' := (chunk_advances (show (s.found eol).Ok from { h with }) hle).1
        have hchunk' : (s.found eol).lineChunk maxlen (s.buffered.findIdx? (· = eol)) = (cpysz, done) := hchunk
        rw [if_pos hmem]
        dsimp only
        rw [hchunk']
        cases hd : done with
        | true => exact ⟨.inr hadv', hline hd⟩
        | false => exact absurd hmem (hmore hd).1
      rw [if_neg hmem]
      simp only [hchunk]
      have hnot : eol ∉ slice s.readbuf s.readpos cpysz := by
        rw [hfirst]
        exact fun h => hmem (mem_of_mem_take h)
      cases hd : done with
      | true => exact ⟨.inl ⟨hadv, fun _ => hnot⟩, hline hd⟩
      | false =>
        obtain ⟨-, hall, hmax', hlength⟩ := hmore hd
        subst hall
        set s₁ := { s with position := s.position + s.avail, readpos := s.readpos + s.avail } with hs₁
        have hrest₁ : s₁.restOf = s.file.rest := by
          show s.file.content.drop (s.position + s.avail) = s.file.content.drop s.file.offset
          rw [h.ahead]
        have htotal : s.restOf.length = s.avail + s₁.restOf.length := by
          rw [hrest, hrest₁, length_append, length_buffered]
        have hends₁ : s₁.Ends eol := by
          refine ⟨hends.1, fun hd => ?_, hends.2.2⟩
          have hfirst := hends.2.1 hd
          rw [hrest] at hfirst
          rw [hrest₁]
          rcases hfirst.append with ⟨-, -, hfirst⟩ | ⟨pre, post, hbuf, -⟩
          · exact hfirst
          · refine absurd ?_ hmem
            rw [hbuf]
            exact mem_append_right _ mem_cons_self
        obtain ⟨hadv', hline⟩ := ih hadv.ok hends₁ hmax' (by omega) (fun _ => by omega) caps
          (show s₁.restOf = s₁.buffered ++ s₁.file.rest from hadv.ok.data)
        have hadv₁ := (chunk_advances (show (s.found eol).Ok from { h with }) le_rfl).1
        refine ⟨hadv'.imp (fun hadv' => ⟨hadv.append hadv'.1, fun hnone hmem' => ?_⟩) hadv₁.append, ?_⟩
        · exact (mem_append.1 hmem').elim hnot (hadv'.2 (by rw [hnone]; rfl))
        rw [hline, hrest₁, hrest, hlength, take_append_of_le (by rw [length_buffered]; omega), length_buffered,
          Nat.add_sub_cancel_left, hfirst, take_of_length_le (by rw [length_buffered])]
        rfl
    · rw [if_neg h0]
      have h0' : s.avail = 0 := by omega
      have hbuf := buffered_eq_nil h0'
      cases heof : s.eof with
      | true =>
        obtain ⟨-, hfile⟩ := h.atEnd heof
        exact ⟨.inl ⟨⟨h, .refl s⟩, fun _ => not_mem_nil⟩, stay (by rw [hrest, hbuf, hfile]; rfl)⟩
      | false =>
        simp only [Bool.false_eq_true, if_false]
        by_cases hsize : s.lineToRead maxlen = 0
        · -- the caller's buffer has room for no byte
          have hzero : lineLength eol s.restOf maxlen = 0 := by
            have htwo := h.two_le
            cases maxlen with
            | none =>
              rw [lineToRead] at hsize
              omega
            | some maxlen =>
              rw [lineToRead] at hsize
              rw [lineLength]
              omega
          have hsame : s.fillReadBuffer 0 caps = (s, caps) := if_neg (by rw [h0']; decide)
          rw [hsize, hsame, if_pos h0', hzero]
          exact ⟨.inl ⟨⟨h, .refl s⟩, fun _ => not_mem_nil⟩, take_zero.symm⟩
        · have hfit : s.lineToRead maxlen < 2 ^ 63 := by
            have hlt := h.chunk_lt
            cases maxlen with
            | none | some maxlen =>
              rw [lineToRead]
              omega
          obtain ⟨hfill, hsame, -⟩ := fillReadBuffer_okAt h h0' (Nat.pos_of_ne_zero hsize) hfit caps
          have hempty := avail_fillReadBuffer h h0' (Nat.pos_of_ne_zero hsize) hfit caps
          generalize s.fillReadBuffer (s.lineToRead maxlen) caps = r at hfill hsame hempty ⊢
          obtain ⟨s₁, caps₁⟩ := r
          have hok₁ : s₁.Ok := by
            rw [Ok, hsame.position]
            exact hfill
          have hrest₁ : s₁.restOf = s.restOf := by
            rw [restOf, restOf, hsame.content, hsame.position]
          by_cases hnone : s₁.avail = 0
          · rw [if_pos hnone]
            exact ⟨.inl ⟨.of_same ⟨hok₁, .refl s₁⟩ hsame, fun _ => not_mem_nil⟩,
              stay (by rw [hrest, hbuf, hempty hnone]; rfl)⟩
          rw [if_neg hnone]
          have hends₁ : s₁.Ends eol := by
            rw [Ends, hrest₁, hsame.detectEol, eolByte, hsame.eolMac]
            exact hends
          have hfound : Same (s.found eol) (s₁.found eol) :=
            ⟨hsame.content, hsame.limit, hsame.position, hsame.chunkSize, hsame.noBuffer, rfl,
              congrArg (· || decide (eol = cr)) hsame.eolMac, hsame.plain⟩
          obtain ⟨hadv, hline⟩ := ih hok₁ hends₁ hmax (by rw [hrest₁]; omega) (fun h => absurd h hnone) caps₁
            (show s₁.restOf = s₁.buffered ++ s₁.file.rest from hok₁.data)
          rw [hrest₁] at hline
          exact ⟨hadv.imp (fun hadv => ⟨hadv.1.of_same hsame, hadv.2⟩) (·.of_same hfound), hline⟩

/-! ### Writing -/

/-- What comes before the bytes that are written at `pos`. -/
def before (content : Bytes) (pos : ℕ) : Bytes := content.take pos ++ replicate (pos - content.length) 0

theorem length_before (content : Bytes) (pos : ℕ) : (before content pos).length = pos := by
  rw [before, length_append, length_take, length_replicate]
  omega

variable {content : Bytes}

theorem overwrite_of_ne_nil {pos : ℕ} (h : bs ≠ []) :
    overwrite content pos bs = before content pos ++ bs ++ content.drop (pos + bs.length) := if_neg h

@[simp] theorem overwrite_nil (content : Bytes) (pos : ℕ) : overwrite content pos [] = content := if_pos rfl

theorem length_overwrite_le {pos : ℕ} (h : content.length ≤ n) (h' : pos + bs.length ≤ n) :
    (overwrite content pos bs).length ≤ n := by
  by_cases hbs : bs = []
  · rw [hbs, overwrite_nil]
    exact h
  · rw [overwrite_of_ne_nil hbs]
    simp only [length_append, length_before, length_drop]
    omega

theorem drop_overwrite (content bs : Bytes) (pos : ℕ) :
    (overwrite content pos bs).drop (pos + bs.length) = content.drop (pos + bs.length) := by
  by_cases hbs : bs = []
  · rw [hbs, overwrite_nil]
  · rw [overwrite_of_ne_nil hbs]
    exact drop_left' (by rw [length_append, length_before])

theorem overwrite_append (content a b : Bytes) (pos : ℕ) :
    overwrite (overwrite content pos a) (pos + a.length) b = overwrite content pos (a ++ b) := by
  by_cases ha : a = []
  · rw [ha, overwrite_nil, nil_append]
    rfl
  by_cases hb : b = []
  · rw [hb, overwrite_nil, append_nil]
  have hlen : (before content pos ++ a).length = pos + a.length := by
    rw [length_append, length_before]
  have htake : before (overwrite content pos a) (pos + a.length) = before content pos ++ a := by
    rw [before, overwrite_of_ne_nil ha]
    rw [take_left' hlen, length_append, hlen, Nat.sub_eq_zero_of_le (Nat.le_add_right _ _)]
    exact append_nil _
  rw [overwrite_of_ne_nil hb, htake, ← drop_drop, drop_overwrite,
    overwrite_of_ne_nil (by simp [ha] : a ++ b ≠ []), drop_drop, length_append, Nat.add_assoc]
  simp only [append_assoc]

/-- What no operation changes. -/
structure Kept (s s' : Stream) : Prop where
  limit : s'.file.limit = s.file.limit
  detectEol : s'.detectEol = s.detectEol
  eol : s'.eolByte = s.eolByte
  plain : s'.plain = s.plain

theorem Kept.refl (s : Stream) : Kept s s := ⟨rfl, rfl, rfl, rfl⟩

theorem Kept.trans (h : Kept s s') (h' : Kept s' s'') : Kept s s'' :=
  ⟨h'.limit.trans h.limit, h'.detectEol.trans h.detectEol, h'.eol.trans h.eol, h'.plain.trans h.plain⟩

theorem Advances.kept (h : Advances s bs s') : Kept s s' := by
  refine ⟨h.same.limit, h.same.detectEol, ?_, h.same.plain⟩
  have heol := h.same.eolMac
  rw [eolByte, eolByte, heol]

theorem OkAt.position_le (h : s.OkAt p) : p ≤ s.file.limit := by
  have := h.ahead
  have := h.offset_le
  omega

/-- With the buffer thrown away, the file's offset is the position. -/
theorem resync_ok (h : s.Ok) : s.resync.Ok ∧ s.resync.avail = 0 ∧ s.resync.abs = s.abs ∧ Kept s s.resync := by
  rw [resync]
  by_cases hne : s.readpos ≠ s.writepos
  · have hle := h.position_le
    have hseek : s.file.seek s.position .set = some (s.position, { s.file with offset := s.position }) := by
      rw [ByteFile.seek]
      exact if_pos ⟨by omega, by exact_mod_cast hle⟩
    rw [if_pos hne, hseek]
    refine ⟨⟨le_rfl, Nat.zero_le _, rfl, rfl, ?_, hle, h.length_le, h.limit_lt, h.two_le, h.chunk_lt⟩,
      rfl, rfl, rfl, rfl, rfl, rfl⟩
    intro heof
    obtain ⟨h0, -⟩ := h.atEnd heof
    have := h.order
    rw [avail] at h0
    omega
  · rw [if_neg hne]
    refine ⟨h, ?_, rfl, .refl s⟩
    rw [avail]
    omega

/-- The first `n` of the bytes are written. -/
structure Wrote (s : Stream) (bs : Bytes) (n : ℕ) (s' : Stream) : Prop where
  ok : s'.Ok
  avail : s'.avail = 0
  le : n ≤ bs.length
  content : s'.file.content = overwrite s.file.content s.position (bs.take n)
  position : s'.position = s.position + n
  kept : Kept s s'

theorem Wrote.none (h : s.Ok) (h0 : s.avail = 0) (bs : Bytes) : Wrote s bs 0 s :=
  ⟨h, h0, Nat.zero_le _, by rw [take_zero, overwrite_nil], rfl, .refl s⟩

theorem Wrote.append {m : ℕ} (h : Wrote s bs m s') (h' : Wrote s' (bs.drop m) n s'') : Wrote s bs (m + n) s'' := by
  have hm := h.le
  have hn := h'.le
  rw [length_drop] at hn
  refine ⟨h'.ok, h'.avail, by omega, ?_, ?_, h.kept.trans h'.kept⟩
  · have hlen : (bs.take m).length = m := by
      rw [length_take]
      omega
    rw [h'.content, h.content, h.position, take_add, ← overwrite_append, hlen]
  · rw [h'.position, h.position, Nat.add_assoc]

/-- One `write` of the file. -/
theorem write_wrote (h : s.Ok) (h0 : s.avail = 0) {k : ℕ} (cap : ℕ) (hw : s.file.write (bs.take k) cap = (n, f)) :
    Wrote s bs n { s with file := f, position := s.position + n } := by
  have hoff := (h.of_avail h0).1
  have hlimit := h.offset_le
  rw [ByteFile.write] at hw
  cases hw
  set n := min (min (bs.take k).length cap) (s.file.limit - s.file.offset) with hn
  have hnk : n ≤ k ∧ n ≤ bs.length := by
    rw [length_take] at hn
    omega
  have hlen : (bs.take n).length = n := by
    rw [length_take]
    omega
  have hdrop := drop_overwrite s.file.content (bs.take n) s.position
  rw [hlen] at hdrop
  rw [take_take, Nat.min_eq_left hnk.1, hoff]
  refine ⟨⟨h.order, h.room, ?_, ?_, ?_, ?_, ?_, h.limit_lt, h.two_le, h.chunk_lt⟩, h0, hnk.2, rfl, rfl,
    ⟨rfl, rfl, rfl, rfl⟩⟩
  · show s.position + n = s.position + n + s.avail
    rw [h0]
    rfl
  · show _ = s.buffered ++ _
    rw [buffered_eq_nil h0]
    rfl
  · intro heof
    obtain ⟨-, hrest⟩ := h.atEnd heof
    refine ⟨h0, ?_⟩
    rw [ByteFile.rest, hoff] at hrest
    rw [ByteFile.rest, hdrop, ← drop_drop, hrest, drop_nil]
  · show s.position + n ≤ s.file.limit
    omega
  · exact length_overwrite_le (n := s.file.limit) h.length_le (by rw [hlen]; omega)

theorem writeLoop_wrote (h : s.Ok) (h0 : s.avail = 0) (hturns : bs.length ≤ turns) (caps : List ℕ) :
    Wrote s bs (writeLoop turns s bs caps).1 (writeLoop turns s bs caps).2 ∧
      (0 ∉ caps → s.position + bs.length ≤ s.file.limit → (writeLoop turns s bs caps).1 = bs.length) := by
  induction turns generalizing s bs caps with
  | zero =>
    obtain rfl : bs = [] := length_eq_zero_iff.1 (by omega)
    exact ⟨.none h h0 [], fun _ _ => rfl⟩
  | succ turns ih =>
    rw [writeLoop]
    by_cases hbs : bs = []
    · rw [if_pos hbs, hbs]
      exact ⟨.none h h0 [], fun _ _ => rfl⟩
    rw [if_neg hbs]
    have hoff := (h.of_avail h0).1
    dsimp only
    generalize hcap : caps.headD (bs.take s.chunkSize).length = cap
    generalize hres : s.file.write (bs.take s.chunkSize) cap = r
    obtain ⟨n, f⟩ := r
    have hw := write_wrote h h0 cap hres
    have hval : min (min (bs.take s.chunkSize).length cap) (s.file.limit - s.file.offset) = n :=
      congrArg Prod.fst hres
    rw [length_take] at hval hcap
    have hchunk := h.chunk_lt
    have htwo := h.two_le
    have hlen : 0 < bs.length := length_pos_iff.2 hbs
    rw [toInt_eq (by omega)]
    by_cases hpos : (n : ℤ) > 0
    · rw [if_pos hpos]
      have hshort : (bs.drop n).length ≤ turns := by
        rw [length_drop]
        omega
      obtain ⟨hrest, hfull⟩ := ih hw.ok hw.avail hshort caps.tail
      refine ⟨hw.append hrest, ?_⟩
      intro hcaps hroom
      have hlim := hw.kept.limit
      have hall := hfull (fun hmem => hcaps (mem_of_mem_tail hmem)) (by
        rw [hlim, hw.position, length_drop]
        omega)
      rw [hall, length_drop]
      omega
    · rw [if_neg hpos]
      obtain rfl : n = 0 := by omega
      refine ⟨hw, ?_⟩
      intro hcaps hroom
      exfalso
      cases caps with
      | nil =>
        rw [headD_nil] at hcap
        omega
      | cons c caps =>
        have hc : c ≠ 0 := fun h => hcaps (by rw [h]; exact mem_cons_self)
        rw [headD_cons] at hcap
        omega

theorem write_wrote_all (h : s.Ok) (bs : Bytes) (caps : List ℕ) :
    (s.write bs caps).1 ≤ bs.length ∧ (s.write bs caps).2.Ok ∧ Kept s (s.write bs caps).2 ∧
      (s.write bs caps).2.abs = ⟨overwrite s.file.content s.position (bs.take (s.write bs caps).1),
        s.position + (s.write bs caps).1⟩ ∧
      (0 ∉ caps → s.position + bs.length ≤ s.file.limit → (s.write bs caps).1 = bs.length) := by
  rw [write]
  by_cases hbs : bs = []
  · rw [if_pos hbs, hbs]
    refine ⟨le_rfl, h, .refl s, ?_, fun _ _ => rfl⟩
    rw [take_nil, overwrite_nil]
    rfl
  · rw [if_neg hbs]
    obtain ⟨hok, h0, habs, hkept⟩ := resync_ok h
    obtain ⟨hw, hfull⟩ := writeLoop_wrote hok h0 le_rfl caps
    have hcontent : s.resync.file.content = s.file.content := congrArg content habs
    have hposition : s.resync.position = s.position := congrArg pos habs
    refine ⟨hw.le, hw.ok, hkept.trans hw.kept, ?_, ?_⟩
    · rw [abs, hw.content, hw.position, hcontent, hposition]
    · rw [← hposition, ← hkept.limit]
      exact hfull

/-! ### Seeking -/

variable {offset : ℤ}

theorem seekBuffered_some {whence : Whence} (h : s.seekBuffered offset whence = some n) :
    n ≤ s.avail ∧ s.abs.target offset whence = some ((s.position + n : ℕ) : ℤ) := by
  cases whence with
  | cur | set =>
    simp only [seekBuffered] at h
    split_ifs at h with _ hc
    cases h
    refine ⟨by omega, ?_⟩
    simp only [target, abs, some.injEq]
    omega
  | endOfFile | other => simp [seekBuffered] at h

theorem fileSeek_eq_some {t : ℤ} {r : ℕ × ByteFile} :
    f.seek t .set = some r ↔ (0 ≤ t ∧ t ≤ f.limit) ∧ r = (t.toNat, { f with offset := t.toNat }) := by
  rw [ByteFile.seek]
  constructor
  · intro h
    dsimp only at h
    split_ifs at h with hc
    exact ⟨hc, (some.inj h).symm⟩
  · rintro ⟨hc, rfl⟩
    exact if_pos hc

/-- The file goes where the seek goes, or refuses it. -/
theorem seekFile_spec (h : s.Ok) (hlo : -2 ^ 63 ≤ offset) (hhi : offset < 2 ^ 63) (whence : Whence) :
    (∃ t : ℕ, s.abs.target offset whence = some (t : ℤ) ∧ t ≤ s.file.limit ∧
      s.seekFile offset whence = some (t, { s.file with offset := t })) ∨
    (¬ s.abs.CanSeek s.file.limit offset whence ∧ s.seekFile offset whence = none) := by
  have hpos := h.position_le
  have hlimit := h.limit_lt
  -- a target of type `off_t` or beyond, against what is asked of the file
  have hasks : s.abs.target offset whence = none ∧ s.seekFile offset whence = none ∨
      ∃ t t' : ℤ, s.abs.target offset whence = some t ∧ s.seekFile offset whence = s.file.seek t' .set ∧
        (t = t' ∨ t' < 0 ∧ s.file.limit < t) := by
    cases whence with
    | set => exact .inr ⟨offset, offset, rfl, rfl, .inl rfl⟩
    | cur =>
      refine .inr ⟨s.position + offset, addOff s.position offset, rfl, rfl, ?_⟩
      rw [addOff]
      split_ifs with hsum
      · exact .inl rfl
      · right
        omega
    | endOfFile => exact .inr ⟨_, _, rfl, rfl, .inl rfl⟩
    | other => exact .inl ⟨rfl, rfl⟩
  obtain ⟨htarget, hseek⟩ | ⟨t, t', htarget, hseek, hsame⟩ := hasks
  · refine .inr ⟨?_, hseek⟩
    rintro ⟨t, ht, -⟩
    rw [htarget] at ht
    cases ht
  by_cases hok : 0 ≤ t' ∧ t' ≤ s.file.limit
  · obtain rfl : t = t' := by omega
    refine .inl ⟨t.toNat, by rw [htarget, Int.toNat_of_nonneg hok.1], by omega, ?_⟩
    rw [hseek]
    exact fileSeek_eq_some.2 ⟨hok, rfl⟩
  · refine .inr ⟨?_, ?_⟩
    · rintro ⟨u, hu, hle⟩
      rw [htarget] at hu
      have := some.inj hu
      omega
    · rw [hseek]
      cases hr : s.file.seek t' .set with
      | none => rfl
      | some r => exact absurd (fileSeek_eq_some.1 hr).1 hok

/-- A seek, if it does not fail with bytes in the buffer. -/
theorem seek_spec (h : s.Ok) (hlo : -2 ^ 63 ≤ offset) (hhi : offset < 2 ^ 63) {whence : Whence}
    (hfail : s.readpos = s.writepos ∨ s.abs.CanSeek s.file.limit offset whence) :
    (s.seek offset whence).2.Ok ∧ Kept s (s.seek offset whence).2 ∧
      s.abs.Does s.file.limit s.plain s.eolByte (.seek offset whence) (.status (s.seek offset whence).1)
        (s.seek offset whence).2.abs := by
  cases hb : s.seekBuffered offset whence with
  | some n =>
    obtain ⟨hn, htarget⟩ := seekBuffered_some hb
    obtain ⟨htake, hlen, -⟩ := takeBuffered_reads h n
    have hmin : min s.avail n = n := Nat.min_eq_right hn
    rw [takeBuffered, hmin] at htake
    have hok := htake.okAt
    rw [length_slice] at hok
    have hle := hok.position_le
    simp only [seek, hb]
    refine ⟨{ hok with atEnd := ?_ }, ⟨rfl, rfl, rfl, rfl⟩, ?_, ?_⟩
    · intro heof
      cases heof
    · intro _
      exact ⟨s.position + n, htarget, hle, rfl⟩
    · intro hfalse
      cases hfalse
  | none =>
    rcases seekFile_spec h hlo hhi whence with ⟨t, htarget, hle, hseek⟩ | ⟨hcannot, hseek⟩
    · simp only [seek, hb, hseek]
      refine ⟨⟨le_rfl, Nat.zero_le _, rfl, rfl, ?_, hle, h.length_le, h.limit_lt, h.two_le, h.chunk_lt⟩,
        ⟨rfl, rfl, rfl, rfl⟩, ?_, ?_⟩
      · intro heof
        cases heof
      · intro _
        exact ⟨t, htarget, hle, rfl⟩
      · intro hfalse
        cases hfalse
    · have h0 : s.avail = 0 := by
        have := hfail.resolve_right hcannot
        rw [avail]
        omega
      obtain ⟨hahead, hdata⟩ := h.of_avail h0
      simp only [seek, hb, hseek]
      refine ⟨⟨le_rfl, Nat.zero_le _, hahead, hdata, fun heof => ⟨rfl, (h.atEnd heof).2⟩, h.offset_le,
        h.length_le, h.limit_lt, h.two_le, h.chunk_lt⟩, ⟨rfl, rfl, rfl, rfl⟩, ?_, ?_⟩
      · intro htrue
        cases htrue
      · intro _
        exact ⟨hcannot, rfl⟩

/-! ### Runs -/

/-- An operation is as the types have it; if it reads a line, the line ends are known (`PHP_STREAM_FLAG_DETECT_EOL` is
not set), and if it is a seek that the file refuses, the buffer is empty. -/
def Allows (s : Stream) : Call → Prop
  | .read size _ => size < 2 ^ 63
  | .getLine _ _ => s.detectEol = false
  | .seek offset whence =>
    -2 ^ 63 ≤ offset ∧ offset < 2 ^ 63 ∧
      (s.readpos = s.writepos ∨ s.abs.CanSeek s.file.limit offset whence)
  | _ => True

/-- One operation does to the stream what it does to a file without a buffer. -/
theorem step_spec (h : s.Ok) {op : Call} (hop : s.Allows op) :
    (s.step op).2.Ok ∧ Kept s (s.step op).2 ∧
      s.abs.Does s.file.limit s.plain s.eolByte op (s.step op).1 (s.step op).2.abs := by
  cases op with
  | read size caps =>
    obtain ⟨hreads, hlen, hne, hplain⟩ := readLoop_reads h le_rfl hop caps
    have hadv := hreads.advances
    have hposition : (readLoop size s size caps).2.position = s.position := hreads.same.position
    simp only [step, read, hposition]
    refine ⟨hadv.ok, hadv.kept, ⟨_, hlen, prefix_iff_eq_take.1 hreads.data⟩, hne, hplain, ?_⟩
    simp only [abs, hreads.same.content]
  | getLine maxlen caps =>
    simp only [step, getLine]
    by_cases h0 : maxlen = some 0
    · rw [if_pos h0]
      refine ⟨h, .refl s, ?_⟩
      have hline : s.abs.line s.eolByte maxlen = [] := by
        rw [line, h0, lineLength, Nat.zero_sub, Nat.min_zero, take_zero]
      rw [PlainFile.Does, hline]
      exact ⟨rfl, rfl⟩
    · rw [if_neg h0]
      obtain ⟨hadv, hline⟩ := getLineLoop_advances h (ends_eolByte hop) h0 (by rw [← Ok.turns_eq h]; omega)
        (fun _ => (Ok.turns_eq h).le) caps
      rw [found_eolByte hop] at hadv
      replace hadv := hadv.elim (·.1) id
      refine ⟨hadv.ok, hadv.kept, ?_⟩
      change _ = s.abs.line s.eolByte maxlen at hline
      rw [PlainFile.Does, ← hline]
      refine ⟨rfl, ?_⟩
      have hposition := hadv.same.position
      have hcontent := hadv.same.content
      simp only [abs, hposition, hcontent]
  | write bs caps =>
    obtain ⟨hle, hok, hkept, habs, hfull⟩ := write_wrote_all h bs caps
    exact ⟨hok, hkept, hle, hfull, habs⟩
  | seek offset whence => exact seek_spec h hop.1 hop.2.1 hop.2.2
  | tell => exact ⟨h, .refl s, rfl, rfl⟩

/-- Every operation of a run does to the stream what it does to a file without a buffer. -/
def Transparent (limit : ℕ) (plain : Bool) (eol : UInt8) (s : Stream) : List Call → Prop
  | [] => True
  | op :: ops =>
    s.abs.Does limit plain eol op (s.step op).1 (s.step op).2.abs ∧ Transparent limit plain eol (s.step op).2 ops

theorem opened_ok {limit chunkSize : ℕ} (hlength : content.length ≤ limit) (hlimit : limit < 2 ^ 63)
    (htwo : 2 ≤ chunkSize) (hchunk : chunkSize < 2 ^ 31) (noBuffer detectEol eolMac plain : Bool) :
    (opened content limit chunkSize noBuffer detectEol eolMac plain).Ok := by
  refine ⟨le_rfl, le_rfl, rfl, rfl, ?_, Nat.zero_le _, hlength, hlimit, htwo, hchunk⟩
  intro heof
  cases heof

theorem ok_transparent (h : s.Ok) {ops : List Call} (hops : Along (fun s op => (s.step op).2) Allows s ops) :
    Transparent s.file.limit s.plain s.eolByte s ops := by
  induction ops generalizing s with
  | nil => trivial
  | cons op ops ih =>
    obtain ⟨hok, hkept, hdoes⟩ := step_spec h hops.1
    have hrest := ih hok hops.2
    rw [hkept.limit, hkept.plain, hkept.eol] at hrest
    exact ⟨hdoes, hrest⟩

/-- **Buffering is transparent as long as no seek fails with bytes in the buffer.** Where a line is read, the line ends
have to be known, and the chunk size has to be an `int`. -/
theorem transparent_along (content : Bytes) (limit chunkSize : ℕ) (noBuffer detectEol eolMac plain : Bool)
    (hlength : content.length ≤ limit) (hlimit : limit < 2 ^ 63) (htwo : 2 ≤ chunkSize) (hchunk : chunkSize < 2 ^ 31)
    (ops : List Call)
    (hops : Along (fun s op => (s.step op).2) Allows
      (opened content limit chunkSize noBuffer detectEol eolMac plain) ops) :
    Transparent limit plain (if eolMac then cr else lf)
      (opened content limit chunkSize noBuffer detectEol eolMac plain) ops :=
  ok_transparent (opened_ok hlength hlimit htwo hchunk noBuffer detectEol eolMac plain) hops

/-- A plain file of two bytes. -/
def twoBytes : Stream := opened [97, 98] 100 8192 false false false true

theorem transparent_along_reads :
    Transparent 100 true lf twoBytes [.read 1 [], .seek 1 .set, .getLine none [], .seek (-1) .cur, .tell] := by
  refine transparent_along [97, 98] 100 8192 false false false true (by decide) (by decide) (by decide) (by decide) _ ?_
  exact ⟨show 1 < 2 ^ 63 by decide, ⟨by decide, by decide, .inr ⟨1, rfl, by decide⟩⟩, rfl,
    ⟨by decide, by decide, .inr ⟨1, rfl, by decide⟩⟩, trivial, trivial⟩

/-- A byte is read, a seek fails, and the byte after it is gone. -/
theorem not_transparent_failed_seek : ¬ Transparent 100 true lf twoBytes [.read 1 [], .seek (-1) .set, .read 1 []] := by
  rintro ⟨-, -, ⟨-, -, hplain, -⟩, -⟩
  have hdata := hplain rfl
  revert hdata
  decide

/-! ### All lines -/

/-- The successive results of `_php_stream_get_line` with a buffer that grows, until it returns `NULL`; each call has
reads of its own. -/
def getLines : ℕ → Stream → List (List ℕ) → List Bytes
  | 0, _, _ => []
  | calls + 1, s, cuts =>
    match s.getLine none (cuts.headD []) with
    | (none, _) => []
    | (some line, s) => line :: getLines calls s cuts.tail

/-- The lines of some bytes. -/
def linesOf (eol : UInt8) : ℕ → Bytes → List Bytes
  | 0, _ => []
  | n + 1, bs => if bs = [] then [] else bs.take (lineEnd eol bs) :: linesOf eol n (bs.drop (lineEnd eol bs))

theorem lineEnd_bounds (h : bs ≠ []) (eol : UInt8) : 0 < lineEnd eol bs ∧ lineEnd eol bs ≤ bs.length := by
  rw [lineEnd]
  split
  · next i hi => exact ⟨Nat.succ_pos i, (findIdx?_eq_some_iff_findIdx_eq.1 hi).1⟩
  · exact ⟨length_pos_iff.2 h, le_rfl⟩

theorem flatten_linesOf (h : bs.length ≤ n) : (linesOf eol n bs).flatten = bs := by
  induction n generalizing bs with
  | zero => rw [length_eq_zero_iff.1 (Nat.le_zero.1 h), linesOf, flatten_nil]
  | succ n ih =>
    rw [linesOf]
    split_ifs with hbs
    · rw [hbs, flatten_nil]
    · have hpos := (lineEnd_bounds hbs eol).1
      rw [flatten_cons, ih (by rw [length_drop]; omega), take_append_drop]

@[simp] theorem linesOf_nil (eol : UInt8) (n : ℕ) : linesOf eol n [] = [] := by
  cases n <;> rfl

theorem lineEnd_of_notMem (h : eol ∉ bs.take (lineEnd eol bs)) : lineEnd eol bs = bs.length := by
  rw [lineEnd] at h ⊢
  split at h
  · next i hi =>
    obtain ⟨hlt, hi, -⟩ := findIdx?_eq_some_iff_getElem.1 hi
    refine absurd ?_ h
    rw [← of_decide_eq_true hi, mem_take_iff_getElem]
    exact ⟨i, by omega, rfl⟩
  · rfl

/-- One line, into a buffer that grows. -/
theorem getLine_grows (h : s.Ok) (hends : s.Ends eol) (caps : List ℕ) :
    (s.getLine none caps).1 = (if s.restOf = [] then none else some (s.restOf.take (lineEnd eol s.restOf))) ∧
      (s.getLine none caps).2.Ok ∧
      (s.getLine none caps).2.restOf = s.restOf.drop (lineEnd eol s.restOf) ∧
      ((s.getLine none caps).2.restOf = [] ∨
        (s.getLine none caps).2.detectEol = false ∧ (s.getLine none caps).2.eolByte = (s.found eol).eolByte) := by
  have hgrow : (none : Option ℕ) ≠ some 0 := by simp
  obtain ⟨hadv, hline⟩ := getLineLoop_advances h hends hgrow (by rw [← Ok.turns_eq h]; omega)
    (fun _ => (Ok.turns_eq h).le) caps
  rw [getLine, if_neg (by simp)]
  generalize getLineLoop _ s none caps = r at hadv hline ⊢
  obtain ⟨l, s'⟩ := r
  change l = s.restOf.take (lineEnd eol s.restOf) at hline
  have hlen : l.length = lineEnd eol s.restOf ∧ (l = [] ↔ s.restOf = []) := by
    by_cases hnil : s.restOf = []
    · rw [hline, hnil]
      exact ⟨rfl, Iff.rfl⟩
    · obtain ⟨hpos, hle⟩ := lineEnd_bounds hnil eol
      rw [hline, length_take, Nat.min_eq_left hle, take_eq_nil_iff]
      exact ⟨rfl, ⟨(·.resolve_left hpos.ne'), .inr⟩⟩
  simp only [hlen.2]
  refine ⟨by rw [← hline], ?_⟩
  rcases hadv with ⟨hadv, hnot⟩ | hadv
  · have hrest := hadv.restOf
    rw [hlen.1] at hrest
    have hall := lineEnd_of_notMem (hline ▸ hnot rfl)
    exact ⟨hadv.ok, hrest, .inl (by rw [hrest, hall, drop_length])⟩
  · have hrest := hadv.restOf
    rw [hlen.1] at hrest
    exact ⟨hadv.ok, hrest, .inr ⟨hadv.same.detectEol, hadv.kept.eol⟩⟩

/-- Every content has a first CR LF, or an end of its first line that no cut changes. -/
theorem firstEol_or (bs : Bytes) : (∃ pre post, bs = pre ++ cr :: lf :: post ∧ cr ∉ pre ∧ lf ∉ pre) ∨
    ∃ eol, (eol = cr ∨ eol = lf) ∧ FirstEol eol bs := by
  induction bs with
  | nil => exact .inr ⟨lf, .inr rfl, .inl ⟨not_mem_nil, not_mem_nil⟩⟩
  | cons c bs ih =>
    by_cases hlf : c = lf
    · subst hlf
      exact .inr ⟨lf, .inr rfl, .inr ⟨[], bs, rfl, not_mem_nil, not_mem_nil, fun h => absurd h (by decide)⟩⟩
    by_cases hcr : c = cr
    · subst hcr
      by_cases hnext : bs.head? = some lf
      · obtain ⟨post, rfl⟩ := head?_eq_some_iff.1 hnext
        exact .inl ⟨[], post, rfl, not_mem_nil, not_mem_nil⟩
      · exact .inr ⟨cr, .inl rfl, .inr ⟨[], bs, rfl, not_mem_nil, not_mem_nil, fun _ => hnext⟩⟩
    have hcons : ∀ {pre : Bytes}, cr ∉ pre → lf ∉ pre → cr ∉ c :: pre ∧ lf ∉ c :: pre := fun h h' =>
      ⟨not_mem_cons_of_ne_of_not_mem (Ne.symm hcr) h, not_mem_cons_of_ne_of_not_mem (Ne.symm hlf) h'⟩
    rcases ih with ⟨pre, post, rfl, h, h'⟩ | ⟨eol, heol, ⟨h, h'⟩ | ⟨pre, post, rfl, h, h', hnext⟩⟩
    · exact .inl ⟨c :: pre, post, rfl, hcons h h'⟩
    · exact .inr ⟨eol, heol, .inl (hcons h h')⟩
    · exact .inr ⟨eol, heol, .inr ⟨c :: pre, post, rfl, (hcons h h').1, (hcons h h').2, hnext⟩⟩

theorem exists_ends (h : s.detectEol = true → ¬∃ pre post, s.restOf = pre ++ cr :: lf :: post ∧ cr ∉ pre ∧ lf ∉ pre) :
    ∃ eol, s.Ends eol := by
  cases hd : s.detectEol with
  | false => exact ⟨_, ends_eolByte hd⟩
  | true =>
    obtain ⟨eol, heol, hfirst⟩ := (firstEol_or s.restOf).resolve_left (h hd)
    exact ⟨eol, heol, fun _ => hfirst, fun hd' => absurd (hd.symm.trans hd') (by simp)⟩

theorem getLines_nil (h : s.Ok) (hrest : s.restOf = []) (calls : ℕ) (cuts : List (List ℕ)) :
    getLines calls s cuts = [] := by
  obtain ⟨eol, hends⟩ := exists_ends (s := s) fun _ => by simp [hrest]
  cases calls with
  | zero => rfl
  | succ calls =>
    have hline := (getLine_grows h hends (cuts.headD [])).1
    rw [if_pos hrest] at hline
    rw [getLines]
    generalize s.getLine none (cuts.headD []) = r at hline ⊢
    obtain ⟨l, s'⟩ := r
    obtain rfl : l = none := hline
    rfl

/-- The first line, and the lines after it. -/
theorem getLines_succ (h : s.Ok) (hends : s.Ends eol) (calls : ℕ) (cuts : List (List ℕ))
    (ih : ∀ s' : Stream, s'.Ok → s'.detectEol = false →
      getLines calls s' cuts.tail = linesOf s'.eolByte calls s'.restOf) :
    getLines (calls + 1) s cuts = if s.restOf = [] then [] else
      s.restOf.take (lineEnd eol s.restOf) ::
        linesOf (s.found eol).eolByte calls (s.restOf.drop (lineEnd eol s.restOf)) := by
  obtain ⟨hline, hok, hrest, hflags⟩ := getLine_grows h hends (cuts.headD [])
  rw [getLines]
  generalize s.getLine none (cuts.headD []) = r at hline hok hrest hflags ⊢
  obtain ⟨l, s'⟩ := r
  by_cases hnil : s.restOf = []
  · rw [if_pos hnil] at hline ⊢
    obtain rfl : l = none := hline
    rfl
  rw [if_neg hnil] at hline ⊢
  obtain rfl : l = some _ := hline
  refine congrArg (_ :: ·) ?_
  rw [← hrest]
  rcases hflags with hend | ⟨hknown, heol⟩
  · rw [hend, linesOf_nil]
    exact getLines_nil hok hend calls cuts.tail
  · rw [← heol]
    exact ih s' hok hknown

/-- However the file is read, the lines are those of its bytes. -/
theorem getLines_eq (h : s.Ok) (hknown : s.detectEol = false) (calls : ℕ) (cuts : List (List ℕ)) :
    getLines calls s cuts = linesOf s.eolByte calls s.restOf := by
  induction calls generalizing s cuts with
  | zero => rfl
  | succ calls ih =>
    rw [getLines_succ h (ends_eolByte hknown) calls cuts fun s' h' hknown' => ih h' hknown' cuts.tail,
      found_eolByte hknown]
    rfl

/-! ### A CR LF that is cut -/

/-- One `read` of one or two bytes. -/
theorem getLineLoop_fill (h : s.Ok) (h0 : s.avail = 0) (heof : s.eof = false) (hrest : s.restOf ≠ []) {cap : ℕ}
    (hcap : cap ≤ 1) (turns : ℕ) (caps : List ℕ) :
    ∃ s₁, getLineLoop (turns + 1) s none (cap :: caps) = getLineLoop turns s₁ none caps ∧ s₁.Ok ∧ Same s s₁ ∧
      s₁.eof = false ∧ s₁.avail > 0 ∧ s₁.buffered = s.restOf.take (cap + 1) := by
  have htwo := h.two_le
  have hchunk := h.chunk_lt
  obtain ⟨hok, hsame, heof', hcaps, count, hcount, hbuf⟩ :=
    fillReadBuffer_okAt h h0 (show 0 < s.lineToRead none by rw [lineToRead]; omega) (by rw [lineToRead]; omega)
      (cap :: caps)
  have hfile : s.restOf = s.file.rest := (h.of_avail h0).2
  rw [getLineLoop, if_neg (by omega), heof]
  simp only [Bool.false_eq_true, if_false]
  generalize s.fillReadBuffer (s.lineToRead none) (cap :: caps) = r at hok hsame heof' hcaps hbuf ⊢
  obtain ⟨s₁, caps₁⟩ := r
  obtain rfl : caps₁ = caps := hcaps
  change s₁.buffered = s.file.rest.take (min count (cap + 1)) at hbuf
  rw [Nat.min_eq_right (by omega), ← hfile] at hbuf
  have hne : s₁.buffered ≠ [] := by
    rw [hbuf, ne_eq, take_eq_nil_iff, not_or]
    exact ⟨by omega, hrest⟩
  have havail : s₁.avail > 0 := by
    rw [← length_buffered]
    exact length_pos_iff.2 hne
  refine ⟨s₁, if_neg havail.ne', by rw [Ok, hsame.position]; exact hok, hsame, ?_, havail, hbuf⟩
  rw [heof']
  exact isEmpty_eq_false_iff.2 hne

/-- The first line depends on whether the `read` that gives the CR gives the LF too. -/
theorem getLineLoop_crlf {pre post : Bytes} (h : s.Ok) (hdetect : s.detectEol = true) (h0 : s.avail = 0)
    (heof : s.eof = false) (hcr : cr ∉ pre) (hlf : lf ∉ pre) (hrest : s.restOf = pre ++ cr :: lf :: post) {cap : ℕ}
    (hcap : cap ≤ 1) (hturns : 2 * pre.length + 2 ≤ turns) :
    (getLineLoop turns s none (replicate pre.length 0 ++ [cap])).1 = pre ++ [cr, lf].take (cap + 1) := by
  induction pre generalizing s turns with
  | nil =>
    obtain ⟨turns, rfl⟩ := Nat.exists_eq_add_of_le' (show 2 ≤ turns from hturns)
    obtain ⟨s₁, hfill, hok, hsame, -, havail, hbuf⟩ :=
      getLineLoop_fill h h0 heof (by rw [hrest]; simp) hcap (turns + 1) []
    have hd₁ : s₁.detectEol = true := hsame.detectEol.trans hdetect
    have hbuf₁ : s₁.buffered = [cr, lf].take (cap + 1) := by
      rw [hbuf, hrest]
      rcases Nat.le_one_iff_eq_zero_or_eq_one.1 hcap with rfl | rfl <;> rfl
    have hloc : ∃ d m, s₁.locateEol = (some cap, { s₁ with detectEol := d, eolMac := m }) := by
      rw [locateEol, hd₁, hbuf₁]
      rcases Nat.le_one_iff_eq_zero_or_eq_one.1 hcap with rfl | rfl
      · exact ⟨_, _, rfl⟩
      · exact ⟨_, _, rfl⟩
    obtain ⟨d, m, hloc⟩ := hloc
    have havail₁ : s₁.avail = cap + 1 := by
      rw [← length_buffered, hbuf₁, length_take]
      exact Nat.min_eq_left (by simpa using hcap)
    change (getLineLoop (turns + 1 + 1) s none [cap]).1 = _
    rw [hfill, getLineLoop, if_pos havail, hloc, nil_append, ← hbuf₁, buffered, havail₁]
    rfl
  | cons b pre ih =>
    rw [mem_cons, not_or] at hcr hlf
    rw [length_cons] at hturns
    obtain ⟨turns, rfl⟩ := Nat.exists_eq_add_of_le' (show 2 ≤ turns by omega)
    obtain ⟨s₁, hfill, hok, hsame, heof₁, havail, hbuf⟩ :=
      getLineLoop_fill h h0 heof (by rw [hrest]; simp) (Nat.zero_le 1) (turns + 1) (replicate pre.length 0 ++ [cap])
    have hd₁ : s₁.detectEol = true := hsame.detectEol.trans hdetect
    have hrest₁ : s₁.restOf = b :: (pre ++ cr :: lf :: post) := by
      rw [restOf, hsame.content, hsame.position]
      exact hrest
    have hbuf₁ : s₁.buffered = [b] := by
      rw [hbuf, hrest]
      rfl
    have hloc : s₁.locateEol = (none, s₁) := by
      rw [locateEol, hd₁, hbuf₁, findIdx?_eq_none.2 (by simpa using hcr.1), findIdx?_eq_none.2 (by simpa using hlf.1)]
      rfl
    obtain ⟨hadv, -⟩ := chunk_advances hok le_rfl
    have hfirst : slice s₁.readbuf s₁.readpos s₁.avail = [b] := hbuf₁
    have hrest₂ := hadv.restOf
    rw [hrest₁, hfirst] at hrest₂
    have hline := ih hadv.ok hd₁ (by simp only [avail]; omega) heof₁ hcr.2 hlf.2 hrest₂ (show _ ≤ turns by omega)
    rw [length_cons, replicate_succ, cons_append, hfill, getLineLoop, if_pos havail, hloc]
    have hchunk : s₁.lineChunk none none = (s₁.avail, false) := rfl
    simp only [hchunk, Bool.false_eq_true, if_false, map_none]
    rw [hline, hfirst]
    rfl

/-- **Lines do not depend on how the data arrives** if and only if the line ends are known, or the first of them is not
CR LF. -/
theorem getLines_cuts_iff (content : Bytes) (chunkSize : ℕ) (noBuffer detectEol eolMac plain : Bool)
    (hlength : content.length < 2 ^ 63) (htwo : 2 ≤ chunkSize) (hchunk : chunkSize < 2 ^ 31) :
    let s := opened content content.length chunkSize noBuffer detectEol eolMac plain
    (∀ cuts cuts', getLines content.length s cuts = getLines content.length s cuts' ∧
        (getLines content.length s cuts).flatten = content) ↔
      ¬(detectEol = true ∧ ∃ pre post, content = pre ++ cr :: lf :: post ∧ cr ∉ pre ∧ lf ∉ pre) := by
  intro s
  have hok : s.Ok := opened_ok le_rfl hlength htwo hchunk noBuffer detectEol eolMac plain
  constructor
  · rintro hcuts ⟨hdetect, pre, post, hcontent, hcr, hlf⟩
    -- the `read` that gives the CR gives the LF too, or not
    have hfirst : ∀ cap ≤ 1, (getLines content.length s [replicate pre.length 0 ++ [cap]]).head? =
        some (pre ++ [cr, lf].take (cap + 1)) := by
      intro cap hcap
      have hturns : 2 * pre.length + 2 ≤ 2 * (s.avail + s.file.rest.length) + 2 := by
        have hlen : s.file.rest.length = pre.length + (post.length + 2) := by
          change (content.drop 0).length = _
          rw [drop_zero, hcontent, length_append, length_cons, length_cons]
        omega
      have hline := getLineLoop_crlf hok hdetect rfl rfl hcr hlf hcontent hcap hturns
      obtain ⟨n, hn⟩ : ∃ n, content.length = n + 1 := ⟨pre.length + (post.length + 1), by rw [hcontent]; simp; omega⟩
      rw [hn, getLines, getLine, if_neg (by simp), headD_cons]
      generalize getLineLoop _ s none _ = r at hline ⊢
      obtain ⟨l, s'⟩ := r
      obtain rfl : l = pre ++ [cr, lf].take (cap + 1) := hline
      dsimp only
      rw [if_neg (by simp)]
      rfl
    have hboth := (hfirst 0 (by omega)).symm.trans ((congrArg head? (hcuts _ _).1).trans (hfirst 1 le_rfl))
    simp at hboth
  · intro hclear
    obtain ⟨eol, hends⟩ := exists_ends (s := s) fun hdetect h => hclear ⟨hdetect, h⟩
    have hlines : ∃ lines, lines.flatten = content ∧ ∀ cuts, getLines content.length s cuts = lines := by
      cases hn : content.length with
      | zero => exact ⟨[], (length_eq_zero_iff.1 hn).symm, fun _ => rfl⟩
      | succ n =>
        refine ⟨_, ?_, fun cuts => getLines_succ hok hends n cuts fun s' h' hknown => getLines_eq h' hknown n cuts.tail⟩
        have hne : content ≠ [] := ne_nil_of_length_eq_add_one hn
        have hpos := (lineEnd_bounds hne eol).1
        have hrest : s.restOf = content := rfl
        rw [hrest, if_neg hne, flatten_cons, flatten_linesOf (by rw [length_drop]; omega), take_append_drop]
    obtain ⟨lines, hflatten, heq⟩ := hlines
    intro cuts cuts'
    rw [heq, heq]
    exact ⟨rfl, hflatten⟩

/-- CRs, read one by one and at once, with detection. -/
theorem getLines_cuts_mac :
    let s := opened [97, 13, 98, 13, 99] 5 8192 false true false false
    getLines 5 s [] = [[97, 13], [98, 13], [99]] ∧ getLines 5 s [[0, 0], [0, 0, 0]] = getLines 5 s [] := by
  refine ⟨by decide, ((getLines_cuts_iff [97, 13, 98, 13, 99] 8192 false true false false (by decide) (by decide)
    (by decide)).mpr ?_ _ []).1⟩
  rintro ⟨-, pre, post, hcontent, -⟩
  have hmem : lf ∈ ([97, 13, 98, 13, 99] : Bytes) := by
    rw [hcontent]
    exact mem_append_right _ (mem_cons_of_mem _ mem_cons_self)
  exact absurd hmem (by decide)

/-- A read that ends between CR and LF makes CR the line end. -/
theorem getLines_detected :
    getLines 4 (opened [97, 13, 10, 98] 4 8192 false true false false) [] = [[97, 13, 10], [98]] ∧
      getLines 4 (opened [97, 13, 10, 98] 4 8192 false true false false) [[1]] = [[97, 13], [10, 98]] := by
  decide

end Stream

end PhpSandbox.Streams.Buffered
