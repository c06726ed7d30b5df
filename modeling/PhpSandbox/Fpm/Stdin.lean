import PhpSandbox.Fpm.Params
import PhpSandbox.Lib.Descriptor

/-!
# The body of a FastCGI request

`fcgi_read` of `sapi/fpm/fpm/fastcgi.c` reads the body of a request out of `FCGI_STDIN` records. The callers give it
buffers of any sizes, so that `in_len` and `in_pad` keep where it is in a record.

## The model

The connection delivers its bytes in pieces of any sizes, with interruptions in between (`Conn`). `fcgiRead` has all
ways to fail of the source. `readUntilShort` is the callers' loop: buffers are filled one after the other, until one
is not filled.

## What is proved

The bytes that are read are the body, whatever the records, their padding, the pieces and the buffers are. The
connection is at the padding of the last, empty record then, which is never read: it is behind that record just when
it has no padding (`readUntilShort_body_iff`).
-/

namespace PhpSandbox.Fpm

open Lib List

/-- The part of `fcgi_request` for reading. -/
structure Reader where
  /-- `fd`. -/
  conn : Conn
  /-- The connection is kept for the next request. -/
  keep : Bool
  /-- What is left of the content of the record. -/
  inLen : ℕ
  /-- The length of its padding. -/
  inPad : ℕ

namespace Reader

/-- What the beginning of the loop of `fcgi_read` leads to. -/
inductive Opened where
  /-- There is no record of the body. -/
  | failed (req : Reader)
  /-- The record is empty. -/
  | empty (req : Reader)
  /-- There are bytes in the record. -/
  | ready (req : Reader)

variable (req : Reader)

/-- The next record is begun, if the last one is at its end. -/
def openRecord : Opened :=
  if req.inLen ≠ 0 then .ready req
  else
    match Conn.safeRead req.conn 8 with
    | (none, conn) => .failed { req with conn }
    | (some buf, conn) =>
      match readHeader buf with
      | none => .failed { req with conn }
      | some (hdr, _) =>
        if hdr.type ≠ fcgiStdin then .failed { req with conn }
        else
          let req := { req with conn, inLen := hdr.len, inPad := hdr.paddingLength.toNat }
          if hdr.len = 0 then .empty req else .ready req

/-- The padding is read, and whether all of it came. -/
def skipPadding : Bool × Reader :=
  if req.inPad = 0 then (true, req)
  else
    match Conn.safeRead req.conn req.inPad with
    | (none, conn) => (false, { req with conn })
    | (some buf, conn) => (buf.length = req.inPad, { req with conn })

/-- The loop of `fcgi_read`: what it returns, what it has put into the buffer, and the request. -/
def readLoop (req : Reader) (rest : ℕ) (str : Bytes) : ℤ × Bytes × Reader :=
  if rest = 0 then (str.length, str, req)
  else
    match req.openRecord with
    | .failed req => (0, str, { req with keep := false })
    | .empty req => (str.length, str, req)
    | .ready req =>
      match Conn.safeRead req.conn (min req.inLen rest) with
      | (none, conn) => (-1, str, { req with conn, keep := false })
      | (some [], conn) => (str.length, str, { req with conn })
      | (some (b :: bs), conn) =>
        let req := { req with conn, inLen := req.inLen - (bs.length + 1) }
        let str := str ++ b :: bs
        if req.inLen ≠ 0 then (str.length, str, req)
        else
          match req.skipPadding with
          | (false, req) => (bs.length + 1, str, { req with keep := false })
          | (true, req) => readLoop req (rest - (bs.length + 1)) str
termination_by rest

/-- `fcgi_read`. -/
def fcgiRead (len : ℕ) : ℤ × Bytes × Reader := req.readLoop len []

/-- Buffers of these sizes are given to `fcgi_read` until it returns less than was asked for: the bytes, whether it
did, and the request. -/
def readUntilShort : Reader → List ℕ → Bytes × Bool × Reader
  | req, [] => ([], false, req)
  | req, len :: lens =>
    let (n, str, req) := req.fcgiRead len
    if n < len then (str.take n.toNat, true, req)
    else
      let (bytes, short, req) := readUntilShort req lens
      (str.take n.toNat ++ bytes, short, req)

end Reader

/-! ### Records -/

/-- A record with a piece of the body: like one of the parameters, it is not empty. -/
abbrev StdinRecord := ParamsRecord

/-- The body. -/
def bodyOf (rs : List StdinRecord) : Bytes := rs.flatMap ParamsRecord.content

/-- The body as it is sent: these records, an empty one with this padding, and what follows. -/
def encodeBody (id : UInt8 × UInt8) (rs : List StdinRecord) (padding next : Bytes) : Bytes :=
  (rs.flatMap fun r => encodeRecord fcgiStdin id r.content r.padding) ++ (encodeRecord fcgiStdin id [] padding ++ next)

theorem encodeBody_cons (id : UInt8 × UInt8) (r : StdinRecord) (rs : List StdinRecord) (padding next : Bytes) :
    encodeBody id (r :: rs) padding next =
      encodeRecord fcgiStdin id r.content r.padding ++ encodeBody id rs padding next := by
  rw [encodeBody, flatMap_cons, append_assoc]
  rfl

variable (type : UInt8) (id : UInt8 × UInt8)

/-- The header of a record. -/
def headerBytes (len pad : ℕ) : Bytes :=
  [1, type, id.1, id.2, UInt8.ofNat (len / 256), UInt8.ofNat len, UInt8.ofNat pad, 0]

theorem encodeRecord_eq (content padding : Bytes) :
    encodeRecord type id content padding =
      headerBytes type id content.length padding.length ++ (content ++ padding) :=
  append_assoc _ _ _

theorem readHeader_headerBytes {len pad : ℕ} (hlen : len ≤ fcgiMaxLength) (hpad : pad < 256) :
    ∃ hdr, readHeader (headerBytes type id len pad) = some (hdr, []) ∧ hdr.type = type ∧ hdr.len = len ∧
      hdr.paddingLength.toNat = pad := by
  refine ⟨⟨1, type, id.1, id.2, UInt8.ofNat (len / 256), UInt8.ofNat len, UInt8.ofNat pad, 0⟩, ?_, rfl, ?_, ?_⟩
  · simp only [headerBytes, readHeader]
    exact if_neg (by decide)
  · exact len_encodeRecord hlen
  · exact UInt8.toNat_ofNat_of_lt' hpad

namespace Reader

variable {req : Reader} {cur pad tail : Bytes} {id : UInt8 × UInt8} {rest : ℕ}

/-- The reader is in a record that has `cur` and the padding `pad` left, or at the end of one. -/
structure At (req : Reader) (cur pad tail : Bytes) : Prop where
  clean : req.conn.Clean
  bytes : req.conn.bytes = cur ++ (pad ++ tail)
  inLen : req.inLen = cur.length
  /-- The padding is known as long as there are any. -/
  inPad : cur ≠ [] → req.inPad = pad.length
  /-- It is read with the last one. -/
  pad_nil : cur = [] → pad = []

/-- A record begins. -/
theorem openRecord_eq {content padding : Bytes} (h : req.At [] [] (encodeRecord fcgiStdin id content padding ++ tail))
    (hc : content.length ≤ fcgiMaxLength) (hp : padding.length < 256) :
    ∃ req', req.openRecord = (if content = [] then .empty req' else .ready req') ∧ req'.keep = req.keep ∧
      req'.conn.Clean ∧ req'.conn.bytes = content ++ (padding ++ tail) ∧ req'.inLen = content.length ∧
      req'.inPad = padding.length := by
  have hbytes := h.bytes
  rw [encodeRecord_eq, nil_append, nil_append, append_assoc] at hbytes
  obtain ⟨conn, hread, hrest, hclean⟩ := Conn.safeRead_eq h.clean hbytes
  obtain ⟨hdr, hhdr, htype, hlen, hpad⟩ := readHeader_headerBytes fcgiStdin id hc hp
  refine ⟨{ req with conn, inLen := hdr.len, inPad := hdr.paddingLength.toNat }, ?_, rfl, hclean, ?_, hlen, hpad⟩
  · have hzero : ¬ req.inLen ≠ 0 := fun hne => hne h.inLen
    rw [openRecord, if_neg hzero]
    rw [show (8 : ℕ) = (headerBytes fcgiStdin id content.length padding.length).length from rfl, hread]
    simp only [hhdr, htype, hlen, length_eq_zero_iff]
    exact if_neg (fun hne => hne rfl)
  · rw [hrest, append_assoc]

/-- An open record is not opened again. -/
theorem openRecord_ready (h : req.At cur pad tail) (hcur : cur ≠ []) : req.openRecord = .ready req := by
  apply if_pos
  rw [h.inLen]
  exact fun heq => hcur (length_eq_zero_iff.mp heq)

theorem skipPadding_eq {padding : Bytes} (hc : req.conn.Clean) (hb : req.conn.bytes = padding ++ tail)
    (hp : req.inPad = padding.length) :
    ∃ conn, req.skipPadding = (true, { req with conn }) ∧ conn.Clean ∧ conn.bytes = tail := by
  unfold skipPadding
  split_ifs with hzero
  · rw [hp, length_eq_zero_iff] at hzero
    rw [hzero] at hb
    exact ⟨req.conn, rfl, hc, hb⟩
  · obtain ⟨conn, hread, hrest, hclean⟩ := Conn.safeRead_eq hc hb
    refine ⟨conn, ?_, hclean, hrest⟩
    rw [hp, hread]
    simp

/-- The buffer ends within the record. -/
theorem readLoop_within (h : req.At cur pad tail) (hpos : rest ≠ 0) (hlt : rest < cur.length) (str : Bytes) :
    ∃ req', req.readLoop rest str = (((str ++ cur.take rest).length : ℤ), str ++ cur.take rest, req') ∧
      req'.keep = req.keep ∧ req'.At (cur.drop rest) pad tail := by
  have hcur : cur ≠ [] := by
    rintro rfl
    exact Nat.not_lt_zero _ hlt
  have hbytes := h.bytes
  rw [← take_append_drop rest cur, append_assoc] at hbytes
  have hlen : (cur.take rest).length = rest := by
    rw [length_take]
    omega
  obtain ⟨conn, hread, hrest, hclean⟩ := Conn.safeRead_eq h.clean hbytes
  rw [hlen] at hread
  have hdrop : cur.drop rest ≠ [] := by
    rw [← length_pos_iff, length_drop]
    omega
  cases htake : cur.take rest with
  | nil =>
    rw [htake] at hlen
    exact absurd hlen.symm hpos
  | cons b bs =>
    rw [htake] at hread hlen
    rw [length_cons] at hlen
    refine ⟨{ req with conn, inLen := req.inLen - (bs.length + 1) }, ?_, rfl, hclean, hrest, ?_, ?_, ?_⟩
    · rw [readLoop, if_neg hpos, openRecord_ready h hcur]
      have hmin : min req.inLen rest = rest := by
        rw [h.inLen]
        omega
      have hleft : req.inLen - (bs.length + 1) ≠ 0 := by
        rw [h.inLen]
        omega
      simp only [hmin, hread, if_pos hleft]
    · show req.inLen - (bs.length + 1) = _
      rw [h.inLen, hlen, length_drop]
    · exact fun _ => h.inPad hcur
    · exact fun hnil => absurd hnil hdrop

/-- The buffer goes on behind the record, or ends with it. -/
theorem readLoop_through (h : req.At cur pad tail) (hcur : cur ≠ []) (hle : cur.length ≤ rest) (str : Bytes) :
    ∃ req' : Reader, req.readLoop rest str = req'.readLoop (rest - cur.length) (str ++ cur) ∧ req'.keep = req.keep ∧
      req'.At [] [] tail := by
  have hpos : 0 < cur.length := length_pos_iff.mpr hcur
  obtain ⟨conn, hread, hrest, hclean⟩ := Conn.safeRead_eq h.clean h.bytes
  cases cur with
  | nil => exact absurd rfl hcur
  | cons b bs =>
    obtain ⟨conn', hskip, hclean', hrest'⟩ := @skipPadding_eq { req with conn, inLen := 0 } _ _ hclean hrest
      (h.inPad hcur)
    refine ⟨{ req with conn := conn', inLen := 0 }, ?_, rfl, hclean', hrest', rfl, fun hne => absurd rfl hne,
      fun _ => rfl⟩
    rw [readLoop, if_neg (by omega), openRecord_ready h hcur]
    rw [length_cons] at hread hle
    have hmin : min req.inLen rest = bs.length + 1 := by
      rw [h.inLen, length_cons]
      omega
    have hleft : req.inLen - (bs.length + 1) = 0 := by
      rw [h.inLen, length_cons]
      omega
    simp [hmin, hread, hleft, hskip]

/-- At the end of a record the next one is begun. -/
theorem readLoop_open {r : StdinRecord}
    (h : req.At [] [] (encodeRecord fcgiStdin id r.content r.padding ++ tail)) (hpos : rest ≠ 0) (str : Bytes) :
    ∃ req' : Reader, req.readLoop rest str = req'.readLoop rest str ∧ req'.keep = req.keep ∧
      req'.At r.content r.padding tail := by
  obtain ⟨req', hopen, hkeep, hclean, hbytes, hlen, hpad⟩ := openRecord_eq h r.content_length r.padding_length
  have hat : req'.At r.content r.padding tail :=
    ⟨hclean, hbytes, hlen, fun _ => hpad, fun hnil => absurd hnil r.nonempty⟩
  rw [if_neg r.nonempty] at hopen
  refine ⟨req', ?_, hkeep, hat⟩
  rw [readLoop, if_neg hpos, hopen, readLoop, if_neg hpos, openRecord_ready hat r.nonempty]

/-- At the empty record the loop ends. -/
theorem readLoop_end {padding : Bytes} (h : req.At [] [] (encodeRecord fcgiStdin id [] padding ++ tail))
    (hp : padding.length < 256) (hpos : rest ≠ 0) (str : Bytes) :
    ∃ req', req.readLoop rest str = ((str.length : ℤ), str, req') ∧ req'.keep = req.keep ∧
      req'.conn.bytes = padding ++ tail := by
  obtain ⟨req', hopen, hkeep, -, hbytes, -, -⟩ := openRecord_eq h (Nat.zero_le _) hp
  rw [if_pos rfl] at hopen
  refine ⟨req', ?_, hkeep, hbytes⟩
  rw [readLoop, if_neg hpos, hopen]

/-! ### The body -/

section Body

variable {padding next body : Bytes} {rs : List StdinRecord}

/-- So much of the body is left, before the empty record with this padding. -/
def Left (req : Reader) (id : UInt8 × UInt8) (padding next body : Bytes) : Prop :=
  ∃ cur pad rs, req.At cur pad (encodeBody id rs padding next) ∧ cur ++ bodyOf rs = body

/-- What a buffer of the size `rest` gets behind `str`: if the body is long enough, the rest of it is left, and if not,
the padding of the empty record is. -/
structure Fills (keep : Bool) (id : UInt8 × UInt8) (padding next body : Bytes) (rest : ℕ) (str : Bytes)
    (r : ℤ × Bytes × Reader) : Prop where
  count : r.1 = r.2.1.length
  bytes : r.2.1 = str ++ body.take rest
  keep : r.2.2.keep = keep
  left : if rest ≤ body.length then r.2.2.Left id padding next (body.drop rest)
    else r.2.2.conn.bytes = padding ++ next

theorem fills_zero (h : req.Left id padding next body) (str : Bytes) :
    Fills req.keep id padding next body 0 str (req.readLoop 0 str) := by
  rw [readLoop, if_pos rfl]
  refine ⟨rfl, ?_, rfl, ?_⟩
  · rw [take_zero, append_nil]
  · rw [if_pos (Nat.zero_le _)]
    exact h

/-- An open record, if what follows it is right. -/
theorem fills_record (h : req.At cur pad (encodeBody id rs padding next)) (hcur : cur ≠ [])
    (ih : ∀ req' : Reader, req'.At [] [] (encodeBody id rs padding next) → ∀ rest str,
      Fills req'.keep id padding next (bodyOf rs) rest str (req'.readLoop rest str))
    (rest : ℕ) (str : Bytes) :
    Fills req.keep id padding next (cur ++ bodyOf rs) rest str (req.readLoop rest str) := by
  by_cases hpos : rest = 0
  · subst hpos
    exact fills_zero ⟨cur, pad, rs, h, rfl⟩ str
  by_cases hlt : rest < cur.length
  · obtain ⟨req', hread, hkeep, hat⟩ := readLoop_within h hpos hlt str
    rw [hread]
    refine ⟨rfl, ?_, hkeep, ?_⟩
    · rw [take_append_of_le_length hlt.le]
    · rw [if_pos (by rw [length_append]; omega), drop_append_of_le_length hlt.le]
      exact ⟨_, pad, rs, hat, rfl⟩
  · have hle : cur.length ≤ rest := Nat.not_lt.mp hlt
    obtain ⟨req', hread, hkeep, hat⟩ := readLoop_through h hcur hle str
    obtain ⟨hcount, hbytes, hkeep', hleft⟩ := ih req' hat (rest - cur.length) (str ++ cur)
    obtain ⟨d, rfl⟩ := Nat.exists_eq_add_of_le hle
    rw [Nat.add_sub_cancel_left] at hread hcount hbytes hkeep' hleft
    rw [hread]
    refine ⟨hcount, ?_, hkeep'.trans hkeep, ?_⟩
    · rw [hbytes, take_length_add_append, append_assoc]
    · rw [length_append, drop_length_add_append]
      simpa only [Nat.add_le_add_iff_left] using hleft

theorem fills_records (h : req.At [] [] (encodeBody id rs padding next)) (hp : padding.length < 256) (rest : ℕ)
    (str : Bytes) : Fills req.keep id padding next (bodyOf rs) rest str (req.readLoop rest str) := by
  induction rs generalizing req rest str with
  | nil =>
    by_cases hpos : rest = 0
    · subst hpos
      exact fills_zero ⟨[], [], [], h, rfl⟩ str
    obtain ⟨req', hread, hkeep, hbytes⟩ := readLoop_end h hp hpos str
    rw [hread]
    refine ⟨rfl, ?_, hkeep, ?_⟩
    · show str = str ++ List.take rest []
      rw [take_nil, append_nil]
    · rw [if_neg (show ¬ rest ≤ (bodyOf []).length from fun hle => hpos (Nat.le_zero.mp hle))]
      exact hbytes
  | cons r rs ih =>
    by_cases hpos : rest = 0
    · subst hpos
      exact fills_zero ⟨[], [], r :: rs, h, rfl⟩ str
    · rw [encodeBody_cons] at h
      obtain ⟨req', hread, hkeep, hat⟩ := readLoop_open h hpos str
      rw [hread, ← hkeep]
      exact fills_record hat r.nonempty (fun req' hat' => ih hat') rest str

/-- **A buffer is filled with the next bytes of the body.** -/
theorem fcgiRead_fills (h : req.Left id padding next body) (hp : padding.length < 256) (len : ℕ) :
    Fills req.keep id padding next body len [] (req.fcgiRead len) := by
  obtain ⟨cur, pad, rs, hat, rfl⟩ := h
  by_cases hcur : cur = []
  · subst hcur
    cases hat.pad_nil rfl
    exact fills_records hat hp len []
  · exact fills_record hat hcur (fun req' hat' => fills_records hat' hp) len []

/-- **Buffers of any sizes, one after the other**: the last one is not filled just when they are larger than the body
together, and the bytes are the body then. -/
theorem readUntilShort_eq (h : req.Left id padding next body) (hp : padding.length < 256) (lens : List ℕ) :
    ∃ req' : Reader, req.readUntilShort lens = (body.take lens.sum, decide (body.length < lens.sum), req') ∧
      req'.keep = req.keep ∧ (body.length < lens.sum → req'.conn.bytes = padding ++ next) := by
  induction lens generalizing req body with
  | nil =>
    refine ⟨req, ?_, rfl, fun hlt => absurd hlt (Nat.not_lt_zero _)⟩
    rw [readUntilShort, sum_nil, take_zero, decide_eq_false (Nat.not_lt_zero _)]
  | cons len lens ih =>
    have hfills := fcgiRead_fills h hp len
    rw [readUntilShort]
    generalize req.fcgiRead len = r at hfills ⊢
    obtain ⟨n, str, req'⟩ := r
    obtain ⟨hcount, hbytes, hkeep, hleft⟩ := hfills
    simp only [nil_append] at hcount hbytes hkeep hleft
    subst hcount hbytes
    rw [sum_cons]
    by_cases hle : len ≤ body.length
    · -- the buffer is filled
      rw [if_pos hle] at hleft
      obtain ⟨req'', hrun, hkeep', hend⟩ := ih hleft
      have hlen : (body.take len).length = len := by
        rw [length_take]
        omega
      have hiff : (body.drop len).length < lens.sum ↔ body.length < len + lens.sum := by
        rw [length_drop]
        omega
      refine ⟨req'', ?_, hkeep'.trans hkeep, fun hlt => hend (hiff.mpr hlt)⟩
      simp only [hlen, hrun, Int.toNat_natCast, hiff, take_take, Nat.min_self]
      rw [if_neg (Int.lt_irrefl _), take_add]
    · -- the body ends in it
      rw [if_neg hle] at hleft
      have hlen : body.take len = body := take_of_length_le (Nat.le_of_not_le hle)
      have hsum : body.take (len + lens.sum) = body := take_of_length_le (by omega)
      have hlt : (body.length : ℤ) < len := by omega
      refine ⟨req', ?_, hkeep, fun _ => hleft⟩
      simp only [hlen, hsum, if_pos hlt, Int.toNat_natCast, take_length]
      rw [decide_eq_true (by omega)]

/-- The request as `fcgi_read_request` leaves it. -/
theorem left_start {conn : Conn} (hc : conn.Clean) (hb : conn.bytes = encodeBody id rs padding next) (keep : Bool)
    (inPad : ℕ) : Left ⟨conn, keep, 0, inPad⟩ id padding next (bodyOf rs) :=
  ⟨[], [], rs, ⟨hc, hb, rfl, fun hne => absurd rfl hne, fun _ => rfl⟩, rfl⟩

/-- **The bytes that are read until a buffer is not filled are the body, and the connection is kept; it is at what
follows the last record just when that has no padding.** -/
theorem readUntilShort_body_iff (id : UInt8 × UInt8) (rs : List StdinRecord) (padding next : Bytes)
    (hp : padding.length < 256) (conn : Conn) (hc : conn.Clean) (hb : conn.bytes = encodeBody id rs padding next)
    (keep : Bool) (inPad : ℕ) (lens : List ℕ) :
    ∃ bytes short req', readUntilShort ⟨conn, keep, 0, inPad⟩ lens = (bytes, short, req') ∧ req'.keep = keep ∧
      bytes = (bodyOf rs).take lens.sum ∧ (short = true ↔ (bodyOf rs).length < lens.sum) ∧
      (short = true → (bytes = bodyOf rs ∧ req'.conn.bytes = next ↔ padding = [])) := by
  obtain ⟨req', hrun, hkeep, hend⟩ := readUntilShort_eq (left_start hc hb keep inPad) hp lens
  refine ⟨_, _, req', hrun, hkeep, rfl, decide_eq_true_iff, ?_⟩
  intro hshort
  have hlt := of_decide_eq_true hshort
  have htake : (bodyOf rs).take lens.sum = bodyOf rs := take_of_length_le hlt.le
  rw [htake, hend hlt]
  constructor
  · rintro ⟨-, hnext⟩
    have hlen := congrArg List.length hnext
    rw [length_append] at hlen
    exact length_eq_zero_iff.mp (by omega)
  · rintro rfl
    exact ⟨rfl, rfl⟩

/-- One record with two bytes and one byte of padding. -/
def recordAB : StdinRecord := ⟨ascii "AB", [0], by decide, by decide, by decide⟩

/-- The header comes in two pieces with an interruption between them, and the buffers have one and five bytes. -/
theorem readUntilShort_body_pieces :
    ∃ bytes short req', readUntilShort ⟨[.data 1 [5, 0], .interrupted, .data 1 [0, 2, 1, 0, 65, 66, 0],
        .data 1 [5, 0, 1, 0, 0, 0, 0]], true, 0, 0⟩ [1, 5] = (bytes, short, req') ∧ req'.keep = true ∧
      bytes = (bodyOf [recordAB]).take 6 ∧ (short = true ↔ (bodyOf [recordAB]).length < 6) ∧
      (short = true → (bytes = bodyOf [recordAB] ∧ req'.conn.bytes = [] ↔ ([] : Bytes) = [])) :=
  readUntilShort_body_iff (0, 1) [recordAB] [] [] (by decide) _ (by decide) rfl true 0 [1, 5]

/-- The empty record has a byte of padding, and this byte is where the next request is read from. -/
theorem readUntilShort_body_padded :
    ∃ req', readUntilShort ⟨[.data 1 [5, 0, 1, 0, 2, 1, 0, 65, 66, 0], .data 1 [5, 0, 1, 0, 0, 1, 0, 0],
        .data 1 [1, 0, 1]], true, 0, 0⟩ [8] = (ascii "AB", true, req') ∧ req'.conn.bytes = 0 :: [1, 1, 0, 1] := by
  have hleft : Left ⟨[.data 1 [5, 0, 1, 0, 2, 1, 0, 65, 66, 0], .data 1 [5, 0, 1, 0, 0, 1, 0, 0],
      .data 1 [1, 0, 1]], true, 0, 0⟩ (0, 1) [0] [1, 1, 0, 1] (bodyOf [recordAB]) :=
    left_start (by decide) rfl true 0
  obtain ⟨req', hrun, -, hend⟩ := readUntilShort_eq hleft (by decide) [8]
  exact ⟨req', hrun, hend (by decide)⟩

end Body

end Reader

end PhpSandbox.Fpm
