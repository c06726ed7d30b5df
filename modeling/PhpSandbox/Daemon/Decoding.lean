import PhpSandbox.Daemon.Request

/-!
# What a reader gets from a form and from the data of a request

`parse_post_params` and `parse_request_data` of `ext/daemon/daemon.c` write the
entries of an array one after the other, in pieces that `REQ_APPEND` leaves out
when they do not fit `REQ_MAXLEN` bytes.

## The model

A form is read by splitting it at each `&`, and each field at its first `=`; the
data of a request line by line, where the newline behind the last line does not
matter. `written` is what a sequence of `REQ_APPEND`s puts into the buffer, piece
by piece: a piece or nothing.

## What is proved

* `parsePostParams_decodes`: a form that fits is read back as the array.
* `parseRequest_complete_iff`: the data of a request is read back as the array just
  when all of it, but for the last newline, fits behind the header. Nothing else
  stops a request from being sent, so what does not fit is lost.
-/

namespace PhpSandbox.Daemon

open Lib Codec Zend Sandbox ReqBuffer List Option

variable (fs : List (Bytes × Bytes))

/-- An array of strings, as data of a request. -/
def stringData : RequestData := fs.map fun f => (.name f.1, .str f.2)

/-! ### Forms -/

/-- `php_url_decode` of a copy of a text. -/
def urlDecoded (s : Bytes) : Bytes :=
  let copy := phpUrlDecode (s ++ [0]) s.length
  copy.1.take copy.2

/-- A field of a form, split at its first `=`. -/
def decodeField (field : Bytes) : Option (Bytes × Bytes) := (cut 61 field).map fun f => (f.1, urlDecoded f.2)

/-- The fields of a form, split at each `&`. -/
def decodeForm (body : Bytes) : Option (List (Bytes × Bytes)) := (body.splitOn 38).mapM decodeField

/-- A field of a form. -/
def fieldText (f : Bytes × Bytes) : Bytes := f.1 ++ 61 :: phpUrlEncode f.2

/-- The text of a form. -/
def formText : Bytes := [38].intercalate (fs.map fieldText)

theorem urlDecoded_phpUrlEncode (s : Bytes) : urlDecoded (phpUrlEncode s) = s := by
  obtain ⟨hlen, htake, -⟩ := phpUrlDecode_encode s [0]
  rw [urlDecoded, hlen, htake]

/-- No key and no encoded value holds one of the separators. -/
theorem not_mem_fieldText {f : Bytes × Bytes} (hkey : f.1.all isKeyChar) : 38 ∉ fieldText f := by
  have henc : ∀ c : UInt8, 38 ∉ urlEncodeByte c := forall_uint8 (by decide +kernel)
  simp only [fieldText, mem_append, mem_cons, not_or]
  refine ⟨fun h => ?_, by decide, fun h => ?_⟩
  · exact absurd (all_eq_true.mp hkey 38 h) (by decide)
  · obtain ⟨c, -, hc⟩ := mem_flatMap.mp h
    exact henc c hc

theorem decodeField_fieldText {f : Bytes × Bytes} (hkey : f.1.all isKeyChar) : decodeField (fieldText f) = some f := by
  have heq : 61 ∉ f.1 := fun h => absurd (all_eq_true.mp hkey 61 h) (by decide)
  rw [decodeField, fieldText, cut_append heq, map_some, urlDecoded_phpUrlEncode]

/-- What decodes to one thing each decodes to the list of them. -/
theorem mapM_eq_some_of_forall {α β : Type} {f : α → Option β} {g : β → α} {bs : List β}
    (h : ∀ b ∈ bs, f (g b) = some b) : (bs.map g).mapM f = some bs := by
  induction bs with
  | nil => rfl
  | cons b bs ih =>
    obtain ⟨hb, hbs⟩ := forall_mem_cons.mp h
    rw [map_cons, mapM_cons, hb, ih hbs]
    rfl

variable {fs : List (Bytes × Bytes)}

/-- A form is read back. -/
theorem decodeForm_formText (hne : fs ≠ []) (hkeys : ∀ f ∈ fs, f.1.all isKeyChar) :
    decodeForm (formText fs) = some fs := by
  have hsplit : (formText fs).splitOn 38 = fs.map fieldText := by
    refine splitOn_intercalate 38 ?_ (by simpa using hne)
    intro field hfield
    obtain ⟨f, hf, rfl⟩ := mem_map.mp hfield
    exact not_mem_fieldText (hkeys f hf)
  rw [decodeForm, hsplit]
  exact mapM_eq_some_of_forall fun f hf => decodeField_fieldText (hkeys f hf)

/-- The fields of an array of strings. -/
theorem formFields_stringData (hkeys : ∀ f ∈ fs, f.1.all isKeyChar) :
    formFields (stringData fs) = some (fs.map fieldText) := by
  induction fs with
  | nil => rfl
  | cons f fs ih =>
    obtain ⟨hf, hfs⟩ := forall_mem_cons.mp hkeys
    have hfield : formField (.name f.1, .str f.2) = some (fieldText f) := by rw [formField, if_pos hf]; rfl
    rw [stringData, map_cons, formFields, hfield, ← stringData, ih hfs, map_cons]

/-- **A form is read back as the array it was made of**: for any values, if its text fits. -/
theorem parsePostParams_decodes (fs : List (Bytes × Bytes)) (hne : fs ≠ []) (hkeys : ∀ f ∈ fs, f.1.all isKeyChar)
    (hlen : (formText fs).length < reqMaxlen) :
    ∃ req, parsePostParams .empty true (stringData fs) = .ok req ∧ decodeForm req.str = some fs := by
  have hbody : formBody (stringData fs) = some (formText fs) := by
    rw [formBody, formFields_stringData hkeys, map_some, formText]
  obtain ⟨req, hreq, hstr⟩ := parsePostParams_formBody hbody hlen
  exact ⟨req, hreq, by rw [hstr, decodeForm_formText hne hkeys]⟩

/-- Separators in a value are no separators of the form. -/
theorem parsePostParams_decodes_separators :
    ∃ req, parsePostParams .empty true (stringData [(ascii "a", ascii "&b=c%"), (ascii "d", [0, 255, 32])]) = .ok req ∧
      decodeForm req.str = some [(ascii "a", ascii "&b=c%"), (ascii "d", [0, 255, 32])] :=
  parsePostParams_decodes [(ascii "a", ascii "&b=c%"), (ascii "d", [0, 255, 32])] (by decide) (by decide) (by decide)

/-! ### The data of a request -/

/-- A line of data: a key, `:b:` and a value in base64. -/
def decodeLine (line : Bytes) : Option (Bytes × Bytes) :=
  match cut 58 line with
  | some (key, 98 :: 58 :: enc) => (phpBase64Decode enc enc.length).map (key, ·)
  | _ => none

/-- The data of a request, line by line. -/
def decodeData (data : Bytes) : Option (List (Bytes × Bytes)) := (entries 10 data).mapM decodeLine

/-- The pieces that `parse_request_data` appends for an entry. -/
def recordPieces (f : Bytes × Bytes) : List Bytes := [f.1, ascii ":b:", phpBase64Encode f.2, ascii "\n"]

/-- The line of an entry, without its newline. -/
def lineText (f : Bytes × Bytes) : Bytes := f.1 ++ (ascii ":b:" ++ phpBase64Encode f.2)

/-- What may be written for these entries: each piece, or nothing. -/
inductive Written : List (Bytes × Bytes) → Bytes → Prop where
  /-- Nothing is written for no entry. -/
  | nil : Written [] []
  /-- The pieces of an entry, before those of the next ones. -/
  | cons {f : Bytes × Bytes} {fs : List (Bytes × Bytes)} {key sep enc newline s : Bytes} :
    (key = f.1 ∨ key = []) → (sep = ascii ":b:" ∨ sep = []) → (enc = phpBase64Encode f.2 ∨ enc = []) →
      (newline = [10] ∨ newline = []) → Written fs s → Written (f :: fs) (key ++ (sep ++ enc) ++ (newline ++ s))

section

variable (req : ReqBuffer)

/-- A piece is appended, or nothing. -/
theorem ReqBuffer.append_cases (s : Bytes) : ∃ t, (t = s ∨ t = []) ∧ (req.append s).str = req.str ++ t := by
  unfold append
  split_ifs
  · exact ⟨s, .inl rfl, rfl⟩
  · exact ⟨[], .inr rfl, (append_nil _).symm⟩

theorem ReqBuffer.appendAll_append (ss ts : List Bytes) :
    req.appendAll (ss ++ ts) = (req.appendAll ss).appendAll ts := foldl_append

/-- The loop appends the pieces of all entries. -/
theorem parseRequestData_stringData (hkeys : ∀ f ∈ fs, f.1.all isKeyChar) :
    parseRequestData req (stringData fs) = .ok (req.appendAll (fs.flatMap recordPieces)) := by
  induction fs generalizing req with
  | nil => rfl
  | cons f fs ih =>
    obtain ⟨hf, hfs⟩ := forall_mem_cons.mp hkeys
    rw [flatMap_cons, appendAll_append, ← ih (req.appendAll (recordPieces f)) hfs, stringData,
      map_cons, parseRequestData, checkKey_name hf]
    rfl

theorem written_appendAll (fs : List (Bytes × Bytes)) :
    ∃ s, (req.appendAll (fs.flatMap recordPieces)).str = req.str ++ s ∧ Written fs s := by
  induction fs generalizing req with
  | nil => exact ⟨[], (append_nil _).symm, .nil⟩
  | cons f fs ih =>
    obtain ⟨key, hkey, h₁⟩ := req.append_cases f.1
    obtain ⟨sep, hsep, h₂⟩ := (req.append f.1).append_cases (ascii ":b:")
    obtain ⟨enc, henc, h₃⟩ := ((req.append f.1).append (ascii ":b:")).append_cases (phpBase64Encode f.2)
    obtain ⟨newline, hnewline, h₄⟩ :=
      (((req.append f.1).append (ascii ":b:")).append (phpBase64Encode f.2)).append_cases (ascii "\n")
    obtain ⟨s, hs, hwritten⟩ := ih (req.appendAll (recordPieces f))
    refine ⟨key ++ (sep ++ enc) ++ (newline ++ s), ?_, .cons hkey hsep henc hnewline hwritten⟩
    have hrecord : (req.appendAll (recordPieces f)).str = req.str ++ key ++ sep ++ enc ++ newline := by
      rw [← h₁, ← h₂, ← h₃, ← h₄]
      rfl
    rw [flatMap_cons, appendAll_append, hs, hrecord]
    simp

end

section Lines

variable {f : Bytes × Bytes} {fs : List (Bytes × Bytes)} {key sep enc newline s t : Bytes} {c : UInt8}

theorem not_mem_of_piece {piece : Bytes} (h : t = piece ∨ t = []) (hc : c ∉ piece) : c ∉ t := by
  rcases h with rfl | rfl
  · exact hc
  · exact not_mem_nil

/-- Neither a newline nor a colon is in a key, or in a value in base64. -/
theorem key_chars (hf : f.1.all isKeyChar) (hc : c = 10 ∨ c = 58) : c ∉ f.1 := by
  intro h
  have := all_eq_true.mp hf c h
  rcases hc with rfl | rfl <;> revert this <;> decide

theorem base64_chars (hc : c = 10 ∨ c = 58) (v : Bytes) : c ∉ phpBase64Encode v := by
  have htable : ∀ v < 64, base64Char v ≠ 10 ∧ base64Char v ≠ 58 := by decide +kernel
  intro h
  rcases mem_phpBase64Encode v c h with rfl | ⟨i, hi, rfl⟩
  · revert hc
    decide
  · exact hc.elim (htable i hi).1 (htable i hi).2

section

variable (hf : f.1.all isKeyChar)

include hf

/-- What is written of a line holds no newline. -/
theorem line_chars (hkey : key = f.1 ∨ key = []) (hsep : sep = ascii ":b:" ∨ sep = [])
    (henc : enc = phpBase64Encode f.2 ∨ enc = []) : 10 ∉ key ++ (sep ++ enc) := by
  simp only [mem_append, not_or]
  exact ⟨not_mem_of_piece hkey (key_chars hf (.inl rfl)), not_mem_of_piece hsep (by decide),
    not_mem_of_piece henc (base64_chars (.inl rfl) _)⟩

theorem decodeLine_lineText : decodeLine (lineText f) = some f := by
  have hcut : cut 58 (lineText f) = some (f.1, 98 :: 58 :: phpBase64Encode f.2) :=
    cut_append (key_chars hf (.inr rfl)) _
  have hdec := phpBase64Decode_encode f.2 [] (by simp)
  rw [append_nil] at hdec
  simp [decodeLine, hcut, hdec]

/-- A line that decodes to an entry has all its pieces. -/
theorem line_eq_of_decodeLine (hkey : key = f.1 ∨ key = [])
    (hsep : sep = ascii ":b:" ∨ sep = []) (henc : enc = phpBase64Encode f.2 ∨ enc = [])
    (h : decodeLine (key ++ (sep ++ enc)) = some f) : key ++ (sep ++ enc) = lineText f := by
  have hkey58 : 58 ∉ key := not_mem_of_piece hkey (key_chars hf (.inr rfl))
  rcases hsep with rfl | rfl
  · have hcut : cut 58 (key ++ (ascii ":b:" ++ enc)) = some (key, 98 :: 58 :: enc) := cut_append hkey58 _
    simp only [decodeLine, hcut] at h
    obtain ⟨v, hv, heq⟩ := map_eq_some_iff.mp h
    obtain ⟨rfl, rfl⟩ : key = f.1 ∧ v = f.2 := ⟨congrArg Prod.fst heq, congrArg Prod.snd heq⟩
    rcases henc with rfl | rfl
    · rfl
    · have hdec : phpBase64Decode [] [].length = some [] := phpBase64Decode_encode [] [] (by simp)
      have hempty : f.2 = [] := (some.inj (hdec.symm.trans hv)).symm
      simp [lineText, hempty, phpBase64Encode]
  · -- without the colons nothing is read
    have hcut : cut 58 (key ++ ([] ++ enc)) = none := by
      rw [cut_eq_none_iff]
      simp only [mem_append, not_or]
      exact ⟨hkey58, not_mem_nil, not_mem_of_piece henc (base64_chars (.inr rfl) _)⟩
    simp only [decodeLine, hcut] at h
    cases h

end

/-- There are no more lines than entries, whatever stands before the first newline. -/
theorem length_entries_le (hkeys : ∀ f ∈ fs, f.1.all isKeyChar) (h : Written fs s) :
    (entries 10 s).length ≤ fs.length ∧
      ∀ start : Bytes, 10 ∉ start → (entries 10 (start ++ s)).length ≤ max 1 fs.length := by
  induction h with
  | nil =>
    refine ⟨le_rfl, fun start hstart => ?_⟩
    rw [append_nil]
    by_cases hne : start = []
    · simp [hne]
    · simp [entries_of_not_mem hstart hne]
  | @cons f fs key sep enc newline s hkey hsep henc hnewline hwritten ih =>
    obtain ⟨hf, hfs⟩ := forall_mem_cons.mp hkeys
    have hline := line_chars hf hkey hsep henc
    obtain ⟨ihlines, ihstart⟩ := ih hfs
    have hstart : ∀ start : Bytes, 10 ∉ start →
        (entries 10 (start ++ (key ++ (sep ++ enc) ++ (newline ++ s)))).length ≤ fs.length + 1 := by
      intro start hstart
      have hfirst : 10 ∉ start ++ (key ++ (sep ++ enc)) := by
        rw [mem_append, not_or]
        exact ⟨hstart, hline⟩
      rw [← append_assoc]
      rcases hnewline with rfl | rfl
      · rw [singleton_append, entries_append_cons hfirst, length_cons]
        omega
      · have := ihstart _ hfirst
        rw [nil_append]
        omega
    refine ⟨hstart [] not_mem_nil, fun start h => ?_⟩
    have := hstart start h
    rw [length_cons]
    omega

theorem length_of_mapM {α β : Type} {g : α → Option β} {as : List α} {bs : List β} (h : as.mapM g = some bs) :
    as.length = bs.length := by
  induction as generalizing bs with
  | nil =>
    obtain rfl : [] = bs := by simpa using h
    rfl
  | cons a as ih =>
    rw [mapM_cons] at h
    obtain ⟨b, -, h⟩ := bind_eq_some_iff.mp h
    obtain ⟨bs', hbs', h⟩ := bind_eq_some_iff.mp h
    obtain rfl : b :: bs' = bs := some.inj h
    rw [length_cons, length_cons, ih hbs']

/-- The text of all lines. -/
theorem dataLines_eq (fs : List (Bytes × Bytes)) : dataLines fs = fs.flatMap fun f => lineText f ++ [10] := by
  simp [dataLines, fieldLine, lineText, EncType.enc, EncType.char, ascii]

variable (hkeys : ∀ f ∈ fs, f.1.all isKeyChar)

include hkeys

/-- **What decodes to the entries is all that is to be written**, but for the last newline. -/
theorem eq_of_decodeData (hwritten : Written fs s) (h : decodeData s = some fs) :
    dataLines fs = s ∨ dataLines fs = s ++ [10] := by
  induction hwritten with
  | nil => exact .inl rfl
  | @cons f fs key sep enc newline s hkey hsep henc hnewline hwritten ih =>
    obtain ⟨hf, hfs⟩ := forall_mem_cons.mp hkeys
    have hline := line_chars hf hkey hsep henc
    rw [dataLines_eq, flatMap_cons, ← dataLines_eq]
    rcases hnewline with rfl | rfl
    · -- the first line is the first entry's
      rw [decodeData, singleton_append, entries_append_cons hline, mapM_cons] at h
      obtain ⟨f', hf', h⟩ := bind_eq_some_iff.mp h
      obtain ⟨fs', hfs', h⟩ := bind_eq_some_iff.mp h
      obtain ⟨rfl, rfl⟩ := List.cons.inj (some.inj h)
      rw [← line_eq_of_decodeLine hf hkey hsep henc hf']
      rcases ih hfs hfs' with h | h
      · exact .inl (by rw [h, append_assoc])
      · exact .inr (by rw [h]; simp)
    · -- with a newline lost there are too few lines, if there is another entry
      have hbound := (length_entries_le hfs hwritten).2 _ hline
      have hlen := length_of_mapM h
      rw [nil_append] at h hlen ⊢
      rw [length_cons] at hlen
      obtain rfl : fs = [] := eq_nil_of_length_eq_zero (by omega)
      cases hwritten
      rw [append_nil] at h hlen ⊢
      have hne : key ++ (sep ++ enc) ≠ [] := by
        intro hnil
        rw [hnil] at hlen
        cases hlen
      rw [decodeData, entries_of_not_mem hline hne, mapM_cons] at h
      obtain ⟨f', hf', h⟩ := bind_eq_some_iff.mp h
      obtain ⟨rfl, -⟩ := List.cons.inj (some.inj h)
      rw [line_eq_of_decodeLine hf hkey hsep henc hf']
      exact .inr (by simp [dataLines])

/-- All lines are read back, with or without the last newline. -/
theorem decodeData_eq (h : s = dataLines fs ∨ s ++ [10] = dataLines fs) : decodeData s = some fs := by
  have hmap : dataLines fs = (fs.map lineText).flatMap (· ++ [10]) := by
    rw [dataLines_eq, flatMap_map]
  rw [hmap] at h
  rw [decodeData, entries_of_terminated _ h]
  · exact mapM_eq_some_of_forall fun f hf => decodeLine_lineText (hkeys f hf)
  · intro line hmem
    obtain ⟨f, hf, rfl⟩ := mem_map.mp hmem
    exact ⟨line_chars (hkeys f hf) (.inl rfl) (.inl rfl) (.inl rfl), by simp [lineText, ascii]⟩

end Lines

theorem flatten_recordPieces (fs : List (Bytes × Bytes)) : (fs.flatMap recordPieces).flatten = dataLines fs := by
  induction fs with
  | nil => rfl
  | cons f fs ih =>
    rw [flatMap_cons, flatten_append, ih]
    simp [dataLines_eq, recordPieces, lineText, ascii]

/-- Data that fits but for its last newline is written but for it. -/
theorem appendAll_recordPieces (req : ReqBuffer) (fs : List (Bytes × Bytes))
    (h : req.str.length + (dataLines fs).length ≤ reqMaxlen) :
    ∃ s, (req.appendAll (fs.flatMap recordPieces)).str = req.str ++ s ∧
      (s = dataLines fs ∨ s ++ [10] = dataLines fs) := by
  rcases Nat.lt_or_eq_of_le h with hlt | heq
  · refine ⟨dataLines fs, ?_, .inl rfl⟩
    rw [req.appendAll_str _ (by rwa [flatten_recordPieces, length_append]), flatten_recordPieces]
  rcases eq_nil_or_concat fs with rfl | ⟨front, f, rfl⟩
  · exact ⟨[], (append_nil _).symm, .inl rfl⟩
  -- the last newline is the piece that is left out
  obtain ⟨pieces, hpieces⟩ : ∃ pieces, (front.concat f).flatMap recordPieces = pieces ++ [[10]] :=
    ⟨front.flatMap recordPieces ++ [f.1, ascii ":b:", phpBase64Encode f.2], by simp [recordPieces, ascii]⟩
  have hflat : pieces.flatten ++ [10] = dataLines (front.concat f) := by
    rw [← flatten_recordPieces, hpieces]
    simp
  have hlen := congrArg List.length hflat
  rw [length_append, length_singleton] at hlen
  have hstr := req.appendAll_str pieces (by rw [length_append]; omega)
  refine ⟨pieces.flatten, ?_, .inr hflat⟩
  have hdrop : ¬ (req.appendAll pieces).str.length + [(10 : UInt8)].length < reqMaxlen := by
    rw [hstr, length_append, length_singleton]
    omega
  have hlast : (req.appendAll pieces).appendAll [[10]] = (req.appendAll pieces).append [10] := rfl
  rw [hpieces, appendAll_append, hlast, append, dif_neg hdrop, hstr]

/-- The entries are read back just when all lines fit behind what is there, the last newline apart. -/
theorem decodeData_appendAll_iff (req : ReqBuffer) (hkeys : ∀ f ∈ fs, f.1.all isKeyChar) :
    (∃ data, (req.appendAll (fs.flatMap recordPieces)).str = req.str ++ data ∧ decodeData data = some fs) ↔
      req.str.length + (dataLines fs).length ≤ reqMaxlen := by
  constructor
  · rintro ⟨data, hdata, hdecode⟩
    obtain ⟨s, hs, hwritten⟩ := written_appendAll req fs
    obtain rfl : data = s := append_cancel_left (hdata.symm.trans hs)
    have hfits := (req.appendAll (fs.flatMap recordPieces)).fits
    rw [hdata, length_append] at hfits
    rcases eq_of_decodeData hkeys hwritten hdecode with h | h
    · rw [h]
      omega
    · rw [h, length_append, length_singleton]
      omega
  · intro hlen
    obtain ⟨s, hs, hlines⟩ := appendAll_recordPieces req fs hlen
    exact ⟨s, hs, decodeData_eq hkeys hlines⟩

/-- What `parse_request` writes of the header. -/
def headerWritten (caller : Caller) (method action : Bytes) (data : RequestData) : ReqBuffer :=
  empty.appendAll (headerPieces caller method action (some data))

/-- An array of strings with keys that can be written is never turned down. -/
theorem parseRequest_stringData (caller : Caller) (method action : Bytes) (fs : List (Bytes × Bytes))
    (hkeys : ∀ f ∈ fs, f.1.all isKeyChar) :
    parseRequest caller method action (some (stringData fs)) =
      .ok ((headerWritten caller method action (stringData fs)).appendAll (fs.flatMap recordPieces)) :=
  parseRequestData_stringData _ hkeys

/-- **When the data of a request is complete**: for an array of strings with keys that can be
written, whatever `parse_request` returns reads back as the array just when all lines fit behind
the header, the last newline apart. -/
theorem parseRequest_complete_iff (caller : Caller) (method action : Bytes) (fs : List (Bytes × Bytes))
    (hkeys : ∀ f ∈ fs, f.1.all isKeyChar) :
    (∀ req, parseRequest caller method action (some (stringData fs)) = .ok req →
        ∃ data, req.str = (headerWritten caller method action (stringData fs)).str ++ data ∧
          decodeData data = some fs) ↔
      (headerWritten caller method action (stringData fs)).str.length + (dataLines fs).length ≤ reqMaxlen := by
  rw [← decodeData_appendAll_iff _ hkeys]
  constructor
  · intro h
    exact h _ (parseRequest_stringData caller method action fs hkeys)
  · rintro h req hreq
    rw [parseRequest_stringData caller method action fs hkeys] at hreq
    cases hreq
    exact h

/-- A short array is complete. -/
theorem parseRequest_complete_pair :
    ∃ req data, parseRequest blogCaller (ascii "sync") (ascii "log")
        (some (stringData [(ascii "k", ascii "v\n"), (ascii "l", [])])) = .ok req ∧
      req.str = (headerWritten blogCaller (ascii "sync") (ascii "log")
        (stringData [(ascii "k", ascii "v\n"), (ascii "l", [])])).str ++ data ∧
      decodeData data = some [(ascii "k", ascii "v\n"), (ascii "l", [])] := by
  have hreq := parseRequest_stringData blogCaller (ascii "sync") (ascii "log")
    [(ascii "k", ascii "v\n"), (ascii "l", [])] (by decide)
  obtain ⟨data, hdata, hdecode⟩ := (parseRequest_complete_iff blogCaller (ascii "sync") (ascii "log")
    [(ascii "k", ascii "v\n"), (ascii "l", [])] (by decide)).mpr (by decide +kernel) _ hreq
  exact ⟨_, data, hreq, hdata, hdecode⟩

/-- A value of 70000 bytes is left out of the request, which is returned all the same. -/
theorem parseRequest_loses_value :
    let fs := [(ascii "k", replicate 70000 97), (ascii "l", ascii "v")]
    ∃ req, parseRequest blogCaller (ascii "sync") (ascii "log") (some (stringData fs)) = .ok req ∧
      ¬ ∃ data, req.str = (headerWritten blogCaller (ascii "sync") (ascii "log") (stringData fs)).str ++ data ∧
        decodeData data = some fs := by
  intro fs
  have hkeys : ∀ f ∈ fs, f.1.all isKeyChar := by decide
  refine ⟨_, parseRequest_stringData _ _ _ fs hkeys, fun h => ?_⟩
  have hlen := (decodeData_appendAll_iff _ hkeys).mp h
  have hvalue : (replicate 70000 (97 : UInt8)).length ≤ (dataLines fs).length :=
    length_le_dataLines (f := (ascii "k", replicate 70000 97)) mem_cons_self
  rw [length_replicate] at hvalue
  have hmax : reqMaxlen = 65536 := rfl
  omega

end PhpSandbox.Daemon
