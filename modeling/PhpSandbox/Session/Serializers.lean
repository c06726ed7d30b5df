import PhpSandbox.Var.Progress

/-!
# The serializers of sessions

`PS_SERIALIZER_ENCODE_FUNC` and `PS_SERIALIZER_DECODE_FUNC` of `ext/session/session.c`, for `php` and for
`php_binary`: the variables of a session as one text, and back.

## The model

A session is an array. Every variable is written as a record: its name, and the text that `serialize` makes of its
value, with one `var_hash` for all. The decoder does not know where a record ends but for what the unserializer
leaves; a variable that it cannot read is set to `NULL`. A name that the symbol table has as an alias of itself
(`GLOBALS`), or of the session (`_SESSION`), is not set; its record is left in the middle, and the next record is
expected at the value.

The length of the text is an `int`, too; a text that is cut by that is `outside`.

## What is proved

`records_text`: the decoder reads the records of a session one by one. `records_kept` and `records_within`: what it
can never make, on any text. Together they say for which sessions the decoder gives back what was encoded
(`decode_encode_iff`).
-/

namespace PhpSandbox.Session

open Lib Zend Var List

/-- `session.serialize_handler`. -/
inductive Serializer where
  | php
  | phpBinary
  deriving DecidableEq

open Serializer

/-- What the decoder looks at in a variable of the symbol table. -/
inductive Global where
  /-- Its array is the symbol table. -/
  | symbolTable
  /-- It is `PS(http_session_vars)`. -/
  | httpSessionVars
  /-- Anything else. -/
  | other
  deriving DecidableEq

/-- `EG(symbol_table)`. -/
abbrev SymbolTable := Bytes → Option Global

/-- The names that are not set. -/
def SymbolTable.skips (symbols : SymbolTable) (name : Bytes) : Bool :=
  symbols name = some .symbolTable || symbols name = some .httpSessionVars

/-- A session's variables. -/
abbrev Vars := List (ArrayKey × Addr)

/-- `PS_BIN_UNDEF`. -/
def psBinUndef : ℕ := 128

/-- `PS_BIN_MAX`. -/
def psBinMax : ℕ := 127

/-- `PS_DELIMITER`, `|`. -/
def psDelimiter : UInt8 := 124

/-- `PS_UNDEF_MARKER`, `!`. -/
def psUndefMarker : UInt8 := 33

/-! ### Encoding -/

section Encode

variable (dbl : Doubles) (heap : Heap dbl.Val)

/-- A variable's record for `php`, `some none` for `FAILURE`. -/
def encodePhp (fuel : ℕ) (key : Bytes) (struc : Option Addr) (vh : VarHash) : Option (Option (Bytes × VarHash)) :=
  match struc with
  | some a =>
    if psDelimiter ∈ key ∨ psUndefMarker ∈ key then some none
    else (phpVarSerializeIntern dbl heap fuel [] a vh).map fun r => some (key ++ psDelimiter :: r.1, r.2)
  | none => some (some (psUndefMarker :: key ++ [psDelimiter], vh))

/-- A variable's record for `php_binary`. -/
def encodePhpBinary (fuel : ℕ) (key : Bytes) (struc : Option Addr) (vh : VarHash) : Option (Option (Bytes × VarHash)) :=
  match struc with
  | some a =>
    if psBinMax < key.length then some (some ([], vh))
    else (phpVarSerializeIntern dbl heap fuel [] a vh).map fun r => some (UInt8.ofNat key.length :: key ++ r.1, r.2)
  | none =>
    if psBinMax < key.length then some (some ([], vh))
    else some (some (UInt8.ofNat (key.length &&& psBinUndef) :: key, vh))

/-- `PS_ENCODE_LOOP` over the session, from a place in it on. -/
def psEncodeLoop (code : Bytes → Option Addr → VarHash → Option (Option (Bytes × VarHash))) (session : Vars) :
    Vars → VarHash → Option (Option Bytes)
  | [], _ => some (some [])
  -- "Skipping numeric key"
  | (.index _, _) :: ht, vh => psEncodeLoop code session ht vh
  | (.name key, _) :: ht, vh =>
    match code key (find session (.name key)) vh with
    | none => none
    | some none => some none
    | some (some (text, vh)) => (psEncodeLoop code session ht vh).map fun r => r.map (text ++ ·)

/-- The encoder's record for a variable. -/
def Serializer.code (s : Serializer) (fuel : ℕ) : Bytes → Option Addr → VarHash → Option (Option (Bytes × VarHash)) :=
  match s with
  | .php => encodePhp dbl heap fuel
  | .phpBinary => encodePhpBinary dbl heap fuel

/-- The encoder: `some none` is `FAILURE`, `none` if there is not enough fuel. -/
def encode (s : Serializer) (fuel : ℕ) (session : Vars) : Option (Option Bytes) :=
  psEncodeLoop (s.code dbl heap fuel) session session []

end Encode

/-! ### Decoding -/

/-- How decoding ends. -/
inductive Decoded (D : Type) where
  /-- It returns `SUCCESS` or `FAILURE`, with the session. -/
  | ret (success : Bool) (vars : Vars) (st : State D)
  /-- It reads behind the text. -/
  | fault
  /-- It runs code of a class, or something is too long. -/
  | outside
  /-- There is not enough fuel. -/
  | fuel
  deriving DecidableEq

section Decode

variable (dbl : Doubles) (symbols : SymbolTable) (buf : Bytes)

/-- `PS_ADD_VARL`: a variable that is not there is added as `NULL`. -/
def psAddVarl {D : Type} (vars : Vars) (name : Bytes) (st : State D) : Vars × State D :=
  match find vars (.name name) with
  | some _ => (vars, st)
  | none => (update vars (.name name) st.alloc.1, st.alloc.2)

/-- What is done with the value of a record whose name is read, and then with the records after it. -/
def decodeValue (depth : ℕ) (name : Bytes) (hasValue : Bool) (q : ℕ) (vars : Vars) (st : State dbl.Val)
    (next : ℕ → Vars → State dbl.Val → Decoded dbl.Val) : Decoded dbl.Val :=
  if symbols.skips name then next q vars st
  else if hasValue then
    match phpVarUnserialize dbl buf depth st.alloc.1 q true st.alloc.2 with
    | .ret true current q st =>
      let (vars, st) := psAddVarl (update vars (.name name) current) name st
      next q vars st
    | .ret false _ q st =>
      let (vars, st) := psAddVarl vars name st
      next q vars st
    | .fault => .fault
    | .outside => .outside
    | .fuel => .fuel
  else
    let (vars, st) := psAddVarl vars name st
    next q vars st

/-- The decoder for `php`. -/
def decodePhp (depth : ℕ) : ℕ → ℕ → Vars → State dbl.Val → Decoded dbl.Val
  | 0, _, _, _ => .fuel
  | fuel + 1, p, vars, st =>
    if buf.length ≤ p then .ret true vars st
    else
      let name := (buf.drop p).takeWhile (· ≠ psDelimiter)
      -- `goto break_outer_loop`
      if name.length = (buf.drop p).length then .ret true vars st
      else if name.head? = some psUndefMarker then
        decodeValue dbl symbols buf depth name.tail false (p + name.length + 1) vars st (decodePhp depth fuel)
      else decodeValue dbl symbols buf depth name true (p + name.length + 1) vars st (decodePhp depth fuel)

/-- The decoder for `php_binary`. -/
def decodePhpBinary (depth : ℕ) : ℕ → ℕ → Vars → State dbl.Val → Decoded dbl.Val
  | 0, _, _, _ => .fuel
  | fuel + 1, p, vars, st =>
    if buf.length ≤ p then .ret true vars st
    else
      let namelen := (byteAt buf p).toNat % psBinUndef
      if buf.length ≤ p + namelen then .ret false vars st
      else
        decodeValue dbl symbols buf depth ((buf.drop (p + 1)).take namelen) ((byteAt buf p).toNat < psBinUndef)
          (p + namelen + 1) vars st (decodePhpBinary depth fuel)

/-- The loop over the records. -/
def Serializer.records (s : Serializer) (depth fuel p : ℕ) (vars : Vars) (st : State dbl.Val) : Decoded dbl.Val :=
  match s with
  | .php => decodePhp dbl symbols buf depth fuel p vars st
  | .phpBinary => decodePhpBinary dbl symbols buf depth fuel p vars st

/-- The decoder, into an empty session. The length of the text is an `int`. -/
def decode (s : Serializer) (fuel : ℕ) : Decoded dbl.Val :=
  -- `p < endptr` fails at once
  if toInt buf.length ≤ 0 then .ret true [] ⟨⟨[], []⟩, []⟩
  else if toInt buf.length ≠ buf.length then .outside
  else s.records dbl symbols buf fuel fuel 0 [] ⟨⟨[], []⟩, []⟩

end Decode

/-! ### Records -/

variable (s : Serializer)

/-- The names that make the encoder return `FAILURE`. -/
def Serializer.refuses (name : Bytes) : Prop :=
  s = .php ∧ (psDelimiter ∈ name ∨ psUndefMarker ∈ name)

instance (s : Serializer) (name : Bytes) : Decidable (s.refuses name) := inferInstanceAs (Decidable (_ ∧ _))

/-- A session that has such a name. -/
def Serializer.Refuses {D : Type} (s : Serializer) (els : Elements D) : Prop :=
  ∃ name, .name name ∈ els.keys ∧ s.refuses name

/-- The names that are too long for a record. -/
def Serializer.drops (name : Bytes) : Prop := s = .phpBinary ∧ psBinMax < name.length

instance (s : Serializer) (name : Bytes) : Decidable (s.drops name) := inferInstanceAs (Decidable (_ ∧ _))

/-- A record: the name and the text of the value. -/
def Serializer.record (name text : Bytes) : Bytes :=
  match s with
  | .php => name ++ psDelimiter :: text
  | .phpBinary => UInt8.ofNat name.length :: name ++ text

/-- The records of a session. -/
def Serializer.text (s : Serializer) (dbl : Doubles) : Elements dbl.Val → Bytes
  | .nil => []
  | .cons (.index _) _ rest => s.text dbl rest
  | .cons (.name name) data rest =>
    (if s.drops name then [] else s.record name (data.text dbl)) ++ s.text dbl rest

/-- A session whose keys are strings. -/
def IsSession {D : Type} : Elements D → Prop
  | .nil => True
  | .cons key data rest => (∃ name, key = .name name) ∧ data.IsValue ∧ IsSession rest

/-! ### What is encoded -/

section Encoded

variable {dbl : Doubles} {heap : Heap dbl.Val}

/-- The record of a variable. -/
theorem code_heldAt (s : Serializer) {v : Data dbl.Val} {a : Addr} (hv : v.HeldAt heap a) {fuel : ℕ}
    (hfuel : v.depth ≤ fuel) (name : Bytes) (vh : VarHash) :
    ∃ vh', s.code dbl heap fuel name (some a) vh =
      some (if s.refuses name then none
        else some (if s.drops name then [] else s.record name (v.text dbl), vh')) := by
  obtain ⟨vh', h⟩ := phpVarSerializeIntern_heldAt hv hfuel (forall_mem_nil _) vh
  cases s with
  | php =>
    refine ⟨vh', ?_⟩
    by_cases hname : psDelimiter ∈ name ∨ psUndefMarker ∈ name
    · simp [code, encodePhp, refuses, hname]
    · simp [code, encodePhp, refuses, drops, record, hname, h]
  | phpBinary =>
    by_cases hname : psBinMax < name.length
    · exact ⟨vh, by simp [code, encodePhpBinary, refuses, drops, hname]⟩
    · exact ⟨vh', by simp [code, encodePhpBinary, refuses, drops, record,
        hname, h]⟩

/-- The loop over the variables. -/
theorem psEncodeLoop_heldIn (s : Serializer) {session : Vars} {els : Elements dbl.Val} (hels : IsSession els)
    {ht : Vars} (hheld : els.HeldIn heap ht) (hfind : ∀ x ∈ ht, find session x.1 = some x.2) {fuel : ℕ}
    (hfuel : els.depth ≤ fuel) (vh : VarHash) :
    ∃ result, psEncodeLoop (s.code dbl heap fuel) session ht vh = some result ∧
      (s.Refuses els → result = none) ∧ (¬ s.Refuses els → result = some (s.text dbl els)) := by
  match els with
  | .nil =>
    rw [Elements.HeldIn] at hheld
    subst hheld
    refine ⟨some [], rfl, ?_, fun _ => rfl⟩
    rintro ⟨name, hmem, -⟩
    cases hmem
  | .cons key data rest =>
    obtain ⟨⟨name, rfl⟩, -, hrest⟩ := hels
    obtain ⟨a, ht, rfl, hdata, hheld⟩ := hheld
    have hdepth : data.depth ≤ fuel ∧ rest.depth ≤ fuel := Nat.max_le.mp hfuel
    obtain ⟨vh', hcode⟩ := code_heldAt s hdata hdepth.1 name vh
    obtain ⟨result, hloop, hrefused, htext⟩ := psEncodeLoop_heldIn s hrest hheld
      (fun x hx => hfind x (mem_cons_of_mem _ hx)) hdepth.2 vh'
    rw [psEncodeLoop, hfind _ mem_cons_self, hcode]
    by_cases hname : s.refuses name
    · refine ⟨none, by simp only [if_pos hname], fun _ => rfl, fun h => absurd ⟨name, ?_, hname⟩ h⟩
      exact mem_cons_self
    simp only [if_neg hname, hloop, Option.map_some]
    refine ⟨_, rfl, ?_, ?_⟩
    · rintro ⟨name', hmem, hname'⟩
      rcases mem_cons.mp hmem with heq | hmem
      · cases heq
        exact absurd hname' hname
      · rw [hrefused ⟨name', hmem, hname'⟩, Option.map_none]
    · intro h
      rw [htext fun ⟨name', hmem, hname'⟩ => h ⟨name', mem_cons_of_mem _ hmem, hname'⟩, Option.map_some, text]

end Encoded

/-! ### What is decoded -/

section Records

variable {dbl : Doubles} {symbols : SymbolTable} {buf : Bytes} {depth fuel p : ℕ} {vars : Vars} {st : State dbl.Val}

/-- The decoder finds the name of a record, and what comes after it. -/
theorem records_record (s : Serializer) {name text rest : Bytes} (hrefuses : ¬ s.refuses name)
    (hdrops : ¬ s.drops name) (htext : text ≠ [])
    (hbuf : buf.drop p = s.record name text ++ rest) :
    s.records dbl symbols buf depth (fuel + 1) p vars st = decodeValue dbl symbols buf depth name true
        (p + name.length + 1) vars st (s.records dbl symbols buf depth fuel) ∧
      buf.drop (p + name.length + 1) = text ++ rest := by
  cases s with
  | php =>
    have hclean : psDelimiter ∉ name ∧ psUndefMarker ∉ name := by simpa [refuses] using hrefuses
    simp only [record, append_assoc, cons_append] at hbuf
    have htake : (buf.drop p).takeWhile (· ≠ psDelimiter) = name := by
      rw [hbuf, takeWhile_append_of_pos]
      · simp
      · intro c hc
        rw [decide_eq_true_eq]
        rintro rfl
        exact hclean.1 hc
    have hhead : name.head? ≠ some psUndefMarker := fun h => hclean.2 (mem_of_mem_head? h)
    have hlen := congrArg List.length hbuf
    rw [length_drop, length_append, length_cons] at hlen
    have hshort : name.length ≠ (buf.drop p).length := by
      rw [length_drop]
      omega
    refine ⟨?_, ?_⟩
    · simp only [records, decodePhp, htake, show ¬ buf.length ≤ p by omega, hshort, hhead, if_false]
      rfl
    · exact drop_behind (s := [psDelimiter]) (drop_behind hbuf)
  | phpBinary =>
    have hmax : name.length ≤ psBinMax := by simpa [drops] using hdrops
    have hsmall : name.length < psBinUndef := Nat.lt_succ_of_le hmax
    simp only [record, append_assoc, cons_append] at hbuf
    have hnat : (UInt8.ofNat name.length).toNat = name.length :=
      UInt8.toNat_ofNat_of_lt' (hsmall.trans (by decide))
    have hbyte : (byteAt buf p).toNat = name.length := by
      have h := byteAt_add buf p 0
      rw [hbuf] at h
      exact (congrArg UInt8.toNat h).trans hnat
    have hbuf1 : buf.drop (p + 1) = name ++ (text ++ rest) := drop_behind (s := [UInt8.ofNat name.length]) hbuf
    have hlen := congrArg List.length hbuf
    have hpos := length_pos_iff.mpr htext
    rw [length_drop, length_cons, length_append, length_append] at hlen
    refine ⟨?_, ?_⟩
    · simp only [records, decodePhpBinary, hbyte, Nat.mod_eq_of_lt hsmall, hsmall, hbuf1, take_left,
        decide_true, show ¬ buf.length ≤ p by omega, show ¬ buf.length ≤ p + name.length by omega, if_false]
      rfl
    · rw [Nat.add_right_comm]
      exact drop_behind hbuf1

/-- A value that is decoded is put into the session. -/
theorem decodeValue_value {name rest : Bytes} {q : ℕ} {v : Data dbl.Val} (hv : v.IsValue) (hsmall : v.Small)
    (hdepth : v.depth ≤ depth) (hskips : symbols.skips name = false) (hbuf : buf.drop q = v.text dbl ++ rest)
    (hnew : ArrayKey.name name ∉ vars.map Prod.fst) (next : ℕ → Vars → State dbl.Val → Decoded dbl.Val) :
    ∃ st', decodeValue dbl symbols buf depth name true q vars st next =
        next (q + (v.text dbl).length) (vars ++ [(.name name, st.heap.zvals.length)]) st' ∧
      st.alloc.2.heap.Grew st'.heap st.heap.zvals.length ∧
      ∀ heap' : Heap dbl.Val, st'.heap.Same heap' st.heap.zvals.length st'.heap.zvals.length →
        v.HeldAt heap' st.heap.zvals.length := by
  have hlen : st.alloc.2.heap.zvals.length = st.heap.zvals.length + 1 := length_append
  obtain ⟨st', hbuild, hgrew, hheld⟩ := v.build_value hv st.heap.zvals.length st.alloc.2 (by omega) true
  have hread := phpVarUnserialize_text v ((v.fits_iff_small hv).mpr hsmall) hdepth hbuf hbuild
  have hfind : find (update vars (.name name) st.heap.zvals.length) (.name name) = some st.heap.zvals.length := by
    rw [find_update, if_pos rfl]
  have hgrown := hgrew.length
  refine ⟨st', ?_, hgrew, ?_⟩
  · simp only [decodeValue, hskips, Bool.false_eq_true, if_false, if_true]
    rw [show st.alloc.1 = st.heap.zvals.length from rfl, hread]
    simp only [psAddVarl, hfind]
    rw [update_of_not_mem hnew]
  · intro heap' hsame
    exact hheld heap' (hsame _ le_rfl (by omega)) fun b hlo hhi => hsame b (by omega) hhi

/-- **The decoder reads all records**, if there is none that it skips. -/
theorem records_text (s : Serializer) {els : Elements dbl.Val} (hels : IsSession els) (hkeys : els.keys.Nodup)
    (hsmall : els.Small) (hdepth : els.depth ≤ depth) {fuel p : ℕ} {vars : Vars} (st : State dbl.Val)
    (hgood : ∀ name, .name name ∈ els.keys → ¬ s.refuses name ∧ ¬ s.drops name ∧ symbols.skips name = false)
    (hnew : ∀ key ∈ els.keys, key ∉ vars.map Prod.fst) (hbuf : buf.drop p = s.text dbl els)
    (hfuel : els.length < fuel) :
    ∃ vars' st', s.records dbl symbols buf depth fuel p vars st = .ret true (vars ++ vars') st' ∧
      st.heap.zvals.length ≤ st'.heap.zvals.length ∧
      (∀ b < st.heap.zvals.length, st'.heap.zvals[b]? = st.heap.zvals[b]?) ∧
      ∀ heap' : Heap dbl.Val, st'.heap.Same heap' st.heap.zvals.length st'.heap.zvals.length →
        els.HeldIn heap' vars' := by
  obtain ⟨fuel, rfl⟩ := Nat.exists_eq_add_of_le' (Nat.one_le_of_lt hfuel)
  match els with
  | .nil =>
    have hp : buf.length ≤ p := drop_eq_nil_iff.mp hbuf
    refine ⟨[], st, ?_, le_rfl, fun _ _ => rfl, fun _ _ => rfl⟩
    rw [append_nil]
    cases s <;> simp [records, decodePhp, decodePhpBinary, hp]
  | .cons key data rest =>
    obtain ⟨⟨name, rfl⟩, hdata, hrest⟩ := hels
    obtain ⟨hfresh, hkeys⟩ := nodup_cons.mp hkeys
    obtain ⟨hrefuses, hdrops, hskips⟩ := hgood name mem_cons_self
    have hdepth' : data.depth ≤ depth ∧ rest.depth ≤ depth := Nat.max_le.mp hdepth
    rw [text, if_neg hdrops] at hbuf
    have htext : data.text dbl ≠ [] := by
      obtain ⟨t, c, h, -⟩ := getLast_text data
      rw [h]
      exact append_ne_nil_of_right_ne_nil _ (cons_ne_nil _ _)
    obtain ⟨hstep, hbuf⟩ := @records_record dbl symbols buf depth fuel p vars st s name _ _ hrefuses hdrops htext hbuf
    obtain ⟨st1, hvalue, hgrew, hheld1⟩ :=
      @decodeValue_value dbl symbols buf depth vars st name _ _ _ hdata hsmall.1 hdepth'.1 hskips hbuf
      (hnew _ mem_cons_self) (s.records dbl symbols buf depth fuel)
    have hlen : st.alloc.2.heap.zvals.length = st.heap.zvals.length + 1 := length_append
    have hlen1 := hgrew.length
    have hframe1 : ∀ b < st.heap.zvals.length, st1.heap.zvals[b]? = st.heap.zvals[b]? := by
      intro b hb
      rw [hgrew.frame b (by omega) (by omega)]
      exact getElem?_append_left hb
    obtain ⟨vars', st', hrun, hlen', hframe', hheld'⟩ := records_text s hrest hkeys hsmall.2 hdepth'.2 st1
      (fun name' hmem => hgood name' (mem_cons_of_mem _ hmem))
      (not_mem_keys_append hnew hfresh st.heap.zvals.length) (drop_behind hbuf) (Nat.lt_of_succ_lt_succ hfuel)
    refine ⟨(.name name, st.heap.zvals.length) :: vars', st', ?_, by omega, ?_, ?_⟩
    · rw [hstep, hvalue, hrun, append_assoc, singleton_append]
    · intro b hb
      rw [hframe' b (by omega), hframe1 b hb]
    · intro heap' hsame
      refine ⟨_, _, rfl, hheld1 heap' ?_, hheld' heap' ?_⟩
      · intro b hlo hhi
        rw [hsame b hlo (by omega), hframe' b hhi]
      · intro b hlo hhi
        exact hsame b (by omega) hhi

variable {st' : State dbl.Val} {success : Bool} {vars' : Vars}

/-- What a record can do: the cursor goes on, and at most the variable of its name is added. -/
theorem decodeValue_cases {name : Bytes} {hasValue : Bool} {q : ℕ} {next : ℕ → Vars → State dbl.Val → Decoded dbl.Val}
    (h : decodeValue dbl symbols buf depth name hasValue q vars st next = .ret success vars' st') :
    ∃ q' vars1 st1, next q' vars1 st1 = .ret success vars' st' ∧ Advances buf q st q' st1 ∧
      ∀ key ∈ vars1.map Prod.fst, key ∈ vars.map Prod.fst ∨ key = .name name ∧ symbols.skips name = false := by
  have hadd (vars1 : Vars) (st1 : State dbl.Val) : (∀ n, st1.heap.Within n →
    (psAddVarl vars1 name st1).2.heap.Within n) ∧
      ∀ key ∈ (psAddVarl vars1 name st1).1.map Prod.fst, key ∈ vars1.map Prod.fst ∨ key = .name name := by
    unfold psAddVarl
    split
    · exact ⟨fun _ h => h, fun _ h => .inl h⟩
    · exact ⟨fun _ h => h.alloc, fun _ h => mem_keys_update.mp h⟩
  unfold decodeValue at h
  by_cases hskips : symbols.skips name
  · rw [if_pos hskips] at h
    exact ⟨q, vars, st, h, .of_le le_rfl fun _ h => h, fun _ h => .inl h⟩
  have hname : symbols.skips name = false := Bool.eq_false_iff.mpr hskips
  rw [if_neg hskips] at h
  have hread := (@phpVarUnserialize_advancing dbl buf depth).alloc q true st
  cases hasValue with
  | false =>
    obtain ⟨hst, hkeys⟩ := hadd vars st
    exact ⟨q, _, _, h, .of_le le_rfl hst, fun key hkey => (hkeys key hkey).imp_right fun h => ⟨h, hname⟩⟩
  | true =>
    cases ho : phpVarUnserialize dbl buf depth st.alloc.1 q true st.alloc.2 with
    | ret ok current q1 st1 =>
      rw [ho] at h hread
      cases ok with
      | true =>
        obtain ⟨hst, hkeys⟩ := hadd (update vars (.name name) current) st1
        refine ⟨q1, _, _, h, hread.advances.trans (.of_le le_rfl hst), fun key hkey => ?_⟩
        rcases hkeys key hkey with hkey | hkey
        · exact (mem_keys_update.mp hkey).imp_right fun h => ⟨h, hname⟩
        · exact .inr ⟨hkey, hname⟩
      | false =>
        obtain ⟨hst, hkeys⟩ := hadd vars st1
        exact ⟨q1, _, _, h, Advances.trans hread (.of_le le_rfl hst),
          fun key hkey => (hkeys key hkey).imp_right fun h => ⟨h, hname⟩⟩
    | fault | outside | fuel => rw [ho] at h; cases h

variable (s : Serializer)

/-- One round of the decoder: it is done, or there is a record. -/
theorem records_cases (h : s.records dbl symbols buf depth (fuel + 1) p vars st = .ret success vars' st') :
    vars' = vars ∧ st' = st ∨ ∃ name q vars1 st1, ¬ s.drops name ∧
      s.records dbl symbols buf depth fuel q vars1 st1 = .ret success vars' st' ∧ Advances buf p st q st1 ∧
      ∀ key ∈ vars1.map Prod.fst, key ∈ vars.map Prod.fst ∨ key = .name name ∧ symbols.skips name = false := by
  have hround : vars' = vars ∧ st' = st ∨ ∃ name hasValue q, ¬ s.drops name ∧ p ≤ q ∧
      decodeValue dbl symbols buf depth name hasValue q vars st (s.records dbl symbols buf depth fuel) =
        .ret success vars' st' := by
    cases s with
    | php =>
      have hdrops (name : Bytes) : ¬ drops .php name := fun h => nomatch h.1
      simp only [records, decodePhp] at h
      split_ifs at h
      · cases h
        exact .inl ⟨rfl, rfl⟩
      · cases h
        exact .inl ⟨rfl, rfl⟩
      · exact .inr ⟨_, _, _, hdrops _, by omega, h⟩
      · exact .inr ⟨_, _, _, hdrops _, by omega, h⟩
    | phpBinary =>
      simp only [records, decodePhpBinary] at h
      split_ifs at h
      · cases h
        exact .inl ⟨rfl, rfl⟩
      · cases h
        exact .inl ⟨rfl, rfl⟩
      · refine .inr ⟨_, _, _, ?_, by omega, h⟩
        rintro ⟨-, hlong⟩
        have hmod : (byteAt buf p).toNat % psBinUndef < psBinUndef := Nat.mod_lt _ (by decide)
        have htake := length_take_le ((byteAt buf p).toNat % psBinUndef) (buf.drop (p + 1))
        exact absurd (hlong.trans_le htake) (Nat.not_lt.mpr (Nat.le_of_lt_succ hmod))
  refine hround.imp_right ?_
  rintro ⟨name, hasValue, q, hdrops, hq, hvalue⟩
  obtain ⟨q', vars1, st1, hnext, hadv, hkeys⟩ := decodeValue_cases hvalue
  exact ⟨name, q', vars1, st1, hdrops, hnext, (Advances.of_le hq fun _ h => h).trans hadv, hkeys⟩

/-- The session has no name that is skipped or too long. -/
def Serializer.Kept (symbols : SymbolTable) (keys : List ArrayKey) : Prop :=
  ∀ name, .name name ∈ keys → ¬ s.drops name ∧ symbols.skips name = false

/-- **No variable has a name that is skipped**, or one that is too long, in whatever is decoded. -/
theorem records_kept (hvars : s.Kept symbols (vars.map Prod.fst))
    (h : s.records dbl symbols buf depth fuel p vars st = .ret success vars' st') :
    s.Kept symbols (vars'.map Prod.fst) := by
  induction fuel generalizing p vars st with
  | zero => cases s <;> cases h
  | succ fuel ih =>
    rcases records_cases s h with ⟨rfl, -⟩ | ⟨name, q, vars1, st1, hdrops, hnext, -, hkeys⟩
    · exact hvars
    refine ih (fun name' hmem => ?_) hnext
    rcases hkeys _ hmem with hmem | ⟨heq, hskips⟩
    · exact hvars name' hmem
    · cases heq
      exact ⟨hdrops, hskips⟩

/-- **No array has more elements than there is text**, in whatever is decoded. -/
theorem records_within {n : ℕ} (hst : st.heap.Within n)
    (h : s.records dbl symbols buf depth fuel p vars st = .ret success vars' st') :
    st'.heap.Within (n + (buf.length - min p buf.length)) := by
  induction fuel generalizing p vars st n with
  | zero => cases s <;> cases h
  | succ fuel ih =>
    rcases records_cases s h with ⟨-, rfl⟩ | ⟨name, q, vars1, st1, -, hnext, hadv, -⟩
    · exact hst.mono (Nat.le_add_right n _)
    · have hle := hadv.le
      exact (ih (hadv.within n hst) hnext).mono (by omega)

end Records

/-! ### The round trip -/

theorem heldIn_keys {D : Type} {heap : Heap D} {els : Elements D} {vars : Vars} (h : els.HeldIn heap vars) :
    vars.map Prod.fst = els.keys := by
  match els with
  | .nil =>
    rw [Elements.HeldIn] at h
    rw [h]
    rfl
  | .cons key data rest =>
    obtain ⟨a, vars, rfl, -, hrest⟩ := h
    rw [map_cons, heldIn_keys hrest, Elements.keys]

/-- What can come back: no name is skipped or too long, no array is too large, and the text fits. -/
structure Serializer.Returns (s : Serializer) (dbl : Doubles) (symbols : SymbolTable) (els : Elements dbl.Val)
    : Prop where
  /-- No name is skipped or too long. -/
  kept : s.Kept symbols els.keys
  small : els.Small
  length : (s.text dbl els).length < 2 ^ 31

variable {symbols : SymbolTable}

/-- The decoder, on a text that fits. -/
theorem decode_eq_records {dbl : Doubles} {buf : Bytes} (hbuf : buf.length < 2 ^ 31)
    (s : Serializer) {fuel : ℕ} (hfuel : 0 < fuel) :
    decode dbl symbols buf s fuel = s.records dbl symbols buf fuel fuel 0 [] ⟨⟨[], []⟩, []⟩ := by
  obtain ⟨fuel, rfl⟩ := Nat.exists_eq_add_of_le' hfuel
  rw [decode, toInt_eq hbuf]
  by_cases hempty : buf.length = 0
  · rw [if_pos (by omega)]
    cases s <;> simp [records, decodePhp, decodePhpBinary, hempty]
  · rw [if_neg (by omega), if_neg (by simp)]

/-- The decoder, on a text that does not. -/
theorem decode_of_le {dbl : Doubles} {buf : Bytes} (hbuf : 2 ^ 31 ≤ buf.length) (s : Serializer) (fuel : ℕ) :
    decode dbl symbols buf s fuel = .ret true [] ⟨⟨[], []⟩, []⟩ ∨ decode dbl symbols buf s fuel = .outside := by
  have hne : toInt buf.length ≠ buf.length := by
    have hlt := Int.bmod_lt (x := (buf.length : ℤ)) (m := 2 ^ 32) (by decide)
    rw [toInt]
    omega
  rw [decode]
  by_cases hneg : toInt buf.length ≤ 0
  · exact .inl (if_pos hneg)
  · rw [if_neg hneg, if_pos hne]
    exact .inr rfl

/-- **What is decoded is what was encoded just when no name is skipped**, none is too long for `php_binary`, no
array is too large and the text fits; unless the encoder refuses the session. -/
theorem decode_encode_iff (dbl : Doubles) (symbols : SymbolTable) (heap : Heap dbl.Val) (session : Vars)
    (els : Elements dbl.Val) (hheld : els.HeldIn heap session) (hels : IsSession els) (hkeys : els.keys.Nodup)
    (s : Serializer) :
    ∃ n result, (∀ fuel, n ≤ fuel → encode dbl heap s fuel session = some result) ∧
      ((∀ text, result = some text → ∀ fuel, n ≤ fuel → ∃ vars st,
          decode dbl symbols text s fuel = .ret true vars st ∧ els.HeldIn st.heap vars) ↔
        s.Refuses els ∨ s.Returns dbl symbols els) := by
  have hfind : ∀ x ∈ session, find session x.1 = some x.2 := by
    rw [← heldIn_keys hheld] at hkeys
    exact fun x hx => find_of_mem hkeys hx
  have hencode (fuel : ℕ) (hfuel : els.depth ≤ fuel) := psEncodeLoop_heldIn s hels hheld hfind hfuel []
  by_cases hrefuses : s.Refuses els
  · refine ⟨els.depth, none, ?_, ?_⟩
    · intro fuel hfuel
      obtain ⟨result, h, hnone, -⟩ := hencode fuel hfuel
      rw [encode, h, hnone hrefuses]
    · exact iff_of_true (fun text h => nomatch h) (.inl hrefuses)
  · refine ⟨els.depth + els.length + 1, some (s.text dbl els), ?_, ?_, ?_⟩
    · intro fuel hfuel
      obtain ⟨result, h, -, htext⟩ := hencode fuel (by omega)
      rw [encode, h, htext hrefuses]
    · intro h
      obtain ⟨vars, st, hdecode, hvars⟩ := h _ rfl _ le_rfl
      have hlength : (s.text dbl els).length < 2 ^ 31 := by
        by_contra hlong
        rcases decode_of_le (Nat.le_of_not_lt hlong) s (els.depth + els.length + 1) with h | h
        · rw [h] at hdecode
          cases hdecode
          -- nothing is decoded, so nothing was encoded
          cases els with
          | nil => exact hlong (Nat.two_pow_pos 31)
          | cons key data rest =>
            obtain ⟨a, ht, heq, -, -⟩ := hvars
            cases heq
        · rw [h] at hdecode
          cases hdecode
      rw [decode_eq_records hlength s (Nat.succ_pos _)] at hdecode
      have hheap : st.heap.Within (0 + ((s.text dbl els).length - min 0 (s.text dbl els).length)) :=
        records_within s (fun z hz => absurd hz not_mem_nil) hdecode
      refine .inr ⟨?_, hvars.small hheap (by omega), hlength⟩
      rw [← heldIn_keys hvars]
      exact records_kept s (fun name hmem => absurd hmem not_mem_nil) hdecode
    · intro hreturns text htext fuel hfuel
      cases htext
      obtain ⟨hkept, hsmall, hlength⟩ := hreturns.resolve_left hrefuses
      have hdepth : els.depth ≤ fuel ∧ els.length < fuel := by omega
      have hnew : ∀ key ∈ els.keys, key ∉ ([] : Vars).map Prod.fst := fun _ _ => not_mem_nil
      obtain ⟨vars, st, hrun, -, -, hvars⟩ := records_text s hels hkeys hsmall hdepth.1 ⟨⟨[], []⟩, []⟩
        (fun name hmem => ⟨fun h => hrefuses ⟨name, hmem, h⟩, hkept name hmem⟩)
        hnew drop_zero hdepth.2
      refine ⟨vars, st, ?_, hvars st.heap fun _ _ _ => rfl⟩
      rw [decode_eq_records hlength s (by omega)]
      exact hrun

/-- A symbol table with nothing in it but `GLOBALS` and `_SESSION`. -/
def startSymbols : SymbolTable := fun name =>
  if name = ascii "GLOBALS" then some .symbolTable else if name = ascii "_SESSION" then some .httpSessionVars else none

/-- A variable with the text of a record in it. -/
def recordHeap : Heap noDoubles.Val := ⟨[⟨false, .scalar (.string (ascii "|admin|i:1;"))⟩], []⟩

/-- The session in which it is called `user`. -/
def userSession : Elements noDoubles.Val :=
  .cons (.name (ascii "user")) (.scalar (.string (ascii "|admin|i:1;"))) .nil

theorem decode_encode_user :
    ∃ n result, (∀ fuel, n ≤ fuel → encode noDoubles recordHeap .php fuel [(.name (ascii "user"), 0)] = some result) ∧
      ∀ text, result = some text → ∀ fuel, n ≤ fuel → ∃ vars st,
        decode noDoubles startSymbols text .php fuel = .ret true vars st ∧ userSession.HeldIn st.heap vars := by
  have hheld : userSession.HeldIn recordHeap [(.name (ascii "user"), 0)] := ⟨0, [], rfl, rfl, rfl⟩
  have hfits : (Scalar.string (ascii "|admin|i:1;") : Scalar noDoubles.Val).Fits := by decide
  have hsession : IsSession userSession := ⟨⟨_, rfl⟩, hfits, trivial⟩
  have hlength : (php.text noDoubles userSession).length < 2 ^ 31 := by decide +kernel
  obtain ⟨n, result, hencode, hdecode⟩ := decode_encode_iff noDoubles startSymbols recordHeap
    [(.name (ascii "user"), 0)] userSession hheld hsession (by decide) .php
  refine ⟨n, result, hencode, hdecode.mpr (.inr ⟨?_, ⟨trivial, trivial⟩, hlength⟩)⟩
  intro name hmem
  cases mem_singleton.mp hmem
  decide

/-- With the name `GLOBALS` for it, the text is read as a record: the session has a variable `admin`. -/
theorem decode_encode_globals :
    encode noDoubles recordHeap .php 2 [(.name (ascii "GLOBALS"), 0)] =
        some (some (ascii "GLOBALS|s:11:\"|admin|i:1;\";")) ∧
      decode noDoubles startSymbols (ascii "GLOBALS|s:11:\"|admin|i:1;\";") .php 5 =
        .ret true [(.name (ascii "s:11:\""), 1), (.name (ascii "admin"), 2)]
          ⟨⟨[⟨false, .scalar .null⟩, ⟨false, .scalar .null⟩, ⟨false, .scalar (.long 1)⟩], []⟩, [0, 2]⟩ := by
  decide +kernel

end PhpSandbox.Session
