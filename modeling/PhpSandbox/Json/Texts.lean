import PhpSandbox.Json.Strings

/-!
# The texts of `json_encode`

If no error code is set, the text is of the grammar of RFC 8259 and denotes the value, is ASCII unless
`JSON_UNESCAPED_UNICODE` is set, and has the characters of the `JSON_HEX_*` options only as `\u` escapes, if and only if
the number of elements of every array is an `int` (`phpJsonEncode_isText_iff`): an array with more elements is written
as an empty one. The error code is then set exactly if a string is not in UTF-8 or an array is too deep
(`errorCode_phpJsonEncode`).

The loop over the entries writes a comma in front of each entry but the first, while the grammar has the comma behind
the white space of the entry before; `Joined` is what the two have in common.
-/

namespace PhpSandbox.Json

open Lib Lib.JsonText Out List
open Zend (ArrayKey)
open Var (printLong)

/-! ### Lists -/

variable {ht : Elems} {o : Options}

theorem jsonDetermineArrayType_iff {idx : ℕ} :
    jsonDetermineArrayType idx ht = true ↔
      ht.keys = (range' idx ht.keys.length).map fun i => ArrayKey.index (i : ℤ) := by
  induction ht using Elems.keys.induct generalizing idx with
  | case1 => simp [jsonDetermineArrayType, Elems.keys]
  | case2 key data rest ih =>
    cases key with
    | index h => simp [jsonDetermineArrayType, Elems.keys, range'_succ, ih]
    | name s => simp [jsonDetermineArrayType, Elems.keys, range'_succ]

theorem isList_iff : ht.IsList ↔ jsonDetermineArrayType 0 ht = true := by
  rw [jsonDetermineArrayType_iff, Elems.IsList, range_eq_range']

theorem eq_nil_of_keys (h : ht.keys = []) : ht = .nil := by
  cases ht with
  | nil => rfl
  | cons key data rest => exact absurd h (cons_ne_nil _ _)

/-- Nothing is written of the entries if there are none, or too many. -/
theorem entries_eq (h : ht.keys = [] ∨ ht.counted = true) (o : Options) (maxDepth : ℤ) (depth : ℕ) (object : Bool) :
    (if ht.counted then encodeEntries o maxDepth depth object false ht else .lit []) =
      encodeEntries o maxDepth depth object false ht := by
  rcases h with h | h
  · rw [eq_nil_of_keys h, encodeEntries, ite_self]
  · rw [if_pos h]

theorem outputObject_eq_false_iff (h : ht.keys = [] ∨ ht.counted = true) :
    outputObject o ht = false ↔ o.forceObject = false ∧ ht.IsList := by
  rw [outputObject, Bool.or_eq_false_iff, isList_iff]
  rcases h with h | h
  · rw [eq_nil_of_keys h]
    exact and_congr_right fun _ => iff_of_true rfl rfl
  · rw [h, Bool.true_and, Bool.not_eq_false']

theorem outputObject_eq_true_iff (h : ht.keys = [] ∨ ht.counted = true) :
    outputObject o ht = true ↔ o.forceObject = true ∨ ¬ ht.IsList := by
  rw [← Bool.not_eq_false, outputObject_eq_false_iff h, not_and_or, Bool.not_eq_false]

/-- A list has no string keys. -/
theorem outputObject_of_name_mem {s : Bytes} (hcounted : ht.keys = [] ∨ ht.counted = true)
    (h : ArrayKey.name s ∈ ht.keys) : outputObject o ht = true := by
  refine (outputObject_eq_true_iff hcounted).2 (.inr fun hlist => ?_)
  rw [hlist] at h
  obtain ⟨i, -, hi⟩ := mem_map.1 h
  exact nomatch hi

/-! ### White space -/

variable {c : UInt8}

theorem isWs_jsonPrettyPrintChar (o : Options) (hc : c = 10 ∨ c = 32) : IsWs (jsonPrettyPrintChar o c) := by
  intro d hd
  rw [jsonPrettyPrintChar] at hd
  split_ifs at hd
  · obtain rfl := mem_singleton.1 hd
    rcases hc with rfl | rfl
    · exact .inr (.inr (.inl rfl))
    · exact .inl rfl
  · exact absurd hd not_mem_nil

theorem isWs_jsonPrettyPrintIndent (o : Options) (depth : ℕ) : IsWs (jsonPrettyPrintIndent o depth) := by
  intro c hc
  rw [jsonPrettyPrintIndent] at hc
  split_ifs at hc
  · obtain ⟨l, hl, hc⟩ := mem_flatten.1 hc
    rw [eq_of_mem_replicate hl] at hc
    have hspace : ∀ c ∈ ascii "    ", c = 0x20 := by decide
    exact .inl (hspace c hc)
  · exact absurd hc not_mem_nil

/-- The new line in front of an entry or of the closing bracket. -/
theorem isWs_newline (o : Options) (depth : ℕ) : IsWs (jsonPrettyPrintChar o 10 ++ jsonPrettyPrintIndent o depth) :=
  (isWs_jsonPrettyPrintChar o (.inl rfl)).append (isWs_jsonPrettyPrintIndent o depth)

/-! ### Entries -/

/-- What the loop has written: items with commas between them, and one in front if `needComma` was set before. -/
def Joined {α : Type} (item : Bytes → α → Prop) (needComma : Bool) (t : Bytes) : List α → Prop
  | [] => t = []
  | a :: as => ∃ r, t = (if needComma then [44] else []) ++ r ∧ ∀ w, IsWs w → Separated item (r ++ w) (a :: as)

theorem Joined.cons {α : Type} {item : Bytes → α → Prop} (needComma : Bool) {w t r : Bytes} {a : α} {as : List α}
    (hw : IsWs w) (ht : item t a) (hr : Joined item true r as) :
    Joined item needComma ((if needComma then [44] else []) ++ (w ++ t) ++ r) (a :: as) := by
  refine ⟨w ++ t ++ r, append_assoc _ _ _, fun w' hw' => ?_⟩
  cases as with
  | nil =>
    obtain rfl : r = [] := hr
    rw [append_nil]
    exact .one hw ht hw'
  | cons b bs =>
    obtain ⟨r', rfl, hsep⟩ := hr
    have hcons := Separated.cons hw ht isWs_nil (hsep w' hw')
    rw [append_nil] at hcons
    simpa using hcons

section Brackets

variable {plain : ℕ → Prop} {t w : Bytes}

theorem Joined.isValue_array {js : List Json} (h : Joined (IsValue plain) false t js) (hw : IsWs w) :
    IsValue plain (91 :: (t ++ w) ++ [93]) (.array js) := by
  cases js with
  | nil =>
    obtain rfl : t = [] := h
    exact .emptyArray hw
  | cons j js =>
    obtain ⟨r, rfl, hsep⟩ := h
    exact .array (hsep w hw)

theorem Joined.isValue_object {ms : List (List ℕ × Json)} (h : Joined (IsMember plain (IsValue plain)) false t ms)
    (hw : IsWs w) : IsValue plain (123 :: (t ++ w) ++ [125]) (.object ms) := by
  cases ms with
  | nil =>
    obtain rfl : t = [] := h
    exact .emptyObject hw
  | cons m ms =>
    obtain ⟨r, rfl, hsep⟩ := h
    exact .object (hsep w hw)

end Brackets

theorem errorCode_jsonEncodeArray {maxDepth : ℤ} {depth : ℕ} {object needComma : Bool} {entries : Out} :
    (jsonEncodeArray o maxDepth depth object needComma entries).errorCode = none ↔
      entries.errorCode = none ∧ depth + 1 ≤ maxDepth := by
  rw [jsonEncodeArray]
  by_cases h : maxDepth < depth + 1
  · rw [if_pos h]
    simpa using fun _ => h
  · rw [if_neg h]
    simpa using fun _ => not_lt.1 h

/-- The text of an array is its entries, maybe a new line, and the brackets. -/
theorem text_jsonEncodeArray (o : Options) (maxDepth : ℤ) (depth : ℕ) (object needComma : Bool) (entries : Out) :
    ∃ w, IsWs w ∧ (jsonEncodeArray o maxDepth depth object needComma entries).text =
      (if object then 123 else 91) :: (entries.text ++ w) ++ [if object then 125 else 93] := by
  refine ⟨if needComma then jsonPrettyPrintChar o 10 ++ jsonPrettyPrintIndent o depth else [], ?_, ?_⟩
  · split_ifs
    · exact isWs_newline o depth
    · exact isWs_nil
  · have herror : (if maxDepth < depth + 1 then ⟨[], some .depth⟩ else lit [] : Out).text = [] := by
      split_ifs <;> rfl
    simp only [jsonEncodeArray, text_append, text_lit, herror, append_nil, cons_append, nil_append, append_assoc]

/-! ### The whole text -/

mutual

/-- Without an error the text is a value of the grammar that denotes the value. -/
theorem isValue_phpJsonEncode (o : Options) (maxDepth : ℤ) :
    ∀ (v : Value) (depth : ℕ), v.Counted → (phpJsonEncode o maxDepth depth v).errorCode = none →
      ∃ j, Denotes o.forceObject v j ∧ ∀ plain : ℕ → Prop, (∀ cp, Allowed o cp → plain cp) →
        IsValue plain (phpJsonEncode o maxDepth depth v).text j
  | .null, _, _, _ => ⟨.null, .null, fun _ _ => .null⟩
  | .bool true, _, _, _ => ⟨.bool true, .bool true, fun _ _ => .true⟩
  | .bool false, _, _, _ => ⟨.bool false, .bool false, fun _ _ => .false⟩
  | .long n, _, _, _ => ⟨.number n, .long n, fun _ _ => .number (isNumber_printLong n)⟩
  | .string s, depth, _, h => by
    obtain ⟨cps, hcps, htext⟩ := isString_jsonEscapeString h
    exact ⟨.string cps, .string hcps, fun plain hplain => .string (htext plain hplain)⟩
  | .array ht, depth, hcounted, h => by
    rw [phpJsonEncode, entries_eq hcounted.1] at h ⊢
    obtain ⟨hentries, -⟩ := errorCode_jsonEncodeArray.1 h
    obtain ⟨w, hw, htext⟩ := text_jsonEncodeArray o maxDepth depth (outputObject o ht) ht.counted
      (encodeEntries o maxDepth (depth + 1) (outputObject o ht) false ht)
    rw [htext]
    cases hobject : outputObject o ht with
    | false =>
      rw [hobject] at hentries
      obtain ⟨hforce, hlist⟩ := (outputObject_eq_false_iff hcounted.1).1 hobject
      obtain ⟨js, hjs, hjoined⟩ := joined_elements o maxDepth ht (depth + 1) false hcounted.2 hentries
      exact ⟨.array js, .array hforce hlist hjs, fun plain hplain => (hjoined plain hplain).isValue_array hw⟩
    | true =>
      rw [hobject] at hentries
      obtain ⟨ms, hms, hjoined⟩ := joined_members o maxDepth ht (depth + 1) false hcounted.2 hentries
      exact ⟨.object ms, .object ((outputObject_eq_true_iff hcounted.1).1 hobject) hms,
        fun plain hplain => (hjoined plain hplain).isValue_object hw⟩

/-- The loop over a list. -/
theorem joined_elements (o : Options) (maxDepth : ℤ) :
    ∀ (ht : Elems) (depth : ℕ) (needComma : Bool), ht.Counted →
      (encodeEntries o maxDepth depth false needComma ht).errorCode = none →
      ∃ js, DenotesElements o.forceObject ht js ∧ ∀ plain : ℕ → Prop, (∀ cp, Allowed o cp → plain cp) →
        Joined (IsValue plain) needComma (encodeEntries o maxDepth depth false needComma ht).text js
  | .nil, _, _, _, _ => ⟨[], .nil, fun _ _ => rfl⟩
  | .cons key data rest, depth, needComma, hcounted, h => by
    rw [encodeEntries] at h ⊢
    simp only [errorCode_append, errorCode_lit, true_and] at h
    obtain ⟨j, hj, hvalue⟩ := isValue_phpJsonEncode o maxDepth data depth hcounted.1 h.1.2
    obtain ⟨js, hjs, hrest⟩ := joined_elements o maxDepth rest depth true hcounted.2 h.2
    refine ⟨j :: js, .cons hj hjs, fun plain hplain => ?_⟩
    have hjoined := Joined.cons needComma (isWs_newline o depth) (hvalue plain hplain)
      (hrest plain hplain)
    simpa [entryStart] using hjoined

/-- The loop over the entries of an object. -/
theorem joined_members (o : Options) (maxDepth : ℤ) :
    ∀ (ht : Elems) (depth : ℕ) (needComma : Bool), ht.Counted →
      (encodeEntries o maxDepth depth true needComma ht).errorCode = none →
      ∃ ms, DenotesMembers o.forceObject ht ms ∧ ∀ plain : ℕ → Prop, (∀ cp, Allowed o cp → plain cp) →
        Joined (IsMember plain (IsValue plain)) needComma (encodeEntries o maxDepth depth true needComma ht).text ms
  | .nil, _, _, _, _ => ⟨[], .nil, fun _ _ => rfl⟩
  | .cons key data rest, depth, needComma, hcounted, h => by
    rw [encodeEntries] at h ⊢
    simp only [entryStart, if_pos, errorCode_append, errorCode_lit, true_and, and_true] at h
    obtain ⟨cps, hcps, hkey⟩ := isString_keyText h.1.1
    obtain ⟨j, hj, hvalue⟩ := isValue_phpJsonEncode o maxDepth data depth hcounted.1 h.1.2
    obtain ⟨ms, hms, hrest⟩ := joined_members o maxDepth rest depth true hcounted.2 h.2
    refine ⟨(cps, j) :: ms, .cons hcps hj hms, fun plain hplain => ?_⟩
    have hmember := IsMember.mk (hkey plain hplain) isWs_nil (isWs_jsonPrettyPrintChar o (.inr rfl))
      (hvalue plain hplain)
    have hjoined := Joined.cons needComma (isWs_newline o depth) hmember (hrest plain hplain)
    simpa [entryStart] using hjoined

end

/-! ### The bytes of a text -/

/-- The bytes that no option is about. -/
def Harmless (c : UInt8) : Prop := c.toNat < 128 ∧ (c ≠ 60 ∧ c ≠ 62) ∧ c ≠ 38 ∧ c ≠ 39

instance (c : UInt8) : Decidable (Harmless c) := inferInstanceAs (Decidable (_ ∧ _))

theorem Harmless.allowed (h : Harmless c) : ByteAllowed o c :=
  ⟨fun _ => h.2.1, fun _ => h.2.2.1, fun _ => h.2.2.2, fun _ => h.1⟩

variable {t : Bytes}

theorem harmless_of_isUnit {n : ℕ} (ht : IsUnit t n) : ∀ c ∈ t, Harmless c := by
  have hhex : ∀ c, (hexValue c).isSome = true → Harmless c := forall_uint8 (by decide +kernel)
  obtain ⟨ha, hb, hc, hd⟩ := ht
  simp only [forall_mem_cons, not_mem_nil, false_implies, implies_true, and_true]
  exact ⟨by decide, by decide, hhex _ (by rw [ha]; rfl), hhex _ (by rw [hb]; rfl), hhex _ (by rw [hc]; rfl),
    hhex _ (by rw [hd]; rfl)⟩

/-- The bytes of a character that may be written as it is. -/
theorem byteAllowed_utf8 {cp : ℕ} (hcp : Allowed o cp) (hscalar : IsScalar cp) : ∀ c ∈ utf8 cp, ByteAllowed o c := by
  intro c hc
  have hne : ∀ d : UInt8, d.toNat < 0x80 → cp ≠ d.toNat → c ≠ d := fun d hd hne => ne_of_mem_utf8 hscalar.lt hd hne hc
  refine ⟨fun h => ⟨hne 60 (by decide) (hcp.tag h).1, hne 62 (by decide) (hcp.tag h).2⟩,
    fun h => hne 38 (by decide) (hcp.amp h), fun h => hne 39 (by decide) (hcp.apos h), fun h => ?_⟩
  have hascii := hcp.unicode h
  rw [utf8, if_pos hascii] at hc
  rw [mem_singleton.1 hc, toNat_ofNat_of_lt (by omega)]
  exact hascii

theorem byteAllowed_of_isChar {cp : ℕ} (h : IsChar (Allowed o) t cp) : ∀ c ∈ t, ByteAllowed o c := by
  cases h with
  | unescaped hplain hscalar => exact byteAllowed_utf8 hplain hscalar
  | @short e _ _ hmem =>
    have hall : ∀ p ∈ shortEscapes, Harmless p.1 := by decide
    exact forall_mem_cons.2 ⟨Harmless.allowed (by decide), forall_mem_singleton.2 (hall _ hmem).allowed⟩
  | unit hunit => exact fun c hc => (harmless_of_isUnit hunit c hc).allowed
  | pair _ _ ht hu =>
    exact forall_mem_append.2 ⟨fun c hc => (harmless_of_isUnit ht c hc).allowed,
      fun c hc => (harmless_of_isUnit hu c hc).allowed⟩

theorem byteAllowed_of_isChars {cps : List ℕ} (h : IsChars (Allowed o) t cps) : ∀ c ∈ t, ByteAllowed o c := by
  induction h with
  | nil => exact fun c hc => absurd hc not_mem_nil
  | cons hchar _ ih => exact forall_mem_append.2 ⟨byteAllowed_of_isChar hchar, ih⟩

/-- The bytes of a text. -/
theorem byteAllowed_of_isText {j : Json} (h : IsText (Allowed o) t j) : ∀ c ∈ t, ByteAllowed o c := by
  have hmark : ∀ c, isMark c = true → Harmless c := forall_uint8 (by decide +kernel)
  have hquote : ByteAllowed o 34 := Harmless.allowed (by decide)
  refine h.walk (Q := fun t _ => ∀ c ∈ t, ByteAllowed o c) ⟨forall_mem_nil _, fun ht hu => forall_mem_append.2 ⟨ht, hu⟩,
    forall_mem_singleton.2 (Harmless.allowed (by decide)), fun hc => forall_mem_singleton.2 (hmark _ hc).allowed, ?_⟩
  rintro _ _ ⟨hchars⟩
  exact forall_mem_append.2 ⟨forall_mem_cons.2 ⟨hquote, byteAllowed_of_isChars hchars⟩, forall_mem_singleton.2 hquote⟩

/-! ### Errors -/

mutual

/-- The error code is set exactly if a string is not in UTF-8 or an array is too deep. -/
theorem errorCode_phpJsonEncode (o : Options) (maxDepth : ℤ) : ∀ (v : Value) (depth : ℕ), v.Counted →
    ((phpJsonEncode o maxDepth depth v).errorCode = none ↔ v.Encodable maxDepth depth)
  | .null, _, _ | .bool _, _, _ | .long _, _, _ => by simp [phpJsonEncode, Value.Encodable]
  | .string s, _, _ => by
    rw [phpJsonEncode, Value.Encodable]
    exact errorCode_jsonEscapeString
  | .array ht, depth, h => by
    rw [phpJsonEncode, Value.Encodable, errorCode_jsonEncodeArray, entries_eq h.1,
      errorCode_encodeEntries o maxDepth ht (depth + 1) _ false h.2 fun s hs => outputObject_of_name_mem h.1 hs]

/-- In a list the keys are not looked at, but they are integers. -/
theorem errorCode_encodeEntries (o : Options) (maxDepth : ℤ) :
    ∀ (ht : Elems) (depth : ℕ) (object needComma : Bool), ht.Counted →
      (∀ s, ArrayKey.name s ∈ ht.keys → object = true) →
      ((encodeEntries o maxDepth depth object needComma ht).errorCode = none ↔ ht.Encodable maxDepth depth)
  | .nil, _, _, _, _, _ => by simp [encodeEntries, Elems.Encodable]
  | .cons key data rest, depth, object, needComma, hcounted, hnames => by
    have hkey : (entryStart o depth object key).errorCode = none ↔ ∃ cps, KeyDenotes key cps := by
      cases object with
      | true => simp [entryStart, errorCode_keyText]
      | false =>
        cases key with
        | index n => exact iff_of_true rfl ⟨_, .index n⟩
        | name s => exact absurd (hnames s mem_cons_self) (by decide)
    rw [encodeEntries, Elems.Encodable, errorCode_append, errorCode_append, errorCode_append, hkey,
      errorCode_phpJsonEncode o maxDepth data depth hcounted.1, errorCode_encodeEntries o maxDepth rest depth object
        true hcounted.2 fun s hs => hnames s (mem_cons_of_mem _ hs)]
    exact and_congr_left fun _ => and_iff_right rfl

end

/-! ### Arrays with too many elements -/

mutual

/-- What is written of a value: arrays with too many elements as empty ones. -/
def Value.written : Value → Value
  | .array ht => .array (if ht.counted then ht.written else .nil)
  | v => v

/-- The same for the values of an array. -/
def Elems.written : Elems → Elems
  | .nil => .nil
  | .cons key data rest => .cons key data.written rest.written

end

theorem keys_written (ht : Elems) : ht.written.keys = ht.keys := by
  induction ht using Elems.keys.induct with
  | case1 => rfl
  | case2 key data rest ih => rw [Elems.written, Elems.keys, ih, Elems.keys]

theorem counted_written (ht : Elems) : ht.written.counted = ht.counted := by
  rw [Elems.counted, keys_written, Elems.counted]

theorem outputObject_written (o : Options) (ht : Elems) : outputObject o ht.written = outputObject o ht := by
  have htype : jsonDetermineArrayType 0 ht.written = jsonDetermineArrayType 0 ht := by
    rw [Bool.eq_iff_iff, jsonDetermineArrayType_iff, jsonDetermineArrayType_iff, keys_written]
  rw [outputObject, outputObject, counted_written, htype]

mutual

theorem counted_value_written : ∀ v : Value, v.written.Counted
  | .null | .bool _ | .long _ | .string _ => trivial
  | .array ht => by
    rw [Value.written, Value.Counted]
    by_cases h : ht.counted = true
    · rw [if_pos h, counted_written]
      exact ⟨.inr h, counted_elems_written ht⟩
    · rw [if_neg h]
      exact ⟨.inl rfl, trivial⟩

theorem counted_elems_written : ∀ ht : Elems, ht.written.Counted
  | .nil => trivial
  | .cons _ data rest => ⟨counted_value_written data, counted_elems_written rest⟩

end

mutual

/-- The same text is written. -/
theorem phpJsonEncode_written (o : Options) (maxDepth : ℤ) :
    ∀ (v : Value) (depth : ℕ), phpJsonEncode o maxDepth depth v.written = phpJsonEncode o maxDepth depth v
  | .null, _ | .bool _, _ | .long _, _ | .string _, _ => rfl
  | .array ht, depth => by
    rw [Value.written, phpJsonEncode, phpJsonEncode]
    by_cases h : ht.counted = true
    · simp only [if_pos h, counted_written, outputObject_written, encodeEntries_written o maxDepth ht]
    · rw [if_neg h, if_neg h, Bool.not_eq_true] at *
      rw [outputObject, outputObject, h]
      rfl

theorem encodeEntries_written (o : Options) (maxDepth : ℤ) : ∀ (ht : Elems) (depth : ℕ) (object needComma : Bool),
    encodeEntries o maxDepth depth object needComma ht.written = encodeEntries o maxDepth depth object needComma ht
  | .nil, _, _, _ => rfl
  | .cons key data rest, depth, object, needComma => by
    rw [Elems.written, encodeEntries, encodeEntries, phpJsonEncode_written o maxDepth data,
      encodeEntries_written o maxDepth rest]

end

mutual

/-- The commas of a value. -/
def Value.commas : Value → ℕ
  | .array ht => ht.items - 1
  | _ => 0

/-- The commas of entries with a comma behind each. -/
def Elems.items : Elems → ℕ
  | .nil => 0
  | .cons _ data rest => data.commas + 1 + rest.items

end

mutual

theorem Denotes.commas_eq {force : Bool} : ∀ {v : Value} {j : Json}, Denotes force v j → j.commas = v.commas
  | _, _, .null | _, _, .bool _ | _, _, .long _ | _, _, .string _ => rfl
  | _, _, .array _ _ h => congrArg (· - 1) h.items_eq
  | _, _, .object _ h => congrArg (· - 1) h.items_eq

theorem DenotesElements.items_eq {force : Bool} :
    ∀ {ht : Elems} {js : List Json}, DenotesElements force ht js → Json.items js = ht.items
  | _, _, .nil => rfl
  | _, _, .cons h hs => by rw [Json.items, Elems.items, h.commas_eq, hs.items_eq]

theorem DenotesMembers.items_eq {force : Bool} :
    ∀ {ht : Elems} {ms : List (List ℕ × Json)}, DenotesMembers force ht ms → Json.memberItems ms = ht.items
  | _, _, .nil => rfl
  | _, _, .cons _ h hs => by rw [Json.memberItems, Elems.items, h.commas_eq, hs.items_eq]

end

theorem length_keys_le (ht : Elems) : ht.keys.length ≤ ht.items := by
  induction ht using Elems.keys.induct with
  | case1 => exact le_rfl
  | case2 key data rest ih =>
    rw [Elems.keys, Elems.items, length_cons]
    omega

mutual

/-- An array with too many elements loses commas. -/
theorem commas_written : ∀ v : Value, v.written.commas ≤ v.commas ∧ (v.written.commas = v.commas → v.Counted)
  | .null | .bool _ | .long _ | .string _ => ⟨le_rfl, fun _ => trivial⟩
  | .array ht => by
    obtain ⟨hle, heq⟩ := items_written ht
    have hkeys := length_keys_le ht
    rw [Value.written, Value.commas, Value.commas, Value.Counted]
    by_cases h : ht.counted = true
    · have hkeys' := length_keys_le ht.written
      have hpos : ht.keys.length ≠ 0 := by
        intro hzero
        rw [Elems.counted, hzero] at h
        exact absurd h (by decide)
      rw [keys_written] at hkeys'
      rw [if_pos h]
      exact ⟨by omega, fun hitems => ⟨.inr h, heq (by omega)⟩⟩
    · rw [if_neg h]
      refine ⟨Nat.zero_le _, fun hitems => ?_⟩
      rw [Elems.items] at hitems
      -- two elements would have a comma between them
      have hnil : ht.keys.length = 0 := by
        by_contra hne
        have hone : ht.keys.length = 1 := by omega
        rw [Elems.counted, hone] at h
        exact h (by decide)
      have hkeys := length_eq_zero_iff.1 hnil
      rw [eq_nil_of_keys hkeys]
      exact ⟨.inl rfl, trivial⟩

theorem items_written : ∀ ht : Elems, ht.written.items ≤ ht.items ∧ (ht.written.items = ht.items → ht.Counted)
  | .nil => ⟨le_rfl, fun _ => trivial⟩
  | .cons key data rest => by
    obtain ⟨hle, heq⟩ := commas_written data
    obtain ⟨hle', heq'⟩ := items_written rest
    rw [Elems.written, Elems.items, Elems.items]
    exact ⟨by omega, fun h => ⟨heq (by omega), heq' (by omega)⟩⟩

end

/-- If the text denotes the value, no array has too many elements. -/
theorem counted_of_isText {maxDepth : ℤ} {depth : ℕ} {v : Value} {j : Json}
    (herror : (phpJsonEncode o maxDepth depth v).errorCode = none) (hv : Denotes o.forceObject v j)
    (ht : IsText (fun _ => True) (phpJsonEncode o maxDepth depth v).text j) : v.Counted := by
  have hwritten := phpJsonEncode_written o maxDepth v depth
  obtain ⟨j', hv', hj'⟩ :=
    isValue_phpJsonEncode o maxDepth v.written depth (counted_value_written v) (by rw [hwritten]; exact herror)
  have ht' := (hj' (fun _ => True) fun _ _ => trivial).isText
  rw [hwritten] at ht'
  refine (commas_written v).2 ?_
  rw [← hv'.commas_eq, ← hv.commas_eq, ← ht.commasFrom_eq, ht'.commasFrom_eq]

/-! ### The result -/

/-- **If no error code is set, the text is a JSON text that denotes the value**, if and only if no array has too many
elements. It is one also if the characters of the `JSON_HEX_*` options have to be written with `\u`, and it is ASCII
unless `JSON_UNESCAPED_UNICODE` is set. -/
theorem phpJsonEncode_isText_iff (o : Options) (maxDepth : ℤ) (depth : ℕ) (v : Value)
    (h : (phpJsonEncode o maxDepth depth v).errorCode = none) :
    (∃ j, Denotes o.forceObject v j ∧
      IsText (fun _ => True) (phpJsonEncode o maxDepth depth v).text j ∧
      IsText (Allowed o) (phpJsonEncode o maxDepth depth v).text j ∧
      ∀ c ∈ (phpJsonEncode o maxDepth depth v).text, ByteAllowed o c) ↔ v.Counted := by
  constructor
  · rintro ⟨j, hdenotes, htext, -⟩
    exact counted_of_isText h hdenotes htext
  · intro hcounted
    obtain ⟨j, hdenotes, hvalue⟩ := isValue_phpJsonEncode o maxDepth v depth hcounted h
    have hallowed := (hvalue _ fun _ hcp => hcp).isText
    exact ⟨j, hdenotes, (hvalue _ fun _ _ => trivial).isText, hallowed, byteAllowed_of_isText hallowed⟩

/-- A value for the options `JSON_HEX_TAG` and `JSON_PRETTY_PRINT`: `["<é", ["k" => NULL]]`. -/
def sampleValue : Value :=
  .array (.cons (.index 0) (.string [60, 0xC3, 0xA9])
    (.cons (.index 1) (.array (.cons (.name (ascii "k")) .null .nil)) .nil))

/-- The options of the sample. -/
def sampleOptions : Options := ⟨true, false, false, false, false, false, true, false⟩

theorem phpJsonEncode_isText_sample :
    (phpJsonEncode sampleOptions 512 0 sampleValue).errorCode = none ∧
      ∃ j, Denotes false sampleValue j ∧
        IsText (fun _ => True) (phpJsonEncode sampleOptions 512 0 sampleValue).text j ∧
        IsText (Allowed sampleOptions) (phpJsonEncode sampleOptions 512 0 sampleValue).text j ∧
        ∀ c ∈ (phpJsonEncode sampleOptions 512 0 sampleValue).text, ByteAllowed sampleOptions c := by
  refine ⟨rfl, (phpJsonEncode_isText_iff sampleOptions 512 0 sampleValue rfl).2 ?_⟩
  exact ⟨.inr (by decide), trivial, ⟨.inr (by decide), trivial, trivial⟩, trivial⟩

/-- An array of `n` elements that are `NULL`, with the keys from `k` on. -/
def nulls (k : ℕ) : ℕ → Elems
  | 0 => .nil
  | n + 1 => .cons (.index k) .null (nulls (k + 1) n)

theorem length_keys_nulls (k n : ℕ) : (nulls k n).keys.length = n := by
  induction n generalizing k with
  | zero => rfl
  | succ n ih => rw [nulls, Elems.keys, length_cons, ih]

/-- An array of `2 ^ 31` elements is written as an empty one. -/
theorem phpJsonEncode_uncounted :
    let out := phpJsonEncode sampleOptions 512 0 (.array (nulls 0 (2 ^ 31)))
    out.errorCode = none ∧ out.text = ascii "[]" ∧
      ¬∃ j, Denotes false (.array (nulls 0 (2 ^ 31))) j ∧ IsText (fun _ => True) out.text j := by
  intro out
  have hcounted : (nulls 0 (2 ^ 31)).counted = false := by
    rw [Elems.counted, length_keys_nulls]
    decide
  have hout : out = ⟨ascii "[]", none⟩ := by
    simp only [out, phpJsonEncode, outputObject, hcounted]
    rfl
  refine ⟨by rw [hout], by rw [hout], ?_⟩
  rintro ⟨j, hdenotes, htext⟩
  obtain ⟨hkeys | hkeys, -⟩ := counted_of_isText (show out.errorCode = none by rw [hout]) hdenotes htext
  · have hlength := congrArg length hkeys
    rw [length_keys_nulls] at hlength
    exact absurd hlength (by decide)
  · rw [hcounted] at hkeys
    exact Bool.false_ne_true hkeys

end PhpSandbox.Json
