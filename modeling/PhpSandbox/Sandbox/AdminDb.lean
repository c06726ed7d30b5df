import PhpSandbox.Lib.SqlLexer
import PhpSandbox.Sandbox.Query

/-!
# Statements for the admin database

The helpers `admindb_*` of `ext/sandbox/sandbox.c` build one statement each from
the names of a table and of its fields, and values that may come from a script.

## The model

The arguments are C strings. Table names and the columns asked for stand bare in
the statement and are words (`Name`); the names of fields stand in backticks and
hold none (`FieldName`). A helper is modelled up to the statement it sends.

## What is proved

`AdminCall.shape` is the token sequence a statement is meant to have: the values
occur in it as string literals and nowhere else. `AdminCall.lex_statement_iff`
says for which calls the statement has it: for all calls of the helpers that
escape their values, and for those of `admindb_fetch_field` and
`admindb_row_count`, which do not, when the value holds no quote and no backslash
but in `\%` and `\_`.
-/

namespace PhpSandbox.Sandbox

open Lib Lib.Sql

/-- A name that can stand bare in a statement. -/
structure Name where
  /-- The name. -/
  text : Bytes
  /-- It is not empty, -/
  ne_nil : text ≠ []
  /-- and a word. -/
  chars : text.all isWordChar

/-- A name that can stand in backticks. -/
structure FieldName where
  /-- The name. -/
  text : Bytes
  /-- It holds no backtick. -/
  noBacktick : 96 ∉ text

/-- What `admindb_fetch_field` is asked for. -/
inductive GetField where
  /-- A column. -/
  | column (name : Name)
  /-- `COUNT(*)`. -/
  | count

open GetField

/-- The text of what is asked for. -/
def GetField.text : GetField → Bytes
  | .column name => name.text
  | .count => ascii "COUNT(*)"

variable (table : Name)

/-- `admindb_fetch_row`. -/
def admindbFetchRow (field : FieldName) (value : Bytes) : Except Overflow Bytes :=
  newSprintf (ascii "SELECT * FROM " ++ table.text ++ ascii " WHERE \x60" ++ field.text ++ ascii "\x60='" ++
    phpAddslashes value ++ ascii "'")

/-- `admindb_fetch_field`. -/
def admindbFetchField (getfield : GetField) (matchfield : FieldName) (value : Bytes) : Except Overflow Bytes :=
  newSprintf (ascii "SELECT " ++ getfield.text ++ ascii " FROM " ++ table.text ++ ascii " WHERE \x60" ++
    matchfield.text ++ ascii "\x60='" ++ value ++ ascii "'")

/-- `admindb_row_count`. -/
def admindbRowCount (field : FieldName) (value : Bytes) : Except Overflow Bytes :=
  admindbFetchField table .count field value

/-- `admindb_update_row`. -/
def admindbUpdateRow (appid : Int32) (field : FieldName) (value : Bytes) : Except Overflow Bytes :=
  newSprintf (ascii "UPDATE " ++ table.text ++ ascii " SET \x60" ++ field.text ++ ascii "\x60='" ++
    phpAddslashes value ++ ascii "' WHERE \x60id\x60='" ++ ltostr appid.toInt ++ ascii "'")

/-- The loop of `admindb_insert_row`, from field `i` on. -/
def insertFields (query : Bytes) (i : ℕ) : List (FieldName × Bytes) → Except Overflow Bytes
  | [] => .ok query
  | (field, value) :: rest =>
    match ((if 0 < i then [ascii ","] else []) ++ [ascii "\x60", phpAddslashes field.text, ascii "\x60='",
        phpAddslashes value, ascii "'"]).foldlM appendStr query with
    | .error e => .error e
    | .ok query => insertFields query (i + 1) rest

/-- `admindb_insert_row`. -/
def admindbInsertRow (fields : List (FieldName × Bytes)) : Except Overflow Bytes :=
  match newSprintf (ascii "INSERT INTO " ++ table.text ++ ascii " SET ") with
  | .error e => .error e
  | .ok query => insertFields query 0 fields

/-- A call of a helper. -/
inductive AdminCall where
  /-- `admindb_fetch_row`. -/
  | fetchRow (table : Name) (field : FieldName) (value : Bytes)
  /-- `admindb_fetch_field`. -/
  | fetchField (table : Name) (getfield : GetField) (matchfield : FieldName) (value : Bytes)
  /-- `admindb_row_count`. -/
  | rowCount (table : Name) (field : FieldName) (value : Bytes)
  /-- `admindb_update_row`. -/
  | updateRow (table : Name) (appid : Int32) (field : FieldName) (value : Bytes)
  /-- `admindb_insert_row`. -/
  | insertRow (table : Name) (fields : List (FieldName × Bytes))

/-- The statement a call sends. -/
def AdminCall.statement : AdminCall → Except Overflow Bytes
  | fetchRow table field value => admindbFetchRow table field value
  | fetchField table getfield matchfield value => admindbFetchField table getfield matchfield value
  | rowCount table field value => admindbRowCount table field value
  | updateRow table appid field value => admindbUpdateRow table appid field value
  | insertRow table fields => admindbInsertRow table fields

/-! ### What the statements are meant to be -/

/-- The tokens of an assignment or a comparison with a value. -/
def assignShape (field value : Bytes) : List Token := [.ident field, .punct 61, .str value]

/-- The tokens of what is asked for. -/
def GetField.shape : GetField → List Token
  | .column name => [.word name.text]
  | .count => [.word (ascii "COUNT"), .punct 40, .punct 42, .punct 41]

/-- The tokens of the assignments of an insertion, from field `i` on. -/
def insertShape (i : ℕ) : List (FieldName × Bytes) → List Token
  | [] => []
  | (field, value) :: rest =>
    (if 0 < i then [.punct 44] else []) ++ assignShape (phpAddslashes field.text) value ++
      insertShape (i + 1) rest

/-- The tokens of a statement that looks up rows by a field. -/
def selectShape (getfield : List Token) (table : Name) (field : FieldName) (value : Bytes) : List Token :=
  .word (ascii "SELECT") :: getfield ++ [.word (ascii "FROM"), .word table.text, .word (ascii "WHERE")] ++
    assignShape field.text value

/-- The tokens that the statement of a call is meant to have: each value is one string
literal, and the rest does not depend on the values. -/
def AdminCall.shape : AdminCall → List Token
  | fetchRow table field value => selectShape [.punct 42] table field value
  | fetchField table getfield matchfield value => selectShape getfield.shape table matchfield value
  | rowCount table field value => selectShape count.shape table field value
  | updateRow table appid field value =>
    [.word (ascii "UPDATE"), .word table.text, .word (ascii "SET")] ++ assignShape field.text value ++
      [.word (ascii "WHERE")] ++ assignShape (ascii "id") (ltostr appid.toInt)
  | insertRow table fields =>
    [.word (ascii "INSERT"), .word (ascii "INTO"), .word table.text, .word (ascii "SET")] ++
      insertShape 0 fields

/-- The values that need no escaping, for the helpers that do none. -/
def AdminCall.ValueSafe : AdminCall → Prop
  | fetchField _ _ _ value | rowCount _ _ value => plain 39 value
  | fetchRow .. | updateRow .. | insertRow .. => True

/-! ### The texts of the statements -/

/-- The text of a comparison with what stands between the quotes. -/
def assignText (field quoted : Bytes) : Bytes := 96 :: (field ++ 96 :: 61 :: 39 :: (quoted ++ [39]))

/-- The text of a statement that looks up rows by a field. -/
def selectText (getfield : Bytes) (table : Name) (field : FieldName) (quoted : Bytes) : Bytes :=
  ascii "SELECT" ++ 32 :: (getfield ++ 32 :: (ascii "FROM" ++ 32 :: (table.text ++ 32 ::
    (ascii "WHERE" ++ 32 :: assignText field.text quoted))))

/-- The text of the assignments of an insertion, from field `i` on. -/
def insertText (i : ℕ) : List (FieldName × Bytes) → Bytes
  | [] => []
  | (field, value) :: rest =>
    (if 0 < i then [44] else []) ++ assignText (phpAddslashes field.text) (phpAddslashes value) ++
      insertText (i + 1) rest

/-- The text of a call's statement. -/
def AdminCall.text : AdminCall → Bytes
  | fetchRow table field value => selectText [42] table field (phpAddslashes value)
  | fetchField table getfield matchfield value => selectText getfield.text table matchfield value
  | rowCount table field value => selectText count.text table field value
  | updateRow table appid field value =>
    ascii "UPDATE" ++ 32 :: (table.text ++ 32 :: (ascii "SET" ++ 32 ::
      (assignText field.text (phpAddslashes value) ++ 32 :: (ascii "WHERE" ++ 32 ::
        assignText (ascii "id") (ltostr appid.toInt)))))
  | insertRow table fields =>
    ascii "INSERT" ++ 32 :: (ascii "INTO" ++ 32 :: (table.text ++ 32 :: (ascii "SET" ++ 32 ::
      insertText 0 fields)))

theorem insertFields_eq_ok_iff {query : Bytes} (h : Fits query) (i : ℕ) (fields : List (FieldName × Bytes))
    (q : Bytes) :
    insertFields query i fields = .ok q ↔ Fits (query ++ insertText i fields) ∧ q = query ++ insertText i fields := by
  induction fields generalizing query i with
  | nil =>
    rw [insertText, List.append_nil]
    exact ⟨fun hq => ⟨h, (Except.ok.inj hq).symm⟩, fun hq => congrArg Except.ok hq.2.symm⟩
  | cons f rest ih =>
    obtain ⟨field, value⟩ := f
    have hflat : ((if 0 < i then [ascii ","] else []) ++ [ascii "\x60", phpAddslashes field.text, ascii "\x60='",
        phpAddslashes value, ascii "'"]).flatten =
        (if 0 < i then [44] else []) ++ assignText (phpAddslashes field.text) (phpAddslashes value) := by
      split_ifs <;> simp [assignText, ascii]
    have hpieces := foldlM_appendStr_eq_ok_iff h ((if 0 < i then [ascii ","] else []) ++
      [ascii "\x60", phpAddslashes field.text, ascii "\x60='", phpAddslashes value, ascii "'"])
    rw [hflat] at hpieces
    rw [insertFields, insertText, ← List.append_assoc]
    split
    · next e he =>
      -- a piece did not fit, so neither does the whole
      refine ⟨fun hq => (by cases hq), fun hq => ?_⟩
      rw [(hpieces _).mpr ⟨hq.1.of_append, rfl⟩] at he
      cases he
    · next query' hquery' =>
      obtain ⟨hfit, rfl⟩ := (hpieces _).mp hquery'
      exact ih hfit (i + 1)

/-- A call sends its text, when that fits. -/
theorem AdminCall.statement_eq_ok_iff (call : AdminCall) (q : Bytes) :
    call.statement = .ok q ↔ Fits call.text ∧ q = call.text := by
  cases call with
  | fetchRow table field value =>
    rw [statement, admindbFetchRow, newSprintf_eq_ok_iff]
    simp [text, selectText, assignText, ascii]
  | fetchField table getfield matchfield value =>
    rw [statement, admindbFetchField, newSprintf_eq_ok_iff]
    simp [text, selectText, assignText, ascii]
  | rowCount table field value =>
    rw [statement, admindbRowCount, admindbFetchField, newSprintf_eq_ok_iff]
    simp [text, selectText, assignText, ascii]
  | updateRow table appid field value =>
    rw [statement, admindbUpdateRow, newSprintf_eq_ok_iff]
    simp [text, assignText, ascii]
  | insertRow table fields =>
    have htext : (insertRow table fields).text =
        ascii "INSERT INTO " ++ table.text ++ ascii " SET " ++ insertText 0 fields := by
      simp [text, ascii]
    rw [statement, admindbInsertRow, htext]
    split
    · next e he =>
      refine ⟨fun hq => (by cases hq), fun hq => ?_⟩
      rw [newSprintf_eq_ok_iff.mpr ⟨hq.1.of_append, rfl⟩] at he
      cases he
    · next query hquery =>
      obtain ⟨hfit, rfl⟩ := newSprintf_eq_ok_iff.mp hquery
      exact insertFields_eq_ok_iff hfit 0 fields q

/-! ### The tokens of the statements -/

variable (value : Bytes)

/-- An escaped value is read back. -/
theorem readQuoted_addslashes {rest : Bytes} (hrest : rest.head? ≠ some 39) :
    readQuoted true 39 (phpAddslashes value ++ 39 :: rest) = some (value, rest) := by
  induction value with
  | nil => exact readQuoted_close (by decide) hrest
  | cons c value ih =>
    have hcons : phpAddslashes (c :: value) = addslashesByte c ++ phpAddslashes value := rfl
    rw [hcons, addslashesByte]
    split_ifs with h0 hc
    · subst h0
      rw [List.append_assoc, List.cons_append, List.singleton_append, readQuoted_escape, ih]
      rfl
    · have hval : escapeValue c = [c] := by rcases hc with rfl | rfl | rfl <;> rfl
      rw [List.append_assoc, List.cons_append, List.singleton_append, readQuoted_escape, ih, hval]
      rfl
    · obtain ⟨h39, -, h92⟩ : c ≠ 39 ∧ c ≠ 34 ∧ c ≠ 92 := by simpa using hc
      rw [List.append_assoc, List.singleton_append, readQuoted_cons (by simpa using h92) h39, ih]
      rfl

theorem not_mem_addslashes {field : Bytes} (h : 96 ∉ field) : 96 ∉ phpAddslashes field := by
  intro hmem
  obtain ⟨c, hc, hb⟩ := List.mem_flatMap.mp hmem
  have hbyte : ∀ c : UInt8, 96 ∈ addslashesByte c → c = 96 := forall_uint8 (by decide +kernel)
  exact h (hbyte c hb ▸ hc)

/-- A number stands for itself between quotes. -/
theorem plain_ltostr (n : ℤ) : plain 39 (ltostr n) := by
  have hno : ∀ c : UInt8, c = 45 ∨ 48 ≤ c.toNat ∧ c.toNat ≤ 57 → c ≠ 92 ∧ c ≠ 39 :=
    forall_uint8 (by decide +kernel)
  exact plain_of_not_mem (fun h => (hno _ (mem_ltostr h)).1 rfl) fun h => (hno _ (mem_ltostr h)).2 rfl

/-- A number between quotes is read back. -/
theorem readQuoted_ltostr (n : ℤ) : readQuoted true 39 (ltostr n ++ [39]) = some (ltostr n, []) :=
  readQuoted_plain (plain_ltostr n) (by decide) (by simp)

/-- A keyword or a bare name, with the blank after it. -/
theorem lex_bare {w : Bytes} (hne : w ≠ []) (hw : w.all isWordChar) (rest : Bytes) :
    lex (w ++ 32 :: rest) = .word w :: lex rest := by
  rw [lex_word hne hw (by rfl), lex_blank]

/-- The name and the `=` of a comparison. -/
theorem lex_assignText {field : Bytes} (hfield : 96 ∉ field) (quoted rest : Bytes) :
    lex (assignText field quoted ++ rest) = .ident field :: .punct 61 :: lex (39 :: (quoted ++ 39 :: rest)) := by
  have htext : assignText field quoted ++ rest = 96 :: (field ++ 96 :: 61 :: 39 :: (quoted ++ 39 :: rest)) := by
    simp [assignText]
  rw [htext, lex_ident hfield (by simp), lex_punct (by decide)]

/-- A comparison with a value that is read back. -/
theorem lex_assign {field quoted value rest : Bytes} (hfield : 96 ∉ field)
    (h : readQuoted true 39 (quoted ++ 39 :: rest) = some (value, rest)) :
    lex (assignText field quoted ++ rest) = assignShape field value ++ lex rest := by
  rw [lex_assignText hfield, lex_string (.inl rfl) h]
  rfl

theorem GetField.lex_append (getfield : GetField) (rest : Bytes) :
    lex (getfield.text ++ 32 :: rest) = getfield.shape ++ lex rest := by
  cases getfield with
  | column name => exact lex_bare name.ne_nil name.chars rest
  | count =>
    have htext : count.text ++ 32 :: rest = ascii "COUNT" ++ 40 :: 42 :: 41 :: 32 :: rest := by
      simp [text, ascii]
    rw [htext, lex_word (by decide) (by decide) (by rfl), lex_punct (by decide), lex_punct (by decide),
      lex_punct (by decide), lex_blank]
    rfl

variable {tokens : List Token}

/-- A look-up, up to the value. -/
theorem lex_selectText {getfield : Bytes}
    (hget : ∀ rest, lex (getfield ++ 32 :: rest) = tokens ++ lex rest) (table : Name) (field : FieldName)
    (quoted : Bytes) :
    lex (selectText getfield table field quoted) =
      .word (ascii "SELECT") :: tokens ++ [.word (ascii "FROM"), .word table.text, .word (ascii "WHERE"),
        .ident field.text, .punct 61] ++ lex (39 :: (quoted ++ [39])) := by
  have hassign := lex_assignText field.noBacktick quoted []
  rw [List.append_nil] at hassign
  rw [selectText, lex_bare (by decide) (by decide), hget, lex_bare (by decide) (by decide),
    lex_bare table.ne_nil table.chars, lex_bare (by decide) (by decide), hassign]
  simp

/-- A look-up has its shape just when its value is read back. -/
theorem lex_selectText_eq_iff {getfield : Bytes}
    (hget : ∀ rest, lex (getfield ++ 32 :: rest) = tokens ++ lex rest) (table : Name) (field : FieldName)
    (quoted value : Bytes) :
    lex (selectText getfield table field quoted) = selectShape tokens table field value ↔
      lex (39 :: (quoted ++ [39])) = [.str value] := by
  have hshape : selectShape tokens table field value =
      .word (ascii "SELECT") :: tokens ++ [.word (ascii "FROM"), .word table.text, .word (ascii "WHERE"),
        .ident field.text, .punct 61] ++ [.str value] := by
    simp [selectShape, assignShape]
  rw [lex_selectText hget, hshape, List.append_cancel_left_eq]

/-- A text between quotes is one string literal with that content just when it is plain. -/
theorem lex_quoted_eq_iff : lex (39 :: (value ++ [39])) = [.str value] ↔ plain 39 value := by
  rw [← readQuoted_append_quote_iff (by decide), lex_quote (.inl rfl)]
  cases h : readQuoted true 39 (value ++ [39]) with
  | none => simp
  | some xr =>
    obtain ⟨x, r⟩ := xr
    dsimp only [Option.elim_some]
    constructor
    · intro heq
      obtain ⟨hx, -⟩ := List.cons.inj heq
      exact ⟨r, by rw [Token.str.inj hx]⟩
    · rintro ⟨r', hr'⟩
      obtain ⟨rfl, rfl⟩ := Prod.mk.inj (Option.some.inj hr')
      -- the literal takes at least as many bytes as it gives, so nothing is left
      have hle := (readQuoted_length h).1
      rw [List.length_append, List.length_singleton] at hle
      rw [List.length_eq_zero_iff.mp (show r.length = 0 by omega), lex_nil]

theorem lex_insertText (i : ℕ) (fields : List (FieldName × Bytes)) :
    lex (insertText i fields) = insertShape i fields := by
  induction fields generalizing i with
  | nil => exact lex_nil
  | cons f rest ih =>
    obtain ⟨field, value⟩ := f
    have hrest : (insertText (i + 1) rest).head? ≠ some 39 := by
      cases rest <;> simp [insertText]
    have hassign := lex_assign (not_mem_addslashes field.noBacktick)
      (readQuoted_addslashes value hrest)
    rw [insertText, insertShape, ← ih]
    split_ifs
    · rw [List.append_assoc, List.singleton_append, lex_punct (by decide), hassign]
      simp
    · rw [List.nil_append, hassign, List.nil_append]

theorem lex_addslashes : lex (39 :: (phpAddslashes value ++ [39])) = [.str value] := by
  rw [lex_string (.inl rfl) (readQuoted_addslashes value (by simp)), lex_nil]

/-- A text has the shape of its call just when the value needs no escaping, or is escaped. -/
theorem AdminCall.lex_text_iff (call : AdminCall) : lex call.text = call.shape ↔ call.ValueSafe := by
  cases call with
  | fetchRow table field value =>
    have hget : ∀ rest, lex ([42] ++ 32 :: rest) = [.punct 42] ++ lex rest := fun rest => by
      rw [List.singleton_append, lex_punct (by decide), lex_blank]
      rfl
    simp only [text, shape, ValueSafe, lex_selectText_eq_iff hget, lex_addslashes]
  | fetchField table getfield matchfield value =>
    simp only [text, shape, ValueSafe, lex_selectText_eq_iff getfield.lex_append, lex_quoted_eq_iff]
  | rowCount table field value =>
    simp only [text, shape, ValueSafe, lex_selectText_eq_iff count.lex_append, lex_quoted_eq_iff]
  | updateRow table appid field value =>
    refine iff_of_true ?_ trivial
    have hid : lex (assignText (ascii "id") (ltostr appid.toInt) ++ []) =
        assignShape (ascii "id") (ltostr appid.toInt) ++ lex [] :=
      lex_assign (by decide) (readQuoted_ltostr appid.toInt)
    rw [List.append_nil] at hid
    rw [text, lex_bare (by decide) (by decide), lex_bare table.ne_nil table.chars,
      lex_bare (by decide) (by decide),
      lex_assign field.noBacktick (readQuoted_addslashes value (by simp)), lex_blank,
      lex_bare (by decide) (by decide), hid, lex_nil]
    simp [shape]
  | insertRow table fields =>
    refine iff_of_true ?_ trivial
    rw [text, lex_bare (by decide) (by decide), lex_bare (by decide) (by decide),
      lex_bare table.ne_nil table.chars, lex_bare (by decide) (by decide), lex_insertText]
    rfl

/-- **Which statements keep their shape**: all that do not fit their buffer, all of the
helpers that escape, and those of `admindb_fetch_field` and `admindb_row_count` whose value
stands for itself between quotes. -/
theorem AdminCall.lex_statement_iff (call : AdminCall) :
    (∀ q, call.statement = .ok q → lex q = call.shape) ↔ Fits call.text → call.ValueSafe := by
  constructor
  · intro h hfit
    exact call.lex_text_iff.mp (h _ ((call.statement_eq_ok_iff _).mpr ⟨hfit, rfl⟩))
  · intro h q hq
    obtain ⟨hfit, rfl⟩ := (call.statement_eq_ok_iff q).mp hq
    exact call.lex_text_iff.mpr (h hfit)

/-- The table of applications. -/
def appinfo : Name := ⟨ascii "appinfo", by decide, by decide⟩

/-- The field of an application's name. -/
def appnameField : FieldName := ⟨ascii "appname", by decide⟩

/-- The value `x' OR '1'='1` adds a condition to the statement of `admindb_row_count`. -/
theorem AdminCall.rowCount_injection :
    (rowCount appinfo appnameField (ascii "x' OR '1'='1")).statement =
        .ok (ascii "SELECT COUNT(*) FROM appinfo WHERE \x60appname\x60='x' OR '1'='1'") ∧
      lex (ascii "SELECT COUNT(*) FROM appinfo WHERE \x60appname\x60='x' OR '1'='1'") =
        selectShape count.shape appinfo appnameField (ascii "x") ++
          [.word (ascii "OR"), .str (ascii "1"), .punct 61, .str (ascii "1")] ∧
      (rowCount appinfo appnameField (ascii "x' OR '1'='1")).shape =
        selectShape count.shape appinfo appnameField (ascii "x' OR '1'='1") := by
  refine ⟨by decide, ?_, rfl⟩
  decide +kernel

end PhpSandbox.Sandbox
