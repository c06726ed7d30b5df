import PhpSandbox.Ext.Kinds
import Mathlib.Algebra.Order.Group.Nat
import Mathlib.Data.List.Count

/-!
# Registrations at the same time

`create_app` (`ext/blog/blog.c`) counts the applications with the name, then those
with the email address, and inserts the new one. Every request has its own
connection, so that the statements of several calls come to the admin database in
any order.

## The model

The calls are the programs of `Ext.Functions` that take turns (`Pool`), each with its
next question. The database reads a statement as its tokens (`appinfoStmt`), and the
table `appinfo` has no unique indexes. What is asked of anything else is answered
arbitrarily, and any statement may fail.

## What is proved

`createApp_meets` says what one call asks the table: a count by name, a count by
email, an insertion if both were low enough, and nothing more. `run_limits`: names
stay unique and addresses within their limit in every run in which an insertion
happens only while no other call for the same name (or address) is between its count
and its insertion, if no count fails and no value breaks out of its quotes.
`run_same_name` is a run in which two calls for one name both insert.
-/

namespace PhpSandbox.Ext

open Lib Lib.Sql Sandbox Program AdminCall Function

/-! ### The table -/

/-- A row, by its fields. -/
abbrev TableRow := List (Bytes × Bytes)

/-- How many rows have this value in a field. -/
def countRows (rows : List TableRow) (field value : Bytes) : ℕ :=
  rows.countP fun row => row.lookup field = some value

/-- A statement on the table. -/
inductive AppinfoStmt where
  /-- `SELECT COUNT(*) ... WHERE field = value`. -/
  | count (field value : Bytes)
  /-- `INSERT INTO ... SET ...`. -/
  | insert (row : TableRow)

/-- The assignments of an insertion. -/
def parseAssigns : List Token → Option TableRow
  | [.ident field, .punct 61, .str value] => some [(field, value)]
  | .ident field :: .punct 61 :: .str value :: .punct 44 :: rest =>
    (parseAssigns rest).map ((field, value) :: ·)
  | _ => none

/-- How a count on the table begins. -/
def countHead : List Token :=
  [.word (ascii "SELECT"), .word (ascii "COUNT"), .punct 40, .punct 42, .punct 41, .word (ascii "FROM"),
    .word (ascii "appinfo"), .word (ascii "WHERE")]

/-- How an insertion into the table begins. -/
def insertHead : List Token :=
  [.word (ascii "INSERT"), .word (ascii "INTO"), .word (ascii "appinfo"), .word (ascii "SET")]

/-- The tokens of a statement as one on the table. -/
def appinfoStmtOf (tokens : List Token) : Option AppinfoStmt :=
  if countHead <+: tokens then
    match tokens.drop countHead.length with
    | [.ident field, .punct 61, .str value] => some (.count field value)
    | _ => none
  else if insertHead <+: tokens then (parseAssigns (tokens.drop insertHead.length)).map .insert
  else none

/-- A statement on the table, if it is one. -/
def appinfoStmt (statement : Bytes) : Option AppinfoStmt := appinfoStmtOf (lex statement)

/-- What is left open of an answer. -/
structure Choice where
  /-- The error with which a statement fails, if it does. -/
  fails : Option Bytes
  /-- The answer to what is not a statement on the table. -/
  other : (q : Effect) → q.Answer

open Choice

/-- What is answered, and the table after it. -/
def Choice.answer (c : Choice) (rows : List TableRow) : (q : Effect) → q.Answer × List TableRow
  | .query statement =>
    match c.fails with
    | some error => (Reply.queryFailed error, rows)
    | none =>
      match appinfoStmt statement with
      | some (.count field value) => (Reply.result (some [some (decimal (countRows rows field value))]), rows)
      | some (.insert row) => (Reply.noResult [], rows ++ [row])
      | none => (c.other (.query statement), rows)
  | q => (c.other q, rows)

variable (max : Int64)

/-- The limits of a registration. -/
def Limits (rows : List TableRow) : Prop :=
  (∀ name, countRows rows (ascii "appname") name ≤ 1) ∧
    ∀ email, (countRows rows (ascii "email") email : ℤ) ≤ max.toInt

/-! ### What a call asks the table -/

/-- The number that `admindb_row_count` takes from a reply. -/
def countOf : Reply → Int64
  | .result (some (some count :: _)) => atol (cstr count)
  | _ => 0

/-- The statements on the table among what was exchanged. -/
def appinfoTrace (h : List (Exchange Effect Effect.Answer)) : List (AppinfoStmt × Reply) :=
  h.filterMap fun e =>
    match e with
    | ⟨.query statement, reply⟩ => (appinfoStmt statement).map (·, reply)
    | _ => none

variable (p : CreateApp)

/-- The statement on the table that a call may make after these. -/
def NextOk : List (AppinfoStmt × Reply) → AppinfoStmt → Prop
  | [], stmt => stmt = .count (ascii "appname") (cstr p.appname)
  | [(_, r)], stmt => ¬ 0 < countOf r ∧ stmt = .count (ascii "email") (cstr p.email)
  | [(_, r₁), (_, r₂)], stmt => ¬ 0 < countOf r₁ ∧ ¬ max ≤ countOf r₂ ∧
      ∃ row : TableRow, stmt = .insert row ∧ row.lookup (ascii "appname") = some (cstr p.appname) ∧
        row.lookup (ascii "email") = some (cstr p.email)
  | _, _ => False

/-- What a call asks: of the table, only that. -/
def AsksOk (h : List (Exchange Effect Effect.Answer)) (q : Effect) : Prop :=
  ∀ statement stmt, q = .query statement → appinfoStmt statement = some stmt →
    NextOk max p (appinfoTrace h) stmt

/-- The values that stand for themselves between quotes. -/
def PlainCall : Prop := plain 39 (cstr p.appname) ∧ plain 39 (cstr p.email)

/-- Not a statement on the table. -/
def Effect.OffAppinfo (q : Effect) : Prop := ∀ statement, q = .query statement → appinfoStmt statement = none

theorem offAppinfo_of_local (q : Effect) (h : q.Local) : q.OffAppinfo := by
  rintro statement rfl
  cases h

section Statements

theorem not_prefix_of_head {a b : Token} {l l' : List Token} (h : a ≠ b) : ¬ a :: l <+: b :: l' :=
  fun hpre => h (List.cons_prefix_cons.mp hpre).1

/-- A statement that begins with neither head. -/
theorem appinfoStmtOf_eq_none {tokens : List Token} (hcount : ¬ countHead <+: tokens)
    (hinsert : ¬ insertHead <+: tokens) : appinfoStmtOf tokens = none := by
  rw [appinfoStmtOf, if_neg hcount, if_neg hinsert]

variable {fields : List (FieldName × Bytes)} {statement : Bytes}

theorem parseAssigns_insertShape (hne : fields ≠ []) :
    parseAssigns (insertShape 0 fields) = some (fields.map fun f => (phpAddslashes f.1.text, f.2)) := by
  have hstep (i j : ℕ) (fields : List (FieldName × Bytes)) (hi : 0 < i) (hj : 0 < j) :
      insertShape i fields = insertShape j fields := by
    induction fields generalizing i j with
    | nil => rfl
    | cons f fields ih => simp only [insertShape, hi, hj, if_true, ih (i + 1) (j + 1) (by omega) (by omega)]
  induction fields with
  | nil => exact absurd rfl hne
  | cons f fields ih =>
    obtain ⟨field, value⟩ := f
    cases fields with
    | nil => rfl
    | cons g fields =>
      have hrest : insertShape 1 (g :: fields) = .punct 44 :: insertShape 0 (g :: fields) := by
        obtain ⟨gfield, gvalue⟩ := g
        simp [insertShape, hstep 2 1 fields (by decide) (by decide)]
      rw [insertShape, hrest]
      simp only [Nat.lt_irrefl, if_false, List.nil_append, assignShape, List.cons_append, parseAssigns,
        ih (List.cons_ne_nil _ _)]
      rfl

/-- An insertion is read as its row. -/
theorem appinfoStmt_insertRow (hne : fields ≠ []) (h : Sandbox.admindbInsertRow appinfo fields = .ok statement) :
    appinfoStmt statement = some (.insert (fields.map fun f => (phpAddslashes f.1.text, f.2))) := by
  have hlex : lex statement = insertHead ++ insertShape 0 fields :=
    ((insertRow appinfo fields).lex_statement_iff.mpr fun _ => trivial) statement h
  have hcount : ¬ countHead <+: insertHead ++ insertShape 0 fields := not_prefix_of_head (by decide)
  rw [appinfoStmt, hlex, appinfoStmtOf, if_neg hcount, if_pos (List.prefix_append _ _), List.drop_left,
    parseAssigns_insertShape hne]
  rfl

variable {value : Bytes}

/-- A count is read as one. -/
theorem appinfoStmt_rowCount {field : FieldName} (hplain : plain 39 value)
    (h : fetchFieldStatement appinfo.text (ascii "COUNT(*)") field.text value = .ok statement) :
    appinfoStmt statement = some (.count field.text value) := by
  have hlex : lex statement = countHead ++ assignShape field.text value :=
    ((rowCount appinfo field value).lex_statement_iff.mpr fun _ => hplain) statement h
  rw [appinfoStmt, hlex, appinfoStmtOf, if_pos (List.prefix_append _ _), List.drop_left]
  rfl

/-- Insertions into another table. -/
theorem appinfoStmt_insertRow_dbconf (h : Sandbox.admindbInsertRow dbconf fields = .ok statement) :
    appinfoStmt statement = none := by
  have hlex : lex statement = (insertRow dbconf fields).shape :=
    ((insertRow dbconf fields).lex_statement_iff.mpr fun _ => trivial) statement h
  rw [appinfoStmt, hlex]
  refine appinfoStmtOf_eq_none (not_prefix_of_head (by decide)) ?_
  rintro ⟨t, ht⟩
  have htable : Token.word (ascii "appinfo") = .word (ascii "dbconf") :=
    (List.cons.inj (List.cons.inj (List.cons.inj ht).2).2).1
  exact absurd htable (by decide)

/-- Statements that begin with another word. -/
theorem appinfoStmt_eq_none_of_word {word : Bytes} (rest : Bytes) (hne : word ≠ []) (hword : word.all isWordChar)
    (hselect : word ≠ ascii "SELECT") (hinsert : word ≠ ascii "INSERT") : appinfoStmt (word ++ 32 :: rest) = none := by
  rw [appinfoStmt, lex_bare hne hword]
  refine appinfoStmtOf_eq_none (not_prefix_of_head ?_) (not_prefix_of_head ?_)
  · exact fun heq => hselect (Token.word.inj heq).symm
  · exact fun heq => hinsert (Token.word.inj heq).symm

/-- Look-ups of whole rows. -/
theorem appinfoStmt_fetchRow (table : Name) (field : FieldName)
    (h : fetchRowStatement table.text field.text value = .ok statement) : appinfoStmt statement = none := by
  have hlex : lex statement = (fetchRow table field value).shape :=
    ((fetchRow table field value).lex_statement_iff.mpr fun _ => trivial) statement h
  rw [appinfoStmt, hlex]
  refine appinfoStmtOf_eq_none ?_ (not_prefix_of_head (by decide))
  rintro ⟨t, ht⟩
  have htoken : Token.word (ascii "COUNT") = .punct 42 := (List.cons.inj (List.cons.inj ht).2).1
  cases htoken

end Statements

/-! ### One call -/

open List

variable {statement : Bytes} {value : Bytes}

section Call

variable {max : Int64} {p : CreateApp} {h : List (Exchange Effect Effect.Answer)}

theorem appinfoTrace_off {q : Effect} (hq : q.OffAppinfo) (a : q.Answer) :
    appinfoTrace (h ++ [⟨q, a⟩]) = appinfoTrace h := by
  rw [appinfoTrace, filterMap_append]
  cases q with
  | query statement =>
    simp [appinfoTrace, hq statement rfl]
  | _ => simp [appinfoTrace]

theorem appinfoTrace_query {stmt : AppinfoStmt} (hstmt : appinfoStmt statement = some stmt) (reply : Reply) :
    appinfoTrace (h ++ [⟨.query statement, reply⟩]) = appinfoTrace h ++ [(stmt, reply)] := by
  rw [appinfoTrace, filterMap_append]
  simp [appinfoTrace, hstmt]

/-- A part of a call that leaves the table alone. -/
theorem meets_off {α : Type} {prog : Prog α} {post : List (Exchange Effect Effect.Answer) → α → Prop}
    (hprog : prog.Only Effect.OffAppinfo) (hpost : ∀ h' a, appinfoTrace h' = appinfoTrace h → post h' a) :
    prog.Meets (AsksOk max p) post h := by
  refine (hprog h).carry (J := fun h' => appinfoTrace h' = appinfoTrace h) rfl ?_ ?_ ?_
  · intro h' q a htrace hq
    rw [appinfoTrace_off hq, htrace]
  · rintro h' _ - hq statement stmt rfl hstmt
    rw [hq statement rfl] at hstmt
    cases hstmt
  · intro h' a htrace _
    exact hpost h' a htrace

/-- A statement on the table. -/
theorem meets_mysqlRealQuery {stmt : AppinfoStmt} {post : _ → Reply → Prop}
    (hstmt : appinfoStmt statement = some stmt) (hnext : NextOk max p (appinfoTrace h) stmt)
    (hpost : ∀ h' reply, appinfoTrace h' = appinfoTrace h ++ [(stmt, reply)] → post h' reply) :
    (mysqlRealQuery statement).Meets (AsksOk max p) post h := by
  refine ⟨?_, fun reply => hpost _ reply (appinfoTrace_query hstmt reply)⟩
  rintro _ _ ⟨⟩ hstmt'
  rw [hstmt] at hstmt'
  cases hstmt'
  exact hnext

theorem meets_built {statement : Except Overflow Bytes} {β : Type} {f : Bytes → Prog β}
    {spec : List (Exchange Effect Effect.Answer) → Effect → Prop} {post : _ → β → Prop}
    (hf : ∀ query, statement = .ok query → (f query).Meets spec post h) :
    (built statement >>= f).Meets spec post h := by
  cases statement with
  | error e =>
    show (fail (.overflow e) >>= f).Meets spec post h
    rw [fail_bind]
    exact meets_fail _
  | ok query =>
    show (ret query >>= f).Meets spec post h
    rw [ret_bind]
    exact hf query rfl

/-- `admindb_row_count` on the table. -/
theorem meets_admindbRowCount (field : FieldName) {post : _ → Int64 → Prop} (hplain : plain 39 value)
    (hnext : NextOk max p (appinfoTrace h) (.count field.text value))
    (hpost : ∀ h' reply, appinfoTrace h' = appinfoTrace h ++ [(.count field.text value, reply)] → post h'
      (countOf reply)) :
    (admindbRowCount appinfo.text field.text value).Meets (AsksOk max p) post h := by
  unfold admindbRowCount admindbFetchField
  rw [meets_bind_iff]
  refine meets_built fun query hquery => ?_
  unfold doMysqlQuery
  rw [meets_bind_iff, meets_bind_iff]
  refine meets_mysqlRealQuery (appinfoStmt_rowCount hplain hquery) hnext fun h' reply htrace => ?_
  have hzero {h'' : List (Exchange Effect Effect.Answer)} (htrace' : appinfoTrace h'' = appinfoTrace h')
      (hcount : countOf reply = 0) : post h'' 0 := by
    rw [← hcount]
    exact hpost h'' reply (htrace'.trans htrace)
  cases reply with
  | queryFailed error | noResult error =>
    rw [meets_bind_iff]
    exact meets_off (only_raise offAppinfo_of_local _ _) fun _ _ htrace' => hzero htrace' rfl
  | result row =>
    match row with
    | none => exact hpost h' _ htrace
    | some [] => trivial
    | some (none :: _) | some (some count :: _) => exact hpost h' _ htrace

variable {fields : List (FieldName × Bytes)}

/-- `admindb_insert_row` on the table. -/
theorem meets_admindbInsertRow {post : _ → Status → Prop} (hne : fields ≠ [])
    (hnext : NextOk max p (appinfoTrace h) (.insert (fields.map fun f => (phpAddslashes f.1.text, f.2))))
    (hpost : ∀ h' status, post h' status) : (admindbInsertRow appinfo fields).Meets (AsksOk max p) post h := by
  refine meets_built fun query hquery => ?_
  unfold mysqlNoresultQuery
  rw [meets_bind_iff]
  refine meets_mysqlRealQuery (appinfoStmt_insertRow hne hquery) hnext fun h' reply htrace => ?_
  cases reply with
  | queryFailed error =>
    rw [meets_bind_iff]
    exact meets_off (only_raise offAppinfo_of_local _ _) fun h'' _ _ => hpost h'' _
  | noResult error | result row => exact hpost h' _

variable (setting : Setting)

theorem offAppinfo_createUserdb (appid : Int64) : (createUserdb setting appid).Only Effect.OffAppinfo := by
  refine only_createUserdb offAppinfo_of_local setting appid ?_ ?_ ?_ ?_
  · rintro fields _ hquery _ ⟨⟩
    exact appinfoStmt_insertRow_dbconf hquery
  · rintro rest _ ⟨⟩
    have hword : ascii "CREATE" ≠ [] ∧ (ascii "CREATE").all isWordChar := by decide
    exact appinfoStmt_eq_none_of_word (ascii "DATABASE " ++ rest) hword.1 hword.2 (by decide) (by decide)
  · rintro rest _ ⟨⟩
    have hword : ascii "GRANT" ≠ [] ∧ (ascii "GRANT").all isWordChar := by decide
    exact appinfoStmt_eq_none_of_word (ascii "ALL ON " ++ rest) hword.1 hword.2 (by decide) (by decide)
  · rintro value _ hquery _ ⟨⟩
    exact appinfoStmt_fetchRow dbconf ⟨ascii "id", by decide⟩ hquery

/-- `create_app` after its counts: the insertion of a row with the name and the address. -/
theorem registerApp_meets {e₁ e₂ : AppinfoStmt} {r₁ r₂ : Reply}
    (htrace : appinfoTrace h = [(e₁, r₁), (e₂, r₂)]) (hname : ¬ 0 < countOf r₁) (hemail : ¬ max ≤ countOf r₂) :
    (registerApp setting p).Meets (AsksOk max p) (fun _ _ => True) h := by
  have hlocal := offAppinfo_of_local
  unfold registerApp
  rw [meets_bind_iff]
  refine meets_off (only_randomStrGen hlocal _) fun h₁ salt htrace₁ => ?_
  rw [meets_bind_iff]
  refine meets_off (only_built _) fun h₂ salted htrace₂ => ?_
  rw [meets_bind_iff]
  refine meets_off (only_randomStrGen hlocal _) fun h₃ token htrace₃ => ?_
  rw [meets_bind_iff]
  refine meets_off (only_effect hlocal trivial) fun h₄ now htrace₄ => ?_
  rw [meets_bind_iff]
  refine meets_admindbInsertRow (cons_ne_nil _ _) ?_ fun h₅ status => ?_
  · rw [htrace₄, htrace₃, htrace₂, htrace₁, htrace]
    exact ⟨hname, hemail, _, rfl, rfl, rfl⟩
  · split_ifs
    · exact meets_off (only_warnNull hlocal _) fun _ _ _ => trivial
    · refine meets_off ?_ fun _ _ _ => trivial
      exact Only.bind (only_effect hlocal trivial) fun appid => offAppinfo_createUserdb setting appid

/-- **What `create_app` asks the table**: the two counts, and an insertion if both allow it. -/
theorem createApp_meets (hplain : PlainCall p) :
    (createApp setting (some p)).Meets (AsksOk setting.maxBlogsPerEmail p) (fun _ _ => True) [] := by
  have hlocal := offAppinfo_of_local
  have hwarn (text : Bytes) {h : List (Exchange Effect Effect.Answer)} :
      (warnNull text).Meets (AsksOk setting.maxBlogsPerEmail p) (fun _ _ => True) h :=
    meets_off (only_warnNull hlocal text) fun _ _ _ => trivial
  unfold createApp assertPrivilege
  rw [meets_bind_iff]
  refine meets_off (only_phpGetAppid hlocal) fun h₁ appid htrace₁ => ?_
  split_ifs
  · exact hwarn _
  rw [meets_bind_iff]
  refine meets_admindbRowCount ⟨ascii "appname", by decide⟩ hplain.1 ?_ fun h₂ r₁ htrace₂ => ?_
  · rw [htrace₁]
    rfl
  rw [htrace₁] at htrace₂
  split_ifs with hname
  · exact hwarn _
  rw [meets_bind_iff]
  refine meets_admindbRowCount ⟨ascii "email", by decide⟩ hplain.2 ?_ fun h₃ r₂ htrace₃ => ?_
  · rw [htrace₂]
    exact ⟨hname, rfl⟩
  rw [htrace₂] at htrace₃
  split_ifs with hemail
  · exact hwarn _
  · exact registerApp_meets setting htrace₃ hname hemail

end Call

/-! ### What a count says -/

theorem atol_decimal (n : ℕ) : (atol (cstr (decimal n))).toInt = min (n : ℤ) (2 ^ 63 - 1) := by
  have hdigits : ∀ c ∈ decimal n, isDecimal c := fun _ => isDecimal_of_mem_decimal
  have hcstr : cstr (decimal n) = decimal n := by
    rw [cstr, takeWhile_eq_self_iff]
    intro c hc
    have := hdigits c hc
    simp only [isDecimal, Bool.and_eq_true, decide_eq_true_eq] at this
    simpa using fun h0 : c = 0 => absurd (h0 ▸ this.1) (by decide)
  have hvalue : leadingNumber (decimal n) = n := by
    rw [leadingNumber, ← append_nil (decimal n), takeWhile_isDecimal_decimal n (by simp), decimalValue_decimal]
  obtain ⟨c, rest, hcons⟩ := exists_cons_of_ne_nil (decimal_ne_nil n)
  have hc : isDecimal c := hdigits c (by simp [hcons])
  have hspace : (decimal n).dropWhile (fun c => c = 32 || (9 ≤ c && c ≤ 13)) = decimal n := by
    rw [hcons, dropWhile_cons_of_neg]
    revert hc
    exact forall_uint8 (p := fun c => isDecimal c → ¬ (decide (c = 32) || (decide (9 ≤ c) && decide (c ≤ 13))) = true)
      (by decide +kernel) c
  have hsign : atol (decimal n) = Int64.ofInt (min (leadingNumber (decimal n) : ℤ) (2 ^ 63 - 1)) := by
    rw [atol, hspace]
    split
    · next heq => exact absurd (hdigits 45 (by simp [heq])) (by decide)
    · next heq => exact absurd (hdigits 43 (by simp [heq])) (by decide)
    · rfl
  rw [hcstr, hsign, hvalue, Int64.toInt_ofInt_of_le]
  · omega
  · omega

theorem countOf_decimal (n : ℕ) :
    (countOf (.result (some [some (decimal n)]))).toInt = min (n : ℤ) (2 ^ 63 - 1) := atol_decimal n

/-- The name is free. -/
theorem not_pos_countOf {n : ℕ} (h : ¬ 0 < countOf (.result (some [some (decimal n)]))) : n = 0 := by
  rw [Int64.lt_iff_toInt_lt, countOf_decimal] at h
  simp only [Int64.toInt_zero] at h
  omega

/-- The limit is not reached. -/
theorem not_le_countOf {n : ℕ} {max : Int64} (h : ¬ max ≤ countOf (.result (some [some (decimal n)]))) :
    (n : ℤ) < max.toInt := by
  rw [Int64.le_iff_toInt_le, countOf_decimal] at h
  have := max.toInt_lt
  omega

theorem countRows_append (rows : List TableRow) (row : TableRow) (field value : Bytes) :
    countRows (rows ++ [row]) field value =
      countRows rows field value + if row.lookup field = some value then 1 else 0 := by
  simp [countRows, countP_append, countP_cons]

theorem countRows_append_of_ne {row : TableRow} {field v w : Bytes} (hrow : row.lookup field = some v) (hne : w ≠ v)
    (rows : List TableRow) : countRows (rows ++ [row]) field w = countRows rows field w := by
  rw [countRows_append, hrow, if_neg (fun heq => hne (Option.some.inj heq).symm), Nat.add_zero]

/-! ### Calls that take turns -/

/-- Calls of `create_app` at the same time. -/
abbrev Registrations (ι : Type) := Pool ι Stop Effect Effect.Answer PhpValue (List TableRow)

section Turns

variable {ι : Type} [DecidableEq ι] (setting : Setting) (p : ι → CreateApp)

/-- The calls before their first statements. -/
def registrations (rows : List TableRow) : Registrations ι :=
  .start (fun i => createApp setting (some (p i))) rows

variable (s : Registrations ι)

/-- The statements of a call on the table so far. -/
def Registrations.trace (i : ι) : List (AppinfoStmt × Reply) := appinfoTrace (s.history i)

/-- The call has counted by name, and has neither inserted nor ended. -/
def NameOpen (i : ι) : Prop :=
  (s.next i).isSome ∧ ((Registrations.trace s i).length = 1 ∨ (Registrations.trace s i).length = 2)

/-- The call has counted by email, and has neither inserted nor ended. -/
def EmailOpen (i : ι) : Prop :=
  (s.next i).isSome ∧ (Registrations.trace s i).length = 2

/-- The condition on a turn: a count does not fail, and an insertion happens while no other call for the
same name or address is between its count and its own insertion. -/
def TurnOk (a : ι × Choice) : Prop :=
  ∀ statement, s.next a.1 = some (.query statement) →
    (∀ field value, appinfoStmt statement = some (.count field value) → a.2.fails = none) ∧
      ∀ row, appinfoStmt statement = some (.insert row) → ∀ j ≠ a.1,
        (cstr (p j).appname = cstr (p a.1).appname → ¬ NameOpen s j) ∧
          (cstr (p j).email = cstr (p a.1).email → ¬ EmailOpen s j)

/-- What holds after every turn: besides the limits, what a call has counted is still so while it may
insert. -/
structure TurnInv (s : Registrations ι) : Prop where
  meets : s.Meets fun i => AsksOk setting.maxBlogsPerEmail (p i)
  limits : Limits setting.maxBlogsPerEmail s.shared
  /-- A name that was free is free. -/
  name_free : ∀ i e rest, Registrations.trace s i = e :: rest → NameOpen s i → ¬ 0 < countOf e.2 →
    countRows s.shared (ascii "appname") (cstr (p i).appname) = 0
  /-- An address that was below the limit is below it. -/
  email_free : ∀ i e₁ e₂, Registrations.trace s i = [e₁, e₂] → EmailOpen s i →
    ¬ setting.maxBlogsPerEmail ≤ countOf e₂.2 →
    (countRows s.shared (ascii "email") (cstr (p i).email) : ℤ) < setting.maxBlogsPerEmail.toInt

variable {setting p} {s : Registrations ι} {i : ι} {c : Choice}

/-- The answer to what is no statement on the table leaves the table. -/
theorem Choice.answer_off {q : Effect} (hq : q.OffAppinfo) (rows : List TableRow) : (c.answer rows q).2 = rows := by
  cases q with
  | query statement =>
    simp only [answer, hq statement rfl]
    cases c.fails <;> rfl
  | _ => rfl

/-- A count that does not fail. -/
theorem Choice.answer_count (hc : c.fails = none) {field : Bytes}
    (hstmt : appinfoStmt statement = some (.count field value)) (rows : List TableRow) :
    c.answer rows (.query statement) =
      (Reply.result (some [some (decimal (countRows rows field value))]), rows) := by
  simp only [answer, hc, hstmt]
  rfl

/-- An insertion, which may fail. -/
theorem Choice.answer_insert {row : TableRow} (hstmt : appinfoStmt statement = some (.insert row))
    (rows : List TableRow) :
    (c.answer rows (.query statement)).2 = rows ∨ (c.answer rows (.query statement)).2 = rows ++ [row] := by
  simp only [answer, hstmt]
  cases c.fails with
  | some error => exact .inl rfl
  | none => exact .inr rfl

/-- The calls that another call's turn leaves as they were. -/
theorem trace_of_ne (progs : Prog PhpValue) (hist : List (Exchange Effect Effect.Answer)) (rows : List TableRow)
    {j : ι} (hj : j ≠ i) :
    let s' : Registrations ι := ⟨update s.progs i progs, update s.history i hist, rows⟩
    Registrations.trace s' j = Registrations.trace s j ∧ s'.next j = s.next j := by
  intro s'
  constructor
  · simp [s', Registrations.trace, update_of_ne hj]
  · simp [s', Pool.next, update_of_ne hj]

variable {rows : List TableRow}

/-- A turn of `i` after which the table is `rows` keeps the invariant, if what the others have counted is
still so, and what `i` has counted is so while it may insert. -/
theorem TurnInv.turn (hinv : TurnInv setting p s) {progs : Prog PhpValue}
    {hist : List (Exchange Effect Effect.Answer)}
    (hmeets : Pool.Meets (fun i => AsksOk setting.maxBlogsPerEmail (p i))
      (⟨update s.progs i progs, update s.history i hist, rows⟩ : Registrations ι))
    (hlimits : Limits setting.maxBlogsPerEmail rows)
    (hname : ∀ j ≠ i, NameOpen s j → countRows rows (ascii "appname") (cstr (p j).appname) =
      countRows s.shared (ascii "appname") (cstr (p j).appname))
    (hemail : ∀ j ≠ i, EmailOpen s j → countRows rows (ascii "email") (cstr (p j).email) =
      countRows s.shared (ascii "email") (cstr (p j).email))
    (hnameSelf : ∀ e rest, appinfoTrace hist = e :: rest → rest.length ≤ 1 → ¬ 0 < countOf e.2 →
      countRows rows (ascii "appname") (cstr (p i).appname) = 0)
    (hemailSelf : ∀ e₁ e₂, appinfoTrace hist = [e₁, e₂] → ¬ setting.maxBlogsPerEmail ≤ countOf e₂.2 →
      (countRows rows (ascii "email") (cstr (p i).email) : ℤ) < setting.maxBlogsPerEmail.toInt) :
    TurnInv setting p
      (⟨update s.progs i progs, update s.history i hist, rows⟩ : Registrations ι) := by
  have hself : Registrations.trace
      (⟨update s.progs i progs, update s.history i hist, rows⟩ : Registrations ι) i =
        appinfoTrace hist := by
    simp [Registrations.trace]
  refine ⟨hmeets, hlimits, ?_, ?_⟩
  · intro j e rest htrace hopen hcount
    by_cases hj : j = i
    · subst hj
      rw [hself] at htrace
      refine hnameSelf e rest htrace ?_ hcount
      have hlen := hopen.2
      rw [hself, htrace, length_cons] at hlen
      omega
    · obtain ⟨htraceEq, hnextEq⟩ := trace_of_ne (s := s) progs hist rows hj
      have hopen' : NameOpen s j := by
        unfold NameOpen at hopen
        rwa [htraceEq, hnextEq] at hopen
      rw [htraceEq] at htrace
      rw [hname j hj hopen']
      exact hinv.name_free j e rest htrace hopen' hcount
  · intro j e₁ e₂ htrace hopen hcount
    by_cases hj : j = i
    · subst hj
      rw [hself] at htrace
      exact hemailSelf e₁ e₂ htrace hcount
    obtain ⟨htraceEq, hnextEq⟩ := trace_of_ne (s := s) progs hist rows hj
    have hopen' : EmailOpen s j := by
      unfold EmailOpen at hopen
      rwa [htraceEq, hnextEq] at hopen
    rw [htraceEq] at htrace
    rw [hemail j hj hopen']
    exact hinv.email_free j e₁ e₂ htrace hopen' hcount

/-- Inserting a row for a free name and an address below the limit. -/
theorem Limits.insert {max : Int64} (hlimits : Limits max rows) {row : TableRow}
    {name email : Bytes} (hname : row.lookup (ascii "appname") = some name)
    (hemail : row.lookup (ascii "email") = some email) (hfree : countRows rows (ascii "appname") name = 0)
    (hbelow : (countRows rows (ascii "email") email : ℤ) < max.toInt) : Limits max (rows ++ [row]) := by
  constructor
  · intro n
    rw [countRows_append, hname]
    split_ifs with hn
    · cases hn
      omega
    · exact hlimits.1 n
  · intro e
    rw [countRows_append, hemail]
    split_ifs with he
    · cases he
      push_cast
      omega
    · exact hlimits.2 e

/-- **One turn.** -/
theorem TurnInv.step (hinv : TurnInv setting p s) (hok : TurnOk p s (i, c)) :
    TurnInv setting p (s.step answer (i, c)) := by
  have hmeets := hinv.meets.step answer (i, c)
  rcases hinv.meets.step_cases answer i c with
    ⟨-, heq⟩ | ⟨q, k, hnext, hspec, heq, -⟩
  · rw [heq]
    exact hinv
  rw [heq] at hmeets ⊢
  have hsome : (s.next i).isSome := by simp [hnext]
  have hname (e : AppinfoStmt × Reply) (rest : List (AppinfoStmt × Reply))
      (htrace : appinfoTrace (s.history i) = e :: rest) (hlen : rest.length ≤ 1) :=
    hinv.name_free i e rest htrace ⟨hsome, by
      rw [Registrations.trace, htrace, length_cons]
      omega⟩
  have hemail (e₁ e₂ : AppinfoStmt × Reply) (htrace : appinfoTrace (s.history i) = [e₁, e₂]) :=
    hinv.email_free i e₁ e₂ htrace ⟨hsome, by rw [Registrations.trace, htrace]; rfl⟩
  by_cases hoff : q.OffAppinfo
  · -- the table and the trace of the call are as before
    have hrows : (c.answer s.shared q).2 = s.shared := answer_off hoff _
    rw [hrows] at hmeets ⊢
    refine hinv.turn hmeets hinv.limits (fun _ _ _ => rfl) (fun _ _ _ => rfl) ?_ ?_
    · rw [appinfoTrace_off hoff]
      exact hname
    · rw [appinfoTrace_off hoff]
      exact hemail
  · obtain ⟨statement, rfl, hstmt⟩ : ∃ statement, q = .query statement ∧ appinfoStmt statement ≠ none := by
      simpa [Effect.OffAppinfo] using hoff
    obtain ⟨stmt, hstmt⟩ := Option.ne_none_iff_exists'.mp hstmt
    obtain ⟨hcounts, hinserts⟩ := hok statement hnext
    have hallowed := hspec statement stmt rfl hstmt
    have htrace' (reply : Reply) := appinfoTrace_query (h := s.history i) hstmt reply
    -- the call has made no statement on the table, one count, or both
    cases htrace : appinfoTrace (s.history i) with
    | nil =>
      rw [htrace] at hallowed
      obtain rfl : stmt = .count (ascii "appname") (cstr (p i).appname) := hallowed
      rw [answer_count (hcounts _ _ hstmt) hstmt] at hmeets ⊢
      refine hinv.turn hmeets hinv.limits (fun _ _ _ => rfl) (fun _ _ _ => rfl) ?_ ?_
      · intro e rest htr hlen hcount
        rw [htrace', htrace] at htr
        cases htr
        exact not_pos_countOf hcount
      · intro e₁ e₂ htr
        rw [htrace', htrace] at htr
        cases htr
    | cons e rest =>
      rw [htrace] at hallowed
      match rest with
      | [] =>
        obtain ⟨hfree, rfl⟩ := hallowed
        rw [answer_count (hcounts _ _ hstmt) hstmt] at hmeets ⊢
        refine hinv.turn hmeets hinv.limits (fun _ _ _ => rfl) (fun _ _ _ => rfl) ?_ ?_
        · intro _ _ _ _ _
          exact hname e [] htrace (Nat.zero_le 1) hfree
        · intro e₁ e₂ htr hcount
          rw [htrace', htrace] at htr
          cases htr
          exact not_le_countOf hcount
      | [e₂] =>
        obtain ⟨hfree, hbelow, row, rfl, hrowName, hrowEmail⟩ := hallowed
        have hlimits := hinv.limits.insert hrowName hrowEmail (hname e [e₂] htrace le_rfl hfree)
          (hemail e e₂ htrace hbelow)
        -- after its insertion the call is closed
        have hclosed {reply : Reply} {es : List (AppinfoStmt × Reply)}
            (htr : appinfoTrace (s.history i ++ [⟨.query statement, reply⟩]) = es) : es.length = 3 := by
          rw [← htr, htrace', htrace]
          rfl
        have hothers := hinserts row hstmt
        rcases answer_insert (c := c) hstmt s.shared with hrows | hrows <;> rw [hrows] at hmeets ⊢
        · refine hinv.turn hmeets hinv.limits (fun _ _ _ => rfl) (fun _ _ _ => rfl) ?_ ?_
          · intro e' rest htr hlen
            have := hclosed htr
            rw [length_cons] at this
            omega
          · intro e₁ e₂ htr
            exact nomatch hclosed htr
        · refine hinv.turn hmeets hlimits ?_ ?_ ?_ ?_
          · intro j hj hopen
            exact countRows_append_of_ne hrowName (fun hsame => (hothers j hj).1 hsame hopen) _
          · intro j hj hopen
            exact countRows_append_of_ne hrowEmail (fun hsame => (hothers j hj).2 hsame hopen) _
          · intro e' rest htr hlen
            have := hclosed htr
            rw [length_cons] at this
            omega
          · intro e₁ e₂ htr
            exact nomatch hclosed htr
      | _ :: _ :: _ => exact hallowed.elim

end Turns

/-- **Registrations at the same time**: in every run whose turns meet the condition, the limits hold in the
state reached, if they held at the start and no name or address breaks out of its quotes. -/
theorem run_limits {ι : Type} [DecidableEq ι] (setting : Setting) (p : ι → CreateApp)
    (hplain : ∀ i, PlainCall (p i)) (rows : List TableRow) (hrows : Limits setting.maxBlogsPerEmail rows)
    (turns : List (ι × Choice))
    (hturns : Along (Pool.step answer) (TurnOk p) (registrations setting p rows) turns) :
    Limits setting.maxBlogsPerEmail
      (Lib.run (Pool.step answer) (registrations setting p rows) turns).shared := by
  have hstart : TurnInv setting p (registrations setting p rows) := by
    refine ⟨fun i => createApp_meets setting (hplain i), hrows, ?_, ?_⟩
    · intro i e rest htrace
      cases htrace
    · intro i e₁ e₂ htrace
      cases htrace
  exact (run_invariant (fun s a hs ha => hs.step ha) hstart hturns).limits

/-- An answer that does not fail. -/
def plainChoice : Choice := ⟨none, Effect.emptyAnswer⟩

/-- A registration. -/
def register (appname email : String) : CreateApp := ⟨ascii appname, ascii "u", ascii email, ascii "pw"⟩

/-- Two calls for one address on a table that has a row for it: the second call counts by name before the first one
inserts, and by address after that. -/
theorem run_limits_two_calls :
    let p (second : Bool) := if second then register "b" "e" else register "a" "e"
    let run := Lib.run (Pool.step answer)
      (registrations plainSetting p [[(ascii "appname", ascii "c"), (ascii "email", ascii "e")]])
      (replicate 2 (true, plainChoice) ++ replicate 7 (false, plainChoice) ++
        replicate 5 (true, plainChoice))
    Limits plainSetting.maxBlogsPerEmail run.shared ∧ countRows run.shared (ascii "email") (ascii "e") = 3 := by
  intro p run
  have hnames : ∀ j second, j ≠ second → cstr (p j).appname ≠ cstr (p second).appname := by decide
  -- no call has counted by address and not inserted when the other one has its turn
  have hturn (s : Registrations Bool) (second : Bool) (h : (Registrations.trace s !second).length ≠ 2) :
      TurnOk p s (second, plainChoice) := by
    refine fun _ _ => ⟨fun _ _ _ => rfl, fun _ _ j hj => ?_⟩
    refine ⟨fun hname => absurd hname (hnames _ _ hj), fun _ hopen => h ?_⟩
    rw [← Bool.eq_not_of_ne hj]
    exact hopen.2
  refine ⟨run_limits plainSetting p (fun second => ?_) _ ⟨fun name => ?_, fun email => ?_⟩ _ ?_, by decide +kernel⟩
  · cases second <;> exact ⟨by decide, by decide⟩
  · exact countP_le_length
  · exact (Int.ofNat_le.mpr countP_le_length).trans (by decide)
  · refine ⟨hturn _ _ ?_, hturn _ _ ?_, hturn _ _ ?_, hturn _ _ ?_, hturn _ _ ?_, hturn _ _ ?_, hturn _ _ ?_,
      hturn _ _ ?_, hturn _ _ ?_, hturn _ _ ?_, hturn _ _ ?_, hturn _ _ ?_, hturn _ _ ?_, hturn _ _ ?_, trivial⟩
    all_goals decide +kernel

/-- Both calls count before either inserts: two rows have the name `a`. -/
theorem run_same_name :
    countRows (Lib.run (Pool.step answer)
        (registrations plainSetting (fun second : Bool => if second then register "a" "f" else register "a" "e") [])
        ((replicate 3 (false, plainChoice) ++ replicate 3 (true, plainChoice)) ++
          (replicate 4 (false, plainChoice) ++ replicate 4 (true, plainChoice)))).shared
      (ascii "appname") (ascii "a") = 2 := by
  decide +kernel

end PhpSandbox.Ext
