import PhpSandbox.Ext.Registration

/-!
# The admin database

What the server makes of the statements that the functions of the extensions send: the
tables `appinfo` and `dbconf`, and the databases that there are.

## The model

The server reads the tokens of a statement (`AdminStmt.of`). A statement that it does
not fail (`Choice`) is answered and carried out as it says; one of another shape, such
as a look-up whose value breaks out of its quotes or a `GRANT`, changes neither the
tables nor the databases and is answered arbitrarily. A row of `appinfo` gets the next
number as its `id`.

## What is proved

`AdminDb.answer_snd`: a statement that fails changes nothing, and any other one does
what it says. The statements of the helpers are read as they are meant
(`AdminStmt.of_insertRow`, `of_updateRow`, `of_fetchField`, `of_fetchRow`).
-/

namespace PhpSandbox.Ext

open Lib Lib.Sql Sandbox Program AdminCall Option

/-- The tables. -/
inductive Table where
  | appinfo
  | dbconf
  deriving DecidableEq

/-- The name of a table. -/
def Table.name : Table → Name
  | .appinfo => Sandbox.appinfo
  | .dbconf => Ext.dbconf

/-- The table of this name. -/
def Table.ofName (name : Bytes) : Option Table :=
  if name = (Table.name .appinfo).text then some .appinfo
  else if name = (Table.name .dbconf).text then some .dbconf
  else none

/-- A statement, as the server understands it. -/
inductive AdminStmt where
  /-- `SELECT COUNT(*) FROM table WHERE field = value`. -/
  | selectCount (table : Table) (field value : Bytes)
  /-- `SELECT column FROM table WHERE field = value`. -/
  | selectField (column : Bytes) (table : Table) (field value : Bytes)
  /-- `SELECT * FROM table WHERE field = value`. -/
  | selectRow (table : Table) (field value : Bytes)
  /-- `UPDATE table SET column = value WHERE field = key`. -/
  | updateRow (table : Table) (column value field key : Bytes)
  /-- `INSERT INTO table SET row`. -/
  | insertRow (table : Table) (row : TableRow)
  /-- `CREATE DATABASE dbname`. -/
  | createDatabase (dbname : Bytes)

open AdminStmt

namespace AdminStmt

/-- `FROM table WHERE field = value`. -/
def fromWhere : List Token → Option (Table × Bytes × Bytes)
  | [.word kw, .word table, .word kw', .ident field, .punct 61, .str value] =>
    if kw = ascii "FROM" ∧ kw' = ascii "WHERE" then (Table.ofName table).map (·, field, value) else none
  | _ => none

/-- What follows `SELECT`. -/
def ofSelect : List Token → Option AdminStmt
  | .punct 42 :: rest => (fromWhere rest).map fun (table, field, value) => .selectRow table field value
  | .word kw :: .punct 40 :: .punct 42 :: .punct 41 :: rest =>
    if kw = ascii "COUNT" then (fromWhere rest).map fun (table, field, value) => .selectCount table field value
    else none
  | .word column :: rest => (fromWhere rest).map fun (table, field, value) => .selectField column table field value
  | _ => none

/-- What follows `UPDATE`. -/
def ofUpdate : List Token → Option AdminStmt
  | [.word table, .word kw, .ident column, .punct 61, .str value, .word kw', .ident field, .punct 61, .str key] =>
    if kw = ascii "SET" ∧ kw' = ascii "WHERE" then (Table.ofName table).map (.updateRow · column value field key)
    else none
  | _ => none

/-- What follows `INSERT`. -/
def ofInsert : List Token → Option AdminStmt
  | .word kw :: .word table :: .word kw' :: rest =>
    if kw = ascii "INTO" ∧ kw' = ascii "SET" then
      match Table.ofName table, parseAssigns rest with
      | some table, some row => some (.insertRow table row)
      | _, _ => none
    else none
  | _ => none

/-- What follows `CREATE`. -/
def ofCreate : List Token → Option AdminStmt
  | [.word kw, .word dbname] => if kw = ascii "DATABASE" then some (.createDatabase dbname) else none
  | _ => none

/-- The statement of these tokens. -/
def ofTokens : List Token → Option AdminStmt
  | .word kw :: rest =>
    if kw = ascii "SELECT" then ofSelect rest
    else if kw = ascii "UPDATE" then ofUpdate rest
    else if kw = ascii "INSERT" then ofInsert rest
    else if kw = ascii "CREATE" then ofCreate rest
    else none
  | _ => none

/-- The statement of a text. -/
def of (statement : Bytes) : Option AdminStmt := ofTokens (lex statement)

end AdminStmt

/-- The admin database, with the connection's `mysql_insert_id`. -/
structure AdminDb where
  /-- The rows of `appinfo`. -/
  appinfo : List TableRow
  /-- The rows of `dbconf`. -/
  dbconf : List TableRow
  /-- The databases. -/
  databases : List Bytes
  /-- The number of the next row of `appinfo`. -/
  nextId : ℕ
  /-- `mysql_insert_id`. -/
  insertId : ℕ

variable (db : AdminDb)

/-- The rows of a table. -/
def AdminDb.rows : Table → List TableRow
  | .appinfo => db.appinfo
  | .dbconf => db.dbconf

/-- The rows have this value in a field. -/
def TableRow.has (row : TableRow) (field value : Bytes) : Bool := row.lookup field = some value

/-- A row with another value in a column. -/
def TableRow.set (row : TableRow) (column value : Bytes) : TableRow :=
  (column, value) :: row.filter fun f => f.1 ≠ column

/-- What an update makes of the rows of its table. -/
def updateRows (rows : List TableRow) (column value field key : Bytes) : List TableRow :=
  rows.map fun row => if TableRow.has row field key then TableRow.set row column value else row

namespace AdminStmt

/-- What a statement changes. -/
def apply (db : AdminDb) : AdminStmt → AdminDb
  | .updateRow .appinfo column value field key => { db with appinfo := updateRows db.appinfo column value field key }
  | .updateRow .dbconf column value field key => { db with dbconf := updateRows db.dbconf column value field key }
  | .insertRow .appinfo row =>
    { db with
      appinfo := db.appinfo ++ [(ascii "id", ltostr db.nextId) :: row]
      nextId := db.nextId + 1
      insertId := db.nextId }
  | .insertRow .dbconf row => { db with dbconf := db.dbconf ++ [row] }
  | .createDatabase dbname =>
    if dbname ∈ db.databases then db else { db with databases := dbname :: db.databases }
  | .selectCount .. | .selectField .. | .selectRow .. => db

/-- What a statement is answered. -/
def reply (db : AdminDb) : AdminStmt → Reply
  | .selectCount table field value => .result (some [some (decimal (countRows (db.rows table) field value))])
  | .selectField column table field value =>
    .result (((db.rows table).find? fun row => TableRow.has row field value).map fun row => [row.lookup column])
  | .selectRow table field value =>
    .result (((db.rows table).find? fun row => TableRow.has row field value).map fun row => row.map fun f => some f.2)
  | .createDatabase dbname =>
    if dbname ∈ db.databases then .queryFailed (ascii "database exists") else .noResult []
  | .updateRow .. | .insertRow .. => .noResult []

end AdminStmt

/-- What is answered, and the database after it. -/
def AdminDb.answer (c : Choice) (db : AdminDb) : (q : Effect) → q.Answer × AdminDb
  | .query statement =>
    match c.fails with
    | some error => (Reply.queryFailed error, db)
    | none =>
      match of statement with
      | some stmt => (stmt.reply db, stmt.apply db)
      | none => (c.other (.query statement), db)
  | .insertId => (Int64.ofNat db.insertId, db)
  | q => (c.other q, db)

/-- The reply says that the statement failed. -/
def Reply.failed : Reply → Bool
  | .queryFailed _ => true
  | .noResult _ | .result _ => false

/-- What an exchange changes. -/
def replayOne : Exchange Effect Effect.Answer → AdminDb
  | ⟨.query statement, reply⟩ =>
    if Reply.failed reply then db else ((of statement).map (apply db)).getD db
  | _ => db

/-- What a history of exchanges changes. -/
def replay (h : List (Exchange Effect Effect.Answer)) : AdminDb := h.foldl replayOne db

/-- **The server**: a statement that fails changes nothing, and any other one does what it says. -/
theorem AdminDb.answer_snd (c : Choice) (db : AdminDb) (q : Effect) :
    (db.answer c q).2 = replayOne db ⟨q, (db.answer c q).1⟩ := by
  cases q with
  | query statement =>
    simp only [answer]
    cases c.fails with
    | some error => rfl
    | none =>
      cases hstmt : of statement with
      | none =>
        simp only [replayOne, hstmt, map_none, getD_none]
        split_ifs <;> rfl
      | some stmt =>
        simp only [replayOne, hstmt, map_some, getD_some]
        cases stmt with
        | createDatabase dbname =>
          by_cases hdb : dbname ∈ db.databases
          · simp [reply, apply, hdb]
          · simp [reply, apply, hdb, Reply.failed]
        | updateRow table | insertRow table row => cases table <;> rfl
        | _ => rfl
  | _ => rfl

/-! ### The statements of the helpers -/

section Statements

variable {statement : Bytes} (table : Table)

theorem Table.ofName_name : Table.ofName table.name.text = some table := by
  cases table <;> decide

/-- An insertion is read as its row. -/
theorem AdminStmt.of_insertRow {fields : List (FieldName × Bytes)} (hne : fields ≠ [])
    (h : Sandbox.admindbInsertRow table.name fields = .ok statement) :
    of statement = some (.insertRow table (fields.map fun f => (phpAddslashes f.1.text, f.2))) := by
  have hlex : lex statement = (AdminCall.insertRow table.name fields).shape :=
    ((AdminCall.insertRow table.name fields).lex_statement_iff.mpr fun _ => trivial) statement h
  have htokens : of statement = ofInsert (.word (ascii "INTO") :: .word table.name.text :: .word (ascii "SET") ::
      insertShape 0 fields) := by
    rw [of, hlex]
    rfl
  rw [htokens, ofInsert, if_pos ⟨rfl, rfl⟩, Table.ofName_name, parseAssigns_insertShape hne]

/-- An update is read as one. -/
theorem AdminStmt.of_updateRow (appid : Int32) (field : FieldName) (value : Bytes)
    (h : Sandbox.admindbUpdateRow table.name appid field value = .ok statement) :
    of statement = some (.updateRow table field.text value (ascii "id") (ltostr appid.toInt)) := by
  have hlex : lex statement = (AdminCall.updateRow table.name appid field value).shape :=
    ((AdminCall.updateRow table.name appid field value).lex_statement_iff.mpr fun _ => trivial) statement h
  have htokens : of statement = ofUpdate [.word table.name.text, .word (ascii "SET"), .ident field.text, .punct 61,
      .str value, .word (ascii "WHERE"), .ident (ascii "id"), .punct 61, .str (ltostr appid.toInt)] := by
    rw [of, hlex]
    rfl
  rw [htokens, ofUpdate, if_pos ⟨rfl, rfl⟩, Table.ofName_name, map_some]

theorem AdminStmt.fromWhere_eq (field value : Bytes) :
    fromWhere [.word (ascii "FROM"), .word table.name.text, .word (ascii "WHERE"), .ident field, .punct 61,
      .str value] = some (table, field, value) := by
  rw [fromWhere, if_pos ⟨rfl, rfl⟩, Table.ofName_name, map_some]

/-- A look-up of a field is read as one, if its value needs no escaping. -/
theorem AdminStmt.of_fetchField (column : Name) (field : FieldName) {value : Bytes}
    (hplain : plain 39 value) (h : fetchFieldStatement table.name.text column.text field.text value = .ok statement) :
    of statement = some (.selectField column.text table field.text value) := by
  have hlex : lex statement = (fetchField table.name (.column column) field value).shape :=
    ((fetchField table.name (.column column) field value).lex_statement_iff.mpr fun _ => hplain) statement h
  have htokens : of statement = ofSelect (.word column.text :: [.word (ascii "FROM"), .word table.name.text,
      .word (ascii "WHERE"), .ident field.text, .punct 61, .str value]) := by
    rw [of, hlex]
    rfl
  rw [htokens, ofSelect, fromWhere_eq, map_some]
  simp

/-- A look-up of a row is read as one. -/
theorem AdminStmt.of_fetchRow (field : FieldName) {value : Bytes}
    (h : fetchRowStatement table.name.text field.text value = .ok statement) :
    of statement = some (.selectRow table field.text value) := by
  have hlex : lex statement = (fetchRow table.name field value).shape :=
    ((fetchRow table.name field value).lex_statement_iff.mpr fun _ => trivial) statement h
  have htokens : of statement = ofSelect (.punct 42 :: [.word (ascii "FROM"), .word table.name.text,
      .word (ascii "WHERE"), .ident field.text, .punct 61, .str value]) := by
    rw [of, hlex]
    rfl
  rw [htokens, ofSelect, fromWhere_eq, map_some]

end Statements

end PhpSandbox.Ext
