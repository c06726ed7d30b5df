import PhpSandbox.Daemon.UrlAllow
import PhpSandbox.Lib.Program
import PhpSandbox.Sandbox.AdminDb

/-!
# What the extensions ask for

The functions of the sandbox, blog and daemon extensions are programs over what is
outside of them: the number of the application that the request belongs to, the
admin database, the application's own database, the daemon, `rand` and `time`. The
helpers `admindb_*` of `ext/sandbox/sandbox.c` are here, as programs that issue
their statements.

## The model

The strings are C strings where the source uses them as such (`cstr`). `int` and
`long` are `Int32` and `Int64`. A call can end the request (`Stop`): by an error of
level `E_ERROR`, or by an access outside of a buffer, after which the source says
nothing about what happens.
-/

namespace PhpSandbox.Ext

open Lib Sandbox

/-- A byte string as the C string that it begins with. -/
def cstr (s : Bytes) : Bytes := s.takeWhile (· ≠ 0)

/-- How a call can end the request. -/
inductive Stop where
  /-- `E_ERROR`. -/
  | error (text : Bytes)
  /-- A write past a statement buffer. -/
  | overflow (e : Overflow)
  /-- A fault in the check of a URL. -/
  | urlFault (e : Daemon.Fault)
  /-- A read from `NULL`, or of a column that is not there. -/
  | nullPointer
  /-- A write before a block of memory. -/
  | underflow
  /-- A block of a negative size. -/
  | allocation
  /-- `efree` of a pointer without a value. -/
  | uninitialised
  deriving DecidableEq

/-- The level of an error that does not end the request. -/
inductive Level where
  /-- `E_NOTICE`. -/
  | notice
  /-- `E_WARNING`. -/
  | warning

/-- A row of a result; a column may be `NULL`. -/
abbrev Row := List (Option Bytes)

/-- What the admin database replies to a statement. -/
inductive Reply where
  /-- `mysql_real_query` fails, with the text of `mysql_error`. -/
  | queryFailed (error : Bytes)
  /-- The statement has no result, with the text of `mysql_error` if one is asked for. -/
  | noResult (error : Bytes)
  /-- The statement has a result, with this first row. -/
  | result (row : Option Row)

/-- What a function of the extensions can ask for. -/
inductive Effect where
  /-- `php_get_appid`. -/
  | getAppid
  /-- `php_set_appid`. -/
  | setAppid (appid : Int32)
  /-- A statement on the admin database connection. -/
  | query (statement : Bytes)
  /-- `mysql_insert_id` of that connection. -/
  | insertId
  /-- `sandbox_mysql_do_connect`. -/
  | connect (username password hostname dbname : Option Bytes)
  /-- `ini_set("open_basedir", value)`. -/
  | iniSetOpenBasedir (value : Bytes)
  /-- `n` calls of `rand`. -/
  | rand (n : ℕ)
  | time
  /-- A request to the daemon. -/
  | daemon (request : Bytes)
  /-- `php_error_docref`. -/
  | raise (level : Level) (text : Bytes)

/-- What is answered. -/
def Effect.Answer : Effect → Type
  | getAppid => Int32
  | setAppid _ => Unit
  | query _ => Reply
  | insertId => Int64
  | connect .. => Bool
  | iniSetOpenBasedir _ => Bool
  | rand n => Vector ℕ n
  | time => Int64
  | daemon _ => Except Bytes Bytes
  | raise .. => Unit

/-- The answer where the databases are empty, the clock stands still and nothing fails. -/
def Effect.emptyAnswer : (q : Effect) → q.Answer
  | getAppid => (0 : Int32)
  | setAppid _ => ()
  | query _ => Reply.result none
  | insertId => (0 : Int64)
  | connect .. => true
  | iniSetOpenBasedir _ => true
  | rand n => Vector.replicate n 0
  | time => (0 : Int64)
  | daemon _ => Except.ok []
  | raise .. => ()

/-- A program of the extensions. -/
abbrev Prog := Program Stop Effect Effect.Answer

/-- `SUCCESS` or `FAILURE`. -/
inductive Status where
  /-- `SUCCESS`, which is 0. -/
  | success
  /-- `FAILURE`, which is -1. -/
  | failure
  deriving DecidableEq

/-- The number. -/
def Status.toInt : Status → ℤ
  | success => 0
  | failure => -1

/-- `php_get_appid`. -/
def phpGetAppid : Prog Int32 := .ask .getAppid .ret

/-- `php_set_appid`. -/
def phpSetAppid (appid : Int32) : Prog Unit := .ask (.setAppid appid) .ret

/-- `mysql_real_query` on the admin database connection, and what it is followed by. -/
def mysqlRealQuery (query : Bytes) : Prog Reply := .ask (.query query) .ret

/-- `admindb_insert_id`. -/
def admindbInsertId : Prog Int64 := .ask .insertId .ret

/-- `sandbox_mysql_do_connect`. -/
def sandboxMysqlDoConnect (username password hostname dbname : Option Bytes) : Prog Bool :=
  .ask (.connect username password hostname dbname) .ret

/-- `ini_set` of `open_basedir`. -/
def iniSetOpenBasedir (value : Bytes) : Prog Bool := .ask (.iniSetOpenBasedir value) .ret

/-- `n` calls of `rand`. -/
def rand (n : ℕ) : Prog (Vector ℕ n) := .ask (.rand n) .ret

/-- `time`. -/
def time : Prog Int64 := .ask .time .ret

/-- The connection to the daemon: the text of an `E_ERROR`, or all that is received. -/
def sendToDaemon (request : Bytes) : Prog (Except Bytes Bytes) := .ask (.daemon request) .ret

/-- `php_error_docref`. -/
def raise (level : Level) (text : Bytes) : Prog Unit := .ask (.raise level text) .ret

/-- A statement that is built in a buffer. -/
def built (statement : Except Overflow Bytes) : Prog Bytes := .ofExcept (statement.mapError .overflow)

/-! ### The admin database -/

/-- `do_mysql_query` and `mysql_fetch_row`: the result, if there is one, and its first row. -/
def doMysqlQuery (query : Bytes) : Prog (Option (Option Row)) := do
  match ← mysqlRealQuery query with
  | .queryFailed error =>
    raise .notice (ascii "Query failed (" ++ error ++ ascii ")")
    return none
  | .noResult error =>
    raise .notice (ascii "Cannot get result (" ++ error ++ ascii ")")
    return none
  | .result row => return some row

/-- `mysql_noresult_query`. -/
def mysqlNoresultQuery (query : Bytes) : Prog Status := do
  match ← mysqlRealQuery query with
  | .queryFailed error =>
    raise .notice (ascii "Query failed (" ++ error ++ ascii ")")
    return .failure
  | .noResult _ | .result _ => return .success

/-- The statement of `admindb_fetch_row`. -/
def fetchRowStatement (table field value : Bytes) : Except Overflow Bytes :=
  newSprintf (ascii "SELECT * FROM " ++ table ++ ascii " WHERE \x60" ++ field ++ ascii "\x60='" ++
    phpAddslashes value ++ ascii "'")

/-- The statement of `admindb_fetch_field`. -/
def fetchFieldStatement (table getfield matchfield value : Bytes) : Except Overflow Bytes :=
  newSprintf (ascii "SELECT " ++ getfield ++ ascii " FROM " ++ table ++ ascii " WHERE \x60" ++
    matchfield ++ ascii "\x60='" ++ value ++ ascii "'")

/-- `admindb_fetch_row`. -/
def admindbFetchRow (table field value : Bytes) : Prog (Option Row) := do
  let query ← built (fetchRowStatement table field value)
  let res ← doMysqlQuery query
  return res.join

/-- `admindb_fetch_field`. -/
def admindbFetchField (table getfield matchfield value : Bytes) : Prog (Option Bytes) := do
  let query ← built (fetchFieldStatement table getfield matchfield value)
  match ← doMysqlQuery query with
  | none | some none => return none
  | some (some (value :: _)) => return value
  | some (some []) => .fail .nullPointer

/-- The digits at the beginning of a text, as a number. -/
def leadingNumber (s : Bytes) : ℕ := decimalValue (s.takeWhile isDecimal)

/-- `atol`, which stops at the first character that is no digit and does not leave the range of a
`long`. -/
def atol (s : Bytes) : Int64 :=
  match s.dropWhile fun c => c = 32 || (9 ≤ c && c ≤ 13) with
  | 45 :: s => Int64.ofInt (max (-(leadingNumber s : ℤ)) (-2 ^ 63))
  | 43 :: s => Int64.ofInt (min (leadingNumber s : ℤ) (2 ^ 63 - 1))
  | s => Int64.ofInt (min (leadingNumber s : ℤ) (2 ^ 63 - 1))

/-- `admindb_row_count`. -/
def admindbRowCount (table field value : Bytes) : Prog Int64 := do
  match ← admindbFetchField table (ascii "COUNT(*)") field value with
  | some count => return atol (cstr count)
  | none => return 0

/-- `admindb_num_rows`. -/
def admindbNumRows : Prog Int64 := do
  match ← doMysqlQuery (ascii "SELECT COUNT(*) FROM appinfo") with
  | none => return 0
  | some (some (some count :: _)) => return atol (cstr count)
  | some _ => .fail .nullPointer

/-- `admindb_update_row`. -/
def admindbUpdateRow (table : Name) (appid : Int32) (field : FieldName) (value : Bytes) : Prog Status := do
  let query ← built (Sandbox.admindbUpdateRow table appid field value)
  mysqlNoresultQuery query

/-- `admindb_insert_row`. -/
def admindbInsertRow (table : Name) (fields : List (FieldName × Bytes)) : Prog Status := do
  let query ← built (Sandbox.admindbInsertRow table fields)
  mysqlNoresultQuery query

/-- `create_database`. -/
def createDatabase (dbname : Bytes) : Prog Status := do
  let query ← built (newSprintf (ascii "CREATE DATABASE " ++ dbname))
  mysqlNoresultQuery query

/-- `grant_db_privilege`. -/
def grantDbPrivilege (dbname host username password : Bytes) : Prog Status := do
  let query ← built (newSprintf (ascii "GRANT ALL ON " ++ dbname ++ ascii ".* TO '" ++ username ++ ascii "'@'" ++
    host ++ ascii "' IDENTIFIED BY '" ++ password ++ ascii "'"))
  mysqlNoresultQuery query

/-! ### Random strings -/

/-- The character for the number `t`. -/
def randomChar (t : ℕ) : UInt8 :=
  if t < 10 then UInt8.ofNat (48 + t)
  else if t < 36 then UInt8.ofNat (65 + t - 10)
  else UInt8.ofNat (97 + t - 36)

/-- `random_str_gen`. The size of the block is computed in an `int`. -/
def randomStrGen (length : Int32) : Prog Bytes :=
  if length + 1 < 0 then .fail .allocation
  else if length < 0 then .fail .underflow
  else do
    let ts ← rand length.toInt.toNat
    return ts.toList.map fun t => randomChar (t % 62)

end PhpSandbox.Ext
