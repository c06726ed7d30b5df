import PhpSandbox.Ext.Functions

/-!
# Which effects the functions have

For a kind of effects that has all the harmless ones (`Effect.Local`), the helpers
have effects of that kind only, if their statements are of it. What a claim about the
functions needs is then read off the statements alone.
-/

namespace PhpSandbox.Ext

open Lib Sandbox Program

/-- An effect that neither changes the number of the application nor uses the admin database. -/
def Effect.Local : Effect → Prop
  | setAppid _ | query _ => False
  | _ => True

section Only

variable {kind : Effect → Prop}

theorem only_built (statement : Except Overflow Bytes) : (built statement).Only kind := only_ofExcept _

theorem only_built_bind {statement : Except Overflow Bytes} {β : Type} {f : Bytes → Prog β}
    (h : ∀ query, statement = .ok query → (f query).Only kind) : (built statement >>= f).Only kind := by
  cases statement with
  | error e =>
    show (fail (.overflow e) >>= f).Only kind
    rw [fail_bind]
    exact only_fail _
  | ok query =>
    show (ret query >>= f).Only kind
    rw [ret_bind]
    exact h query rfl

variable (hlocal : ∀ q : Effect, q.Local → kind q)

include hlocal

theorem only_effect {q : Effect} (h : q.Local) : (ask q ret : Prog q.Answer).Only kind :=
  only_ask (hlocal q h) only_ret

theorem only_raise (level : Level) (text : Bytes) : (raise level text).Only kind := only_effect hlocal trivial

theorem only_phpGetAppid : phpGetAppid.Only kind := only_effect hlocal trivial

theorem only_warnNull (text : Bytes) : (warnNull text).Only kind :=
  (only_raise hlocal _ _).then_ret

theorem only_getAppidParam {appid : Option Int64} {body : Int64 → Prog PhpValue} (h : ∀ n, (body n).Only kind) :
    (getAppidParam appid body).Only kind := by
  cases appid with
  | none => exact only_warnNull hlocal _
  | some n => exact h n

theorem only_randomStrGen (length : Int32) : (randomStrGen length).Only kind := by
  unfold randomStrGen
  split_ifs
  · exact only_fail _
  · exact only_fail _
  · exact Only.bind (only_effect hlocal trivial) fun _ => only_ret _

/-! ### Statements -/

theorem only_doMysqlQuery {query : Bytes} (hq : kind (.query query)) : (doMysqlQuery query).Only kind := by
  refine Only.bind (only_ask hq only_ret) fun reply => ?_
  cases reply with
  | queryFailed error | noResult error => exact (only_raise hlocal _ _).then_ret
  | result row => exact only_ret _

theorem only_mysqlNoresultQuery {query : Bytes} (hq : kind (.query query)) : (mysqlNoresultQuery query).Only kind := by
  refine Only.bind (only_ask hq only_ret) fun reply => ?_
  cases reply with
  | queryFailed error => exact (only_raise hlocal _ _).then_ret
  | noResult error | result row => exact only_ret _

variable {table field value : Bytes}

theorem only_admindbFetchRow (hq : ∀ query, fetchRowStatement table field value = .ok query → kind (.query query)) :
    (admindbFetchRow table field value).Only kind :=
  only_built_bind fun query hquery => (only_doMysqlQuery hlocal (hq query hquery)).then_ret

theorem only_admindbFetchField {table getfield matchfield value : Bytes}
    (hq : ∀ query, fetchFieldStatement table getfield matchfield value = .ok query → kind (.query query)) :
    (admindbFetchField table getfield matchfield value).Only kind := by
  refine only_built_bind fun query hquery => (only_doMysqlQuery hlocal (hq query hquery)).bind fun res => ?_
  split
  · exact only_ret _
  · exact only_ret _
  · exact only_ret _
  · exact only_fail _

theorem only_admindbRowCount
    (hq : ∀ query, fetchFieldStatement table (ascii "COUNT(*)") field value = .ok query → kind (.query query)) :
    (admindbRowCount table field value).Only kind := by
  refine (only_admindbFetchField hlocal hq).bind fun count => ?_
  cases count with
  | none | some count => exact only_ret _

theorem only_admindbNumRows (hq : kind (.query (ascii "SELECT COUNT(*) FROM appinfo"))) : admindbNumRows.Only kind := by
  refine (only_doMysqlQuery hlocal hq).bind fun res => ?_
  split
  · exact only_ret _
  · exact only_ret _
  · exact only_fail _

theorem only_admindbUpdateRow {table : Name} {appid : Int32} {field : FieldName} {value : Bytes}
    (hq : ∀ query, Sandbox.admindbUpdateRow table appid field value = .ok query → kind (.query query)) :
    (admindbUpdateRow table appid field value).Only kind :=
  only_built_bind fun query hquery => only_mysqlNoresultQuery hlocal (hq query hquery)

theorem only_admindbInsertRow {table : Name} {fields : List (FieldName × Bytes)}
    (hq : ∀ query, Sandbox.admindbInsertRow table fields = .ok query → kind (.query query)) :
    (admindbInsertRow table fields).Only kind :=
  only_built_bind fun query hquery => only_mysqlNoresultQuery hlocal (hq query hquery)

theorem only_createDatabase {dbname : Bytes} (hq : kind (.query (ascii "CREATE DATABASE " ++ dbname))) :
    (createDatabase dbname).Only kind := by
  refine only_built_bind fun query hquery => only_mysqlNoresultQuery hlocal ?_
  rw [(newSprintf_eq_ok_iff.mp hquery).2]
  exact hq

theorem only_grantDbPrivilege {dbname host username password : Bytes}
    (hq : ∀ rest, kind (.query (ascii "GRANT ALL ON " ++ rest))) :
    (grantDbPrivilege dbname host username password).Only kind := by
  refine only_built_bind fun query hquery => only_mysqlNoresultQuery hlocal ?_
  rw [(newSprintf_eq_ok_iff.mp hquery).2]
  exact hq _

theorem only_phpConnectUserdb {appid : Int32}
    (hq : ∀ query, fetchRowStatement dbconf.text (ascii "id") (ltostr appid.toInt) = .ok query → kind (.query query)) :
    (phpConnectUserdb appid).Only kind := by
  refine (only_admindbFetchRow hlocal hq).bind fun row => ?_
  split
  · exact only_ret _
  · refine Only.bind (only_effect hlocal trivial) fun conn => ?_
    cases conn with
    | true => exact only_ret _
    | false => exact (only_raise hlocal _ _).then_ret
  · exact only_fail _

/-- The statements of `create_app` after its insertion. -/
theorem only_createUserdb (setting : Setting) (appid : Int64)
    (hinsert : ∀ fields query, Sandbox.admindbInsertRow dbconf fields = .ok query → kind (.query query))
    (hcreate : ∀ rest, kind (.query (ascii "CREATE DATABASE " ++ rest)))
    (hgrant : ∀ rest, kind (.query (ascii "GRANT ALL ON " ++ rest)))
    (hfetch : ∀ value query, fetchRowStatement dbconf.text (ascii "id") value = .ok query → kind (.query query)) :
    (createUserdb setting appid).Only kind := by
  have hwarn (text : Bytes) : (warnNull text).Only kind := only_warnNull hlocal text
  refine (only_built _).bind fun dbname => (only_randomStrGen hlocal _).bind fun dbpass => ?_
  refine (only_admindbInsertRow hlocal (hinsert _)).bind fun saved => ?_
  split_ifs
  · exact hwarn _
  refine (only_createDatabase hlocal (hcreate _)).bind fun created => ?_
  split_ifs
  · exact hwarn _
  refine (only_grantDbPrivilege hlocal hgrant).bind fun granted => ?_
  split_ifs
  · exact hwarn _
  refine (only_phpConnectUserdb hlocal (hfetch _)).bind fun connected => ?_
  split_ifs
  · exact hwarn _
  · exact only_ret _

theorem only_setBasedir (setting : Setting) : (setBasedir setting).Only kind := by
  unfold setBasedir
  split_ifs
  · exact only_fail _
  · refine (only_ofExcept _).bind fun basedir => Only.bind (only_effect hlocal trivial) fun ok => ?_
    cases ok with
    | true => exact only_ret _
    | false => exact only_fail _

/-! ### The daemon -/

theorem only_raiseTooLong (n : ℕ) : (raiseTooLong n).Only kind := by
  induction n with
  | zero => exact only_ret _
  | succ n ih => exact (only_raise hlocal _ _).bind fun _ => ih

theorem only_parseIntoReturnValue (response : Bytes) : (parseIntoReturnValue response).Only kind := by
  unfold parseIntoReturnValue
  split
  · exact only_ret _
  · exact (only_raise hlocal _ _).then_ret
  · exact only_fail _

theorem only_daemonGetResponse (reqStr : Bytes) : (daemonGetResponse reqStr).Only kind := by
  refine Only.bind (only_effect hlocal trivial) fun reply => ?_
  cases reply with
  | error text => exact only_fail _
  | ok buf =>
    dsimp only
    split_ifs
    · exact (only_raise hlocal _ _).then_ret
    · exact only_ret _

variable (setting : Setting) (method action : Bytes) (data : Daemon.RequestData)

theorem only_phpRequestDaemon : (phpRequestDaemon setting method action data).Only kind := by
  refine (only_phpGetAppid hlocal).bind fun appid => ?_
  split
  · exact (only_raise hlocal _ _).bind fun _ => only_fail _
  refine (only_raiseTooLong hlocal _).bind fun _ => (only_daemonGetResponse hlocal _).bind fun response => ?_
  split
  · exact only_ret _
  · exact (only_raise hlocal _ _).bind fun _ => (only_raise hlocal _ _).then_ret
  · refine (only_parseIntoReturnValue hlocal _).bind fun r => ?_
    split
    · exact only_ret _
    · exact (only_raise hlocal _ _).then_ret

variable (usage : String)

theorem only_wrongParameters (returnValue : PhpValue) :
    (wrongParameters usage returnValue).Only kind := (only_raise hlocal _ _).then_ret

theorem only_requestBool : (requestBool setting method action data).Only kind :=
  (only_phpRequestDaemon hlocal setting _ _ _).then_ret

theorem only_requestCall (call : Daemon.Call) : (requestCall setting call).Only kind :=
  (only_phpRequestDaemon hlocal setting _ _ _).then_ret

variable (call : Option Daemon.Call)

theorem only_requestLater : (requestLater setting usage call).Only kind := by
  cases call with
  | none => exact only_wrongParameters hlocal _ _
  | some call => exact only_requestBool hlocal setting _ _ _

theorem only_requestNow : (requestNow setting usage call).Only kind := by
  cases call with
  | none => exact only_wrongParameters hlocal _ _
  | some call => exact only_requestCall hlocal setting _

theorem only_phpAppRootUrl : (phpAppRootUrl setting).Only kind := by
  refine (only_phpGetAppid hlocal).bind fun appid => ?_
  split_ifs
  · exact only_ret _
  · split
    · exact only_fail _
    · exact (only_ofExcept _).then_ret

theorem only_assertAllowUrlOr {url : Bytes} {body : Prog PhpValue} (h : body.Only kind) :
    (assertAllowUrlOr setting url body).Only kind := by
  refine (only_phpAppRootUrl hlocal setting).bind fun root => ?_
  split
  · exact only_fail _
  · exact only_warnNull hlocal _
  · exact h

theorem only_postParamsWarnings (postData : Option Daemon.RequestData) : (postParamsWarnings postData).Only kind := by
  unfold postParamsWarnings
  split
  · exact only_ret _
  · split
    · exact only_raiseTooLong hlocal _
    · exact only_raise hlocal _ _

end Only

end PhpSandbox.Ext
