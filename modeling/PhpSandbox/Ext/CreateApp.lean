import PhpSandbox.Ext.AdminServer

/-!
# What `create_app` leaves behind

`create_app` (`ext/blog/blog.c`) inserts a row into `appinfo`, a row into `dbconf`,
creates a database, grants the privileges on it and connects to it. It returns `NULL`
at the first of these that fails, and undoes none of those before.

## The model

A call is a run of `createApp` against the admin database, with one choice of what
fails for each question (`Script`). `Program.exchanges` is what the call exchanges with
its surroundings.

## What is proved

`createApp_yields` takes a call apart: it returns `NULL` before anything is changed, or
it inserts the row into `appinfo` and then returns `NULL` just when something fails
after that. `createApp_atomic_iff`: a call that returns `NULL` leaves the tables and the
databases as they were, if and only if nothing fails after the insertion into `appinfo`
was made.
-/

namespace PhpSandbox.Ext

open Lib Lib.Sql Sandbox Program AdminStmt List

/-! ### Exchanges -/

/-- A question and its answer. -/
abbrev Asked := Exchange Effect Effect.Answer

/-- The statement looks for a row. -/
def looksUp (statement : Bytes) : Bool :=
  match of statement with
  | some (.selectRow ..) => true
  | _ => false

/-- Something fails: a statement, the search for a row, or the connection to a database. -/
def Asked.failed : Asked → Bool
  | ⟨.query statement, reply⟩ =>
    match reply with
    | .queryFailed _ => true
    | .noResult _ | .result none => looksUp statement
    | .result (some _) => false
  | ⟨.connect .., ok⟩ => Bool.not ok
  | _ => false

/-- A row is inserted into `appinfo`. -/
def Asked.registers : Asked → Bool
  | ⟨.query statement, reply⟩ =>
    match of statement with
    | some (.insertRow .appinfo _) => !Reply.failed reply
    | _ => false
  | _ => false

/-- Neither the tables nor the databases are changed. -/
def Asked.Harmless (e : Asked) : Prop := ∀ db, replayOne db e = db

/-- Something fails after a row was inserted into `appinfo`. -/
def FailedAfter (h : List Asked) : Prop :=
  ∃ e ∈ (h.dropWhile fun e => !Asked.registers e).tail, Asked.failed e

instance (h : List Asked) : Decidable (FailedAfter h) := inferInstanceAs (Decidable (∃ e ∈ _, _ = true))

/-- A question that changes nothing, whatever the answer is. -/
def Effect.Idle (q : Effect) : Prop := ∀ a, Asked.Harmless ⟨q, a⟩

/-- A question that cannot fail. -/
def Effect.Quiet : Effect → Prop
  | .query _ | .connect .. => False
  | _ => True

section Exchanges

variable {e : Asked}

theorem Effect.Local.idle (q : Effect) (h : q.Local) : q.Idle := by
  intro a db
  cases q with
  | query statement => exact h.elim
  | _ => rfl

theorem Asked.not_failed_of_quiet (h : e.1.Quiet) : Asked.failed e = false := by
  obtain ⟨q, a⟩ := e
  cases q with
  | query statement | connect => exact h.elim
  | _ => rfl

theorem only_quiet_randomStrGen (length : Int32) : (randomStrGen length).Only Effect.Quiet := by
  unfold randomStrGen
  split_ifs
  · exact only_fail _
  · exact only_fail _
  · exact Only.bind (only_ask trivial only_ret) fun _ => only_ret _

variable (db : AdminDb)

/-- An insertion adds a row, and nothing removes one. -/
theorem length_appinfo_replayOne (e : Asked) :
    (replayOne db e).appinfo.length = db.appinfo.length + if Asked.registers e then 1 else 0 := by
  obtain ⟨q, a⟩ := e
  cases q with
  | query statement =>
    rw [replayOne, Asked.registers]
    cases hstmt : of statement with
    | none => simp
    | some stmt =>
      cases stmt with
      | insertRow table row =>
        cases table <;> by_cases hfailed : Reply.failed a <;> simp [hfailed, apply]
      | updateRow table column value field key =>
        cases table <;> by_cases hfailed : Reply.failed a <;> simp [hfailed, apply, updateRows]
      | createDatabase dbname =>
        by_cases hfailed : Reply.failed a <;> by_cases hdb : dbname ∈ db.databases <;>
          simp [hfailed, apply, hdb]
      | _ => simp [apply]
  | _ => rfl

theorem length_appinfo_replay (h : List Asked) :
    (replay db h).appinfo.length = db.appinfo.length + h.countP Asked.registers := by
  induction h generalizing db with
  | nil => rfl
  | cons e h ih =>
    rw [replay, foldl_cons, ← replay, ih, length_appinfo_replayOne, countP_cons]
    omega

theorem Asked.Harmless.not_registers (h : Asked.Harmless e) : Asked.registers e = false := by
  have hlen := length_appinfo_replayOne ⟨[], [], [], 0, 0⟩ e
  rw [h] at hlen
  by_contra hreg
  rw [if_pos (by simpa using hreg)] at hlen
  cases hlen

theorem replay_of_harmless {h : List Asked} (hh : ∀ e ∈ h, Asked.Harmless e) : replay db h = db := by
  induction h with
  | nil => rfl
  | cons e h ih =>
    rw [replay, foldl_cons, hh e mem_cons_self]
    exact ih fun e' he' => hh e' (mem_cons_of_mem _ he')

end Exchanges

/-! ### Statements -/

section Statements

theorem AdminStmt.of_word {word : Bytes} (hne : word ≠ []) (hword : word.all isWordChar) (rest : Bytes) :
    of (word ++ 32 :: rest) = ofTokens (.word word :: lex rest) := by
  rw [of, lex_bare hne hword]

theorem AdminStmt.apply_of_ofSelect {tokens : List Token} {stmt : AdminStmt} (h : ofSelect tokens = some stmt)
    (db : AdminDb) : apply db stmt = db := by
  unfold ofSelect at h
  split at h
  · obtain ⟨_, _, rfl⟩ := Option.map_eq_some_iff.mp h
    rfl
  · split_ifs at h
    obtain ⟨_, _, rfl⟩ := Option.map_eq_some_iff.mp h
    rfl
  · obtain ⟨_, _, rfl⟩ := Option.map_eq_some_iff.mp h
    rfl
  · cases h

variable (rest : Bytes)

/-- A look-up changes nothing, even if its value breaks out of the quotes. -/
theorem Effect.idle_select : (Effect.query (ascii "SELECT" ++ 32 :: rest)).Idle := by
  intro reply db
  have hof : of (ascii "SELECT" ++ 32 :: rest) = ofSelect (lex rest) :=
    of_word (by decide) (by decide) rest
  rw [replayOne, hof]
  cases hstmt : ofSelect (lex rest) with
  | none => simp
  | some stmt => simp [apply_of_ofSelect hstmt]

variable {query : Bytes}

theorem looksUp_create : looksUp (ascii "CREATE" ++ 32 :: rest) = false := by
  have hof : of (ascii "CREATE" ++ 32 :: rest) = ofCreate (lex rest) :=
    of_word (by decide) (by decide) rest
  rw [looksUp, hof]
  unfold ofCreate
  split
  · next hstmt =>
    split at hstmt
    · split_ifs at hstmt
      cases hstmt
    · cases hstmt
  · rfl

theorem looksUp_grant : looksUp (ascii "GRANT" ++ 32 :: rest) = false := by
  have hof : of (ascii "GRANT" ++ 32 :: rest) = none :=
    of_word (by decide) (by decide) rest
  rw [looksUp, hof]

end Statements

/-! ### Programs that report what fails -/

variable {statement : Except Overflow Bytes} {d : List Asked}

theorem yields_built_bind_iff {α : Type} {f : Bytes → Prog α} {a : α} :
    (built statement >>= f).Yields d a ↔ ∃ query, statement = .ok query ∧ (f query).Yields d a := by
  cases statement with
  | error e =>
    show (fail (.overflow e) >>= f).Yields d a ↔ _
    simp
  | ok query =>
    show (ret query >>= f).Yields d a ↔ _
    simp

/-- The program ends with `bad` just when something fails. -/
def Reports {α : Type} (bad : α) (p : Prog α) : Prop := ∀ d a, p.Yields d a → (a = bad ↔ ∃ e ∈ d, Asked.failed e)

section Reports

variable {α β : Type} {bad : α}

theorem reports_ret {a : α} (h : a ≠ bad) : Reports bad (ret a : Prog α) := by
  rintro _ _ ⟨rfl, rfl⟩
  exact iff_of_false h nofun

theorem reports_built_bind {f : Bytes → Prog α} (h : ∀ query, statement = .ok query → Reports bad (f query)) :
    Reports bad (built statement >>= f) := by
  intro d a hd
  obtain ⟨query, hquery, hd⟩ := yields_built_bind_iff.mp hd
  exact h query hquery d a hd

theorem exists_failed_append_iff {d₁ d₂ : List Asked} :
    (∃ e ∈ d₁ ++ d₂, Asked.failed e) ↔ (∃ e ∈ d₁, Asked.failed e) ∨ ∃ e ∈ d₂, Asked.failed e := by
  simp only [mem_append, or_and_right, exists_or]

theorem not_exists_failed_of_quiet {d : List Asked} (h : ∀ e ∈ d, e.1.Quiet) : ¬ ∃ e ∈ d, Asked.failed e := by
  rintro ⟨e, he, hfailed⟩
  rw [Asked.not_failed_of_quiet (h e he)] at hfailed
  cases hfailed

theorem not_exists_failed_singleton {e : Asked} (h : e.failed = false) : ¬ ∃ e' ∈ [e], Asked.failed e' := by
  simp [h]

theorem reports_quiet_bind {p : Prog β} {f : β → Prog α} (hp : p.Only Effect.Quiet) (h : ∀ b, Reports bad (f b)) :
    Reports bad (p >>= f) := by
  intro d a hd
  obtain ⟨d₁, b, d₂, rfl, hd₁, hd₂⟩ := yields_bind_iff.mp hd
  rw [exists_failed_append_iff, or_iff_right (not_exists_failed_of_quiet (hd₁.of_only hp))]
  exact h b d₂ a hd₂

/-- The first failure decides. -/
theorem reports_bind {p : Prog β} {f : β → Prog α} {bad' : β} (hp : Reports bad' p)
    (hbad : ∀ d a, (f bad').Yields d a → a = bad) (h : ∀ b, b ≠ bad' → Reports bad (f b)) :
    Reports bad (p >>= f) := by
  intro d a hd
  obtain ⟨d₁, b, d₂, rfl, hd₁, hd₂⟩ := yields_bind_iff.mp hd
  have hfirst := hp d₁ b hd₁
  by_cases hb : b = bad'
  · subst hb
    obtain ⟨e, he, hfailed⟩ := hfirst.mp rfl
    exact iff_of_true (hbad d₂ a hd₂) ⟨e, mem_append_left _ he, hfailed⟩
  rw [h b hb d₂ a hd₂, exists_failed_append_iff, or_iff_right fun hfailed => hb (hfirst.mpr hfailed)]

end Reports

variable {query : Bytes}

theorem mysqlNoresultQuery_yields {status : Status} (h : (mysqlNoresultQuery query).Yields d status) :
    ∃ reply d', d = ⟨.query query, reply⟩ :: d' ∧ (∀ e ∈ d', e.1.Quiet) ∧
      (status = .failure ↔ Reply.failed reply) := by
  obtain ⟨_, reply, d', rfl, ⟨_, _, rfl, rfl, rfl⟩, hd'⟩ := yields_bind_iff.mp h
  refine ⟨reply, d', rfl, ?_⟩
  cases reply with
  | queryFailed error =>
    obtain ⟨_, _, _, rfl, ⟨_, _, rfl, rfl, rfl⟩, rfl, rfl⟩ := yields_bind_iff.mp hd'
    refine ⟨?_, iff_of_true rfl rfl⟩
    intro e he
    rw [mem_singleton.mp he]
    trivial
  | noResult error | result row =>
    obtain ⟨rfl, rfl⟩ := hd'
    exact ⟨nofun, by simp [Reply.failed]⟩

/-- A statement that looks for no row. -/
theorem reports_mysqlNoresultQuery (hquery : looksUp query = false) : Reports .failure (mysqlNoresultQuery query) := by
  intro d status h
  obtain ⟨reply, d', rfl, hquiet, hstatus⟩ := mysqlNoresultQuery_yields h
  have hfirst : Asked.failed ⟨.query query, reply⟩ = Reply.failed reply := by
    cases reply with
    | queryFailed error => rfl
    | noResult error => exact hquery
    | result row =>
      cases row with
      | none => exact hquery
      | some row => rfl
  rw [hstatus, ← hfirst, exists_mem_cons_iff, or_iff_left (not_exists_failed_of_quiet hquiet)]

theorem warnNull_yields {text : Bytes} {a : PhpValue} (h : (warnNull text).Yields d a) : a = .null := by
  obtain ⟨_, _, _, _, _, _, rfl⟩ := yields_bind_iff.mp h
  rfl

/-- A step of `create_app` that returns `NULL` with a warning if it fails. -/
theorem reports_guard {step : Prog Status} {text : Bytes} {rest : Prog PhpValue} (hstep : Reports .failure step)
    (hrest : Reports .null rest) :
    Reports .null (step >>= fun status => if status = .failure then warnNull text else rest) := by
  refine reports_bind hstep ?_ ?_
  · intro d a h
    rw [if_pos rfl] at h
    exact warnNull_yields h
  · intro status hstatus
    rw [if_neg hstatus]
    exact hrest

/-- The search for a row of a table. -/
theorem reports_admindbFetchRow (table : Table) (field : FieldName) (value : Bytes) :
    Reports none (admindbFetchRow table.name.text field.text value) := by
  refine reports_built_bind fun query hquery => ?_
  have hlooksUp : looksUp query = true := by rw [looksUp, of_fetchRow table field hquery]
  intro d row h
  obtain ⟨d₁, res, _, rfl, hd₁, rfl, rfl⟩ := yields_bind_iff.mp h
  obtain ⟨_, reply, d', rfl, ⟨_, _, rfl, rfl, rfl⟩, hd'⟩ := yields_bind_iff.mp hd₁
  rw [append_nil]
  cases reply with
  | queryFailed error =>
    obtain ⟨_, _, _, _, _, _, rfl⟩ := yields_bind_iff.mp hd'
    exact iff_of_true rfl ⟨_, mem_cons_self, rfl⟩
  | noResult error =>
    obtain ⟨_, _, _, _, _, _, rfl⟩ := yields_bind_iff.mp hd'
    exact iff_of_true rfl ⟨_, mem_cons_self, hlooksUp⟩
  | result row =>
    obtain ⟨rfl, rfl⟩ := hd'
    cases row with
    | none => exact iff_of_true rfl ⟨_, mem_cons_self, hlooksUp⟩
    | some row =>
      exact iff_of_false nofun (not_exists_failed_singleton rfl)

/-- `sandbox_mysql_do_connect`. -/
theorem reports_sandboxMysqlDoConnect (username password hostname dbname : Option Bytes) :
    Reports false (sandboxMysqlDoConnect username password hostname dbname) := by
  rintro _ ok ⟨_, _, rfl, rfl, rfl⟩
  cases ok with
  | false => exact iff_of_true rfl ⟨_, mem_cons_self, rfl⟩
  | true =>
    exact iff_of_false nofun (not_exists_failed_singleton rfl)

/-- `php_connect_userdb`. -/
theorem reports_phpConnectUserdb (appid : Int32) : Reports .failure (phpConnectUserdb appid) := by
  refine reports_bind (reports_admindbFetchRow .dbconf ⟨ascii "id", by decide⟩ _) ?_ ?_
  · rintro _ _ ⟨_, rfl⟩
    rfl
  · intro row hrow
    split
    · exact absurd rfl hrow
    · refine reports_bind (reports_sandboxMysqlDoConnect _ _ _ _) ?_ ?_
      · intro d a h
        obtain ⟨_, _, _, _, _, _, rfl⟩ := yields_bind_iff.mp h
        rfl
      · intro ok hok
        rw [if_pos (by simpa using hok)]
        exact reports_ret nofun
    · rintro _ _ ⟨⟩

/-- **`create_app` from the database of the new application on** returns `NULL` just when something fails. -/
theorem reports_createUserdb (setting : Setting) (appid : Int64) : Reports .null (createUserdb setting appid) := by
  refine reports_built_bind fun dbname _ => reports_quiet_bind (only_quiet_randomStrGen _) fun dbpass => ?_
  refine reports_guard ?_ (reports_guard ?_ (reports_guard ?_ (reports_guard (reports_phpConnectUserdb _) ?_)))
  · refine reports_built_bind fun query hquery => reports_mysqlNoresultQuery ?_
    rw [looksUp, of_insertRow .dbconf (cons_ne_nil _ _) hquery]
  · refine reports_built_bind fun query hquery => reports_mysqlNoresultQuery ?_
    rw [(newSprintf_eq_ok_iff.mp hquery).2]
    exact looksUp_create (ascii "DATABASE " ++ dbname)
  · refine reports_built_bind fun query hquery => reports_mysqlNoresultQuery ?_
    rw [(newSprintf_eq_ok_iff.mp hquery).2]
    exact looksUp_grant _
  · exact reports_ret nofun

/-! ### A call -/

/-- How a call ends: before anything is changed, or after the row was inserted into `appinfo`. -/
def Outcome (h : List Asked) (a : PhpValue) : Prop :=
  (a = .null ∧ ∀ e ∈ h, Asked.Harmless e) ∨
    ∃ h₁ e h₂, h = h₁ ++ e :: h₂ ∧ (∀ e ∈ h₁, Asked.Harmless e) ∧ Asked.registers e ∧
      (a = .null ↔ ∃ e ∈ h₂, Asked.failed e)

/-- Every way to end is one of these. -/
def Ends (p : Prog PhpValue) : Prop := ∀ d a, p.Yields d a → Outcome d a

section Ends

variable {β : Type}

theorem Outcome.append {h₁ h₂ : List Asked} {a : PhpValue} (hh : ∀ e ∈ h₁, Asked.Harmless e) (h : Outcome h₂ a) :
    Outcome (h₁ ++ h₂) a := by
  rcases h with ⟨hnull, hh₂⟩ | ⟨h₃, e, h₄, rfl, hh₃, hreg, hnull⟩
  · exact .inl ⟨hnull, forall_mem_append.mpr ⟨hh, hh₂⟩⟩
  · exact .inr ⟨h₁ ++ h₃, e, h₄, (append_assoc _ _ _).symm, forall_mem_append.mpr ⟨hh, hh₃⟩, hreg, hnull⟩

theorem ends_idle_bind {p : Prog β} {f : β → Prog PhpValue} (hp : p.Only Effect.Idle) (h : ∀ b, Ends (f b)) :
    Ends (p >>= f) := by
  intro d a hd
  obtain ⟨d₁, b, d₂, rfl, hd₁, hd₂⟩ := yields_bind_iff.mp hd
  exact (h b d₂ a hd₂).append fun e he => hd₁.of_only hp e he e.2

theorem ends_built_bind {f : Bytes → Prog PhpValue} (h : ∀ query, statement = .ok query → Ends (f query)) :
    Ends (built statement >>= f) := by
  intro d a hd
  obtain ⟨query, hquery, hd⟩ := yields_built_bind_iff.mp hd
  exact h query hquery d a hd

theorem ends_warnNull (text : Bytes) : Ends (warnNull text) := by
  intro d a hd
  exact .inl ⟨warnNull_yields hd, fun e he => hd.of_only (only_warnNull Effect.Local.idle text) e he e.2⟩

theorem ends_assertPrivilege {body : Prog PhpValue} (h : Ends body) : Ends (assertPrivilege body) := by
  refine ends_idle_bind (only_phpGetAppid Effect.Local.idle) fun appid => ?_
  split_ifs
  · exact ends_warnNull _
  · exact h

/-- `create_app` after its two checks. -/
theorem ends_registerApp (setting : Setting) (p : CreateApp) : Ends (registerApp setting p) := by
  refine ends_idle_bind (only_randomStrGen Effect.Local.idle _) fun salt => ends_built_bind fun salted _ => ?_
  refine ends_idle_bind (only_randomStrGen Effect.Local.idle _) fun token => ?_
  refine ends_idle_bind (only_effect Effect.Local.idle trivial) fun now => ?_
  intro d a hd
  obtain ⟨d₁, status, d₂, rfl, hd₁, hd₂⟩ := yields_bind_iff.mp hd
  obtain ⟨query, hquery, hd₁⟩ := yields_built_bind_iff.mp hd₁
  obtain ⟨reply, d', rfl, hquiet, hstatus⟩ := mysqlNoresultQuery_yields hd₁
  have hstmt := of_insertRow .appinfo (cons_ne_nil _ _) hquery
  have hlocal : ∀ e ∈ d', Asked.Harmless e := fun e he => by
    have hq := hquiet e he
    obtain ⟨q, a⟩ := e
    cases q with
    | query statement => exact hq.elim
    | _ => exact fun _ => rfl
  by_cases hfailed : Reply.failed reply
  · -- the insertion fails: nothing is changed, and the call ends
    rw [if_pos (hstatus.mpr hfailed)] at hd₂
    have hquery : Asked.Harmless ⟨.query query, reply⟩ := fun db => by rw [replayOne, if_pos hfailed]
    exact (ends_warnNull _ d₂ a hd₂).append (forall_mem_cons.mpr ⟨hquery, hlocal⟩)
  · rw [if_neg fun h => hfailed (hstatus.mp h)] at hd₂
    refine .inr ⟨[], ⟨.query query, reply⟩, d' ++ d₂, rfl, forall_mem_nil _, ?_, ?_⟩
    · rw [Asked.registers, hstmt]
      simpa using hfailed
    · rw [exists_failed_append_iff, or_iff_right (not_exists_failed_of_quiet hquiet)]
      have hid : admindbInsertId.Only Effect.Quiet := only_ask trivial only_ret
      exact reports_quiet_bind hid (reports_createUserdb setting) d₂ a hd₂

/-- **The ways in which a call can end.** -/
theorem createApp_yields (setting : Setting) (p : Option CreateApp) : Ends (createApp setting p) := by
  refine ends_assertPrivilege ?_
  have hcount (field value : Bytes) : (admindbRowCount appinfo.text field value).Only Effect.Idle := by
    refine only_admindbRowCount Effect.Local.idle fun query hquery => ?_
    rw [(newSprintf_eq_ok_iff.mp hquery).2]
    exact Effect.idle_select _
  cases p with
  | none => exact ends_warnNull _
  | some p =>
    refine ends_idle_bind (hcount _ _) fun sameName => ?_
    split_ifs
    · exact ends_warnNull _
    · refine ends_idle_bind (hcount _ _) fun sameEmail => ?_
      split_ifs
      · exact ends_warnNull _
      · exact ends_registerApp setting p

end Ends

/-! ### Against the database -/

/-- What is left open of the answers, question by question. -/
abbrev Script := ℕ → Choice

/-- The answer to the next question. -/
def answerNext (w : AdminDb × Script) (q : Effect) : q.Answer × AdminDb × Script :=
  ((w.1.answer (w.2 0) q).1, (w.1.answer (w.2 0) q).2, fun n => w.2 (n + 1))

section Atomic

variable (setting : Setting) (p : Option CreateApp) (db : AdminDb) (script : Script)

/-- What a call returns. -/
def created : Except Stop PhpValue := (Program.run answerNext (db, script) (createApp setting p)).1

/-- The database after a call. -/
def createdDb : AdminDb := (Program.run answerNext (db, script) (createApp setting p)).2.1

/-- What a call exchanges. -/
def createdBy : List Asked := exchanges answerNext (db, script) (createApp setting p)

theorem createdDb_eq : createdDb setting p db script = replay db (createdBy setting p db script) :=
  foldl_exchanges (g := Prod.fst) (fun (w : AdminDb × Script) q => AdminDb.answer_snd (w.2 0) w.1 q) _

/-- Neither the tables nor the set of databases are changed. -/
def SameTables (db db' : AdminDb) : Prop :=
  db'.appinfo = db.appinfo ∧ db'.dbconf = db.dbconf ∧ db'.databases = db.databases

instance (db db' : AdminDb) : Decidable (SameTables db db') := inferInstanceAs (Decidable (_ ∧ _ ∧ _))

/-- **A call that returns `NULL` changes nothing**, if and only if nothing fails in it after the row was
inserted into `appinfo`. -/
theorem createApp_atomic_iff {a : PhpValue} (h : created setting p db script = .ok a) :
    (a = .null → SameTables db (createdDb setting p db script)) ↔ ¬ FailedAfter (createdBy setting p db script) := by
  rw [createdDb_eq]
  rcases createApp_yields setting p _ a (yields_exchanges h) with ⟨-, hh⟩ | ⟨h₁, e, h₂, heq, hh, hreg, hnull⟩
  · -- nothing was changed
    refine iff_of_true (fun _ => ?_) ?_
    · rw [createdBy, replay_of_harmless db hh]
      exact ⟨rfl, rfl, rfl⟩
    · rintro ⟨e, he, -⟩
      have hdrop : (createdBy setting p db script).dropWhile (fun e => !Asked.registers e) = [] := by
        rw [dropWhile_eq_nil_iff]
        intro e he
        rw [(hh e he).not_registers]
        rfl
      rw [hdrop] at he
      cases he
  · -- the row was inserted, and is there in the end
    have hdrop : (createdBy setting p db script).dropWhile (fun e => !Asked.registers e) = e :: h₂ := by
      rw [createdBy, heq, dropWhile_append_of_pos, dropWhile_cons_of_neg]
      · simp [hreg]
      · intro e he
        rw [(hh e he).not_registers]
        rfl
    have hlonger : ¬ SameTables db (replay db (createdBy setting p db script)) := by
      rintro ⟨hsame, -⟩
      have hlen := length_appinfo_replay db (createdBy setting p db script)
      rw [hsame, createdBy, heq, countP_append, countP_cons_of_pos hreg] at hlen
      omega
    rw [FailedAfter, hdrop, tail_cons, ← hnull]
    exact ⟨fun hatomic ha => hlonger (hatomic ha), fun hne ha => absurd ha hne⟩

end Atomic

/-- The question with this number fails. -/
def failsAt (n : ℕ) : Script := fun k => if k = n then ⟨some (ascii "error"), Effect.emptyAnswer⟩ else plainChoice

/-- A database without applications. -/
def noApps : AdminDb := ⟨[], [], [], 1, 0⟩

/-- The insertion into `appinfo` fails: nothing is changed. -/
theorem createApp_atomic_appinfo :
    created plainSetting (some (register "a" "e")) noApps (failsAt 6) = .ok .null ∧
      SameTables noApps (createdDb plainSetting (some (register "a" "e")) noApps (failsAt 6)) := by
  have hnull : created plainSetting (some (register "a" "e")) noApps (failsAt 6) = .ok .null := by decide +kernel
  refine ⟨hnull, (createApp_atomic_iff plainSetting _ noApps (failsAt 6) hnull).mpr ?_ rfl⟩
  decide +kernel

/-- The insertion into `dbconf` fails: the call returns `NULL`, and the name is taken. -/
theorem createApp_leaves_row :
    created plainSetting (some (register "a" "e")) noApps (failsAt 9) = .ok .null ∧
      ¬ SameTables noApps (createdDb plainSetting (some (register "a" "e")) noApps (failsAt 9)) ∧
      created plainSetting (some (register "a" "f"))
        (createdDb plainSetting (some (register "a" "e")) noApps (failsAt 9)) (fun _ => plainChoice) = .ok .null := by
  decide +kernel

end PhpSandbox.Ext
