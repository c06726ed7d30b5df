import PhpSandbox.Ext.AdminServer

/-!
# Activation

`app_activate` and `app_deactivate` (`ext/blog/blog.c`) set the field `isactive` of an
application, and `app_isactive` (`ext/sandbox/sandbox.c`) reads it. The two setters
return `RETURN_BOOL` of what `admindb_update_row` returns, which is `SUCCESS` (0) or
`FAILURE` (-1).

## The model

A call is a run of the program of `Ext.Functions` against the admin database
(`AdminDb.answer`); each call comes with its own choice of what fails. The database
is read by `app_isactive` at the end, without failure.

## What is proved

`Toggle.call_eq`: a call returns true just when its update fails. `told_iff`: after
every part of a sequence of calls `app_isactive` is what the last call that returned
true says, if and only if every call asks for the state that its application is in
already.
-/

namespace PhpSandbox.Ext

open Lib Lib.Sql Sandbox Program TableRow AdminDb List

/-! ### Rows -/

theorem TableRow.lookup_set_self (row : TableRow) (column value : Bytes) :
    (set row column value).lookup column = some value := by
  rw [set, lookup_cons_self]

theorem TableRow.lookup_set_of_ne {column field : Bytes} (hne : field ≠ column) (row : TableRow) (value : Bytes) :
    (set row column value).lookup field = row.lookup field := by
  have hfilter (row : TableRow) : (row.filter fun f => f.1 ≠ column).lookup field = row.lookup field := by
    induction row with
    | nil => rfl
    | cons f row ih =>
      obtain ⟨name, v⟩ := f
      by_cases hname : name = column
      · subst hname
        rw [filter_cons_of_neg (by simp), ih, lookup_cons, beq_false_of_ne hne]
      · rw [filter_cons_of_pos (by simpa using hname), lookup_cons, lookup_cons, ih]
  rw [set, lookup_cons, beq_false_of_ne hne]
  exact hfilter row

/-- The first row with a value in a field. -/
def findRow (rows : List TableRow) (field value : Bytes) : Option TableRow :=
  rows.find? fun row => has row field value

/-- An update of another column does not change which row is found. -/
theorem findRow_updateRows {rows : List TableRow} {column value field key field' key' : Bytes} (hne : field' ≠ column) :
    findRow (updateRows rows column value field key) field' key' =
      (findRow rows field' key').map fun row =>
        if has row field key then set row column value else row := by
  rw [findRow, updateRows, find?_map, findRow]
  congr 2
  funext row
  show has (if _ then _ else row) field' key' = has row field' key'
  split_ifs
  · rw [has, lookup_set_of_ne hne, has]
  · rfl

/-! ### The state of an application -/

/-- The field `isactive`. -/
def isactiveField : FieldName := ⟨ascii "isactive", noBacktick_isactive⟩

variable (db : AdminDb)

/-- The row of an application. -/
def AdminDb.appRow (appid : Int32) : Option TableRow :=
  findRow db.appinfo (ascii "id") (ltostr appid.toInt)

/-- The application is there. -/
def AdminDb.HasApp (appid : Int32) : Prop := (db.appRow appid).isSome

instance (db : AdminDb) (appid : Int32) : Decidable (db.HasApp appid) := inferInstanceAs (Decidable (_ = true))

/-- The text of the field begins with `1`. -/
def AdminDb.active (appid : Int32) : Bool :=
  ((db.appRow appid).bind fun row => row.lookup (ascii "isactive")).any fun value => value.head? = some 49

/-- The database with another text in the field. -/
def AdminDb.setActive (appid : Int32) (value : Bytes) : AdminDb :=
  { db with appinfo := updateRows db.appinfo (ascii "isactive") value (ascii "id") (ltostr appid.toInt) }

section State

variable (db : AdminDb) (appid j : Int32) (value : Bytes)

theorem AdminDb.appRow_setActive : (db.setActive appid value).appRow j =
    (db.appRow j).map fun row => if j = appid then set row (ascii "isactive") value else row := by
  rw [appRow, setActive, findRow_updateRows (by decide)]
  refine Option.map_congr fun row hrow => ?_
  have hid : row.lookup (ascii "id") = some (ltostr j.toInt) := by simpa [has] using find?_some hrow
  have hiff : has row (ascii "id") (ltostr appid.toInt) ↔ j = appid := by
    rw [has, hid, decide_eq_true_iff, Option.some_inj, ltostr_injective.eq_iff, Int32.toInt_inj]
  rw [if_congr hiff rfl rfl]

theorem AdminDb.hasApp_setActive : (db.setActive appid value).HasApp j ↔ db.HasApp j := by
  rw [HasApp, HasApp, appRow_setActive, Option.isSome_map]

/-- Only the state of this application is set. -/
theorem AdminDb.active_setActive (h : db.HasApp appid) :
    (db.setActive appid value).active j = if j = appid then decide (value.head? = some 49) else db.active j := by
  rw [active, appRow_setActive, active]
  split_ifs with hj
  · subst hj
    obtain ⟨row, hrow⟩ := Option.isSome_iff_exists.mp h
    simp [hrow, lookup_set_self]
  · simp

end State

/-! ### The calls -/

variable (c : Choice)

/-- The run of a program against the admin database. -/
def serve {α : Type} (c : Choice) (db : AdminDb) (p : Prog α) : Except Stop α × AdminDb :=
  run (answer c) db p

/-- The application of the caller. -/
def Choice.appid : Int32 := c.other .getAppid

/-- The caller may use the function. -/
def Choice.Privileged : Prop := c.appid = 0

instance (c : Choice) : Decidable c.Privileged := inferInstanceAs (Decidable (c.appid = 0))

section Serve

variable {c : Choice} {db : AdminDb}

theorem built_ok (query : Bytes) : built (.ok query) = ret query := rfl

theorem serve_bind_of_ok {α β : Type} {p : Prog α} {f : α → Prog β} {a : α} {db' : AdminDb}
    (h : serve c db p = (.ok a, db')) : serve c db (p >>= f) = serve c db' (f a) := run_bind_of_ok h

theorem serve_assertPrivilege (body : Prog PhpValue) :
    serve c db (assertPrivilege body) = if c.Privileged then serve c db body else (.ok .null, db) := by
  have hask : serve c db phpGetAppid = (.ok c.appid, db) := rfl
  rw [assertPrivilege, serve_bind_of_ok hask]
  by_cases hc : c.appid = 0
  · rw [if_neg (not_not.mpr hc), if_pos (show c.Privileged from hc)]
  · rw [if_pos hc, if_neg (show ¬ c.Privileged from hc)]
    exact serve_bind_of_ok (a := ()) rfl

/-- A statement without a result. -/
theorem serve_mysqlNoresultQuery (query : Bytes) :
    serve c db (mysqlNoresultQuery query) =
      (.ok (if Reply.failed (db.answer c (.query query)).1 then .failure else .success),
        (db.answer c (.query query)).2) := by
  have hask : serve c db (mysqlRealQuery query) =
      (.ok (db.answer c (.query query)).1, (db.answer c (.query query)).2) := rfl
  rw [mysqlNoresultQuery, serve_bind_of_ok hask]
  cases (answer c db (.query query)).1 with
  | queryFailed error => exact serve_bind_of_ok (a := ()) rfl
  | noResult error | result row => rfl

/-- A statement with a result. -/
theorem serve_doMysqlQuery {query : Bytes} {row : Option Row} {db' : AdminDb}
    (h : db.answer c (.query query) = (Reply.result row, db')) :
    serve c db (doMysqlQuery query) = (.ok (some row), db') := by
  have hask : serve c db (mysqlRealQuery query) = (.ok (Reply.result row), db') :=
    congrArg (fun r => (Except.ok r.1, r.2)) h
  rw [doMysqlQuery, serve_bind_of_ok hask]
  rfl

end Serve

/-- `app_isactive`, asked without failure. -/
def isactive (appid : Int64) : Except Stop PhpValue :=
  (serve plainChoice db (appIsactive (some appid))).1

/-- `app_isactive` tells the state. -/
theorem isactive_eq (appid : Int64) : isactive db appid = .ok (.bool (db.active appid.toInt32)) := by
  have hfits : ∃ query, fetchFieldStatement appinfo.text (ascii "isactive") (ascii "id")
      (ltostr appid.toInt32.toInt) = .ok query := by
    refine ⟨_, newSprintf_eq_ok_iff.mpr ⟨?_, rfl⟩⟩
    have hid := length_ltostr_int32 appid.toInt32
    generalize ltostr appid.toInt32.toInt = id at hid
    have hwords : (ascii "SELECT ").length + (ascii "isactive").length + (ascii " FROM ").length +
      appinfo.text.length + (ascii " WHERE \x60").length + (ascii "id").length + (ascii "\x60='").length +
      (ascii "'").length = 42 := by decide
    simp only [Fits, length_append, queryMaxlen]
    omega
  obtain ⟨query, hquery⟩ := hfits
  have hstmt := AdminStmt.of_fetchField .appinfo ⟨ascii "isactive", by decide, by decide⟩ ⟨ascii "id", by decide⟩
    (plain_ltostr _) hquery
  have hanswer : db.answer plainChoice (.query query) =
      (Reply.result ((db.appRow appid.toInt32).map fun row => [row.lookup (ascii "isactive")]), db) := by
    simp only [answer, hstmt]
    rfl
  have hfetch : serve plainChoice db (admindbFetchField appinfo.text (ascii "isactive") (ascii "id")
      (ltostr appid.toInt32.toInt)) =
      (.ok ((db.appRow appid.toInt32).bind fun row => row.lookup (ascii "isactive")), db) := by
    rw [admindbFetchField, hquery, built_ok, ret_bind, serve_bind_of_ok (serve_doMysqlQuery hanswer)]
    cases db.appRow appid.toInt32 with
    | none | some row => rfl
  have hstate : serve plainChoice db (phpAppIsactive appid.toInt32) = (.ok (db.active appid.toInt32), db) := by
    rw [phpAppIsactive, serve_bind_of_ok hfetch, active]
    cases (db.appRow appid.toInt32).bind fun row => row.lookup (ascii "isactive") with
    | none | some value => rfl
  have hprogram : serve plainChoice db (appIsactive (some appid)) =
      serve plainChoice db (phpAppIsactive appid.toInt32 >>= fun active => return .bool active) :=
    serve_assertPrivilege _
  rw [isactive, hprogram, serve_bind_of_ok hstate]
  rfl

/-- A call of `app_activate` or of `app_deactivate`, with what is left open of its answers. -/
structure Toggle where
  /-- Which of the two it is. -/
  activate : Bool
  /-- The parameter. -/
  appid : Int64
  /-- What fails. -/
  choice : Choice

namespace Toggle

/-- The function. -/
def program (t : Toggle) : Prog PhpValue :=
  if t.activate then appActivate (some t.appid) else appDeactivate (some t.appid)

variable (db : AdminDb) (t : Toggle)

/-- What the call returns, and the database after it. -/
def call : Except Stop PhpValue × AdminDb := serve t.choice db t.program

/-- The text that the call sets. -/
def text : Bytes := ascii (if t.activate then "1" else "0")

theorem head_text : decide (t.text.head? = some 49) = t.activate := by
  unfold text
  cases t.activate <;> rfl

/-- The statement fits its buffer. -/
theorem statement_fits :
    ∃ query, Sandbox.admindbUpdateRow appinfo t.appid.toInt32 isactiveField t.text = .ok query := by
  refine ⟨_, newSprintf_eq_ok_iff.mpr ⟨?_, rfl⟩⟩
  have hid := length_ltostr_int32 t.appid.toInt32
  have htext : (phpAddslashes t.text).length = 1 := by
    unfold text
    cases t.activate <;> rfl
  generalize ltostr t.appid.toInt32.toInt = id at hid
  simp only [Fits, length_append, htext, queryMaxlen]
  have hwords : (ascii "UPDATE ").length + appinfo.text.length + (ascii " SET \x60").length +
    isactiveField.text.length + (ascii "\x60='").length + (ascii "' WHERE \x60id\x60='").length +
    (ascii "'").length = 46 := by decide
  omega

/-- **One call**: it returns `RETURN_BOOL` of a status, so true if the update fails and false if it is
made. -/
theorem call_eq :
    t.call db =
      if t.choice.Privileged then
        if t.choice.fails.isSome then (.ok (.bool true), db)
        else (.ok (.bool false), db.setActive t.appid.toInt32 t.text)
      else (.ok .null, db) := by
  obtain ⟨query, hquery⟩ := t.statement_fits
  have hstmt := AdminStmt.of_updateRow .appinfo t.appid.toInt32 isactiveField t.text hquery
  have hprogram : t.program = assertPrivilege (mysqlNoresultQuery query >>= fun status =>
      return returnBool status.toInt) := by
    have hset : t.program = assertPrivilege
        (built (Sandbox.admindbUpdateRow appinfo t.appid.toInt32 isactiveField t.text) >>= mysqlNoresultQuery >>=
          fun status => return returnBool status.toInt) := by
      unfold program text
      cases t.activate <;> rfl
    rw [hset, hquery, built_ok, ret_bind]
  rw [call, hprogram, serve_assertPrivilege, serve_bind_of_ok (serve_mysqlNoresultQuery query)]
  cases hfails : t.choice.fails with
  | some error =>
    have hanswer : db.answer t.choice (.query query) = (Reply.queryFailed error, db) := by
      simp only [answer, hfails]
      rfl
    rw [hanswer]
    rfl
  | none =>
    have hanswer : db.answer t.choice (.query query) = (Reply.noResult [], db.setActive t.appid.toInt32 t.text) := by
      simp only [answer, hfails, hstmt]
      rfl
    rw [hanswer]
    rfl

/-- The database after a call. -/
def step : AdminDb := (t.call db).2

/-- The calls on an application that return true, in their order. -/
def toldBy (appid : Int64) : AdminDb → List Toggle → List Toggle
  | _, [] => []
  | db, t :: ts =>
    (if t.appid = appid ∧ (t.call db).1 = .ok (.bool true) then [t] else []) ++ toldBy appid (t.step db) ts

/-- What the callers are told: `app_isactive` is what the last call says that returned true, and if there
is none what it was at first. -/
def Told (ts : List Toggle) : Prop :=
  ∀ appid : Int64, db.HasApp appid.toInt32 →
    isactive (Lib.run step db ts) appid =
      match (toldBy appid db ts).getLast? with
      | some t => .ok (.bool t.activate)
      | none => isactive db appid

/-- The call asks for the state that its application is in. -/
def Redundant : Prop :=
  t.choice.Privileged → db.active t.appid.toInt32 = t.activate

section Runs

variable {db : AdminDb} {ts : List Toggle} {t : Toggle}

theorem toldBy_append (appid : Int64) (us : List Toggle) :
    toldBy appid db (ts ++ us) = toldBy appid db ts ++ toldBy appid (Lib.run step db ts) us := by
  induction ts generalizing db with
  | nil => rfl
  | cons t ts ih => rw [cons_append, toldBy, ih, toldBy, append_assoc, run_cons]

theorem hasApp_step (j : Int32) : (t.step db).HasApp j ↔ db.HasApp j := by
  rw [step, call_eq]
  split_ifs
  · rfl
  · exact db.hasApp_setActive _ j _
  · rfl

/-- No call adds or removes an application. -/
theorem hasApp_run (j : Int32) : (Lib.run step db ts).HasApp j ↔ db.HasApp j := by
  induction ts generalizing db with
  | nil => rfl
  | cons t ts ih => rw [run_cons, ih, hasApp_step]

/-- One more call, by what it does and what it returns. -/
theorem told_append_iff (h : Told db ts) :
    Told db (ts ++ [t]) ↔ ∀ appid : Int64, db.HasApp appid.toInt32 →
      (t.step (Lib.run step db ts)).active appid.toInt32 =
        if t.appid = appid ∧ (t.call (Lib.run step db ts)).1 = .ok (.bool true) then t.activate
        else (Lib.run step db ts).active appid.toInt32 := by
  refine forall_congr' fun appid => forall_congr' fun happ => ?_
  have hbefore := h appid happ
  rw [run_append, run_cons, run_nil, toldBy_append, isactive_eq]
  rw [isactive_eq] at hbefore
  simp only [toldBy, append_nil]
  split_ifs with htold
  · rw [getLast?_append_cons]
    simp
  · rw [append_nil, ← hbefore]
    simp

/-- **One step**: after one more call callers are told the state just when the call was redundant. -/
theorem told_append_iff_redundant (h : Told db ts) (hknown : db.HasApp t.appid.toInt32) :
    Told db (ts ++ [t]) ↔ Redundant (Lib.run step db ts) t := by
  rw [told_append_iff h]
  have hknown' : (Lib.run step db ts).HasApp t.appid.toInt32 := (hasApp_run _).mpr hknown
  generalize Lib.run step db ts = db' at hknown'
  rw [step, call_eq, Redundant]
  by_cases hpriv : t.choice.Privileged
  · rw [if_pos hpriv]
    by_cases hfails : t.choice.fails.isSome
    · -- the update is not made, and the caller is told that it is
      rw [if_pos hfails]
      constructor
      · intro htold _
        have := htold t.appid hknown
        rwa [if_pos ⟨rfl, rfl⟩] at this
      · intro hstate appid _
        split_ifs with htold
        · rw [← htold.1]
          exact hstate hpriv
        · rfl
    · -- the update is made, and the caller is told that it is not
      rw [if_neg hfails]
      have hfalse : ¬ (Except.ok (PhpValue.bool false) : Except Stop PhpValue) = .ok (.bool true) := by decide
      constructor
      · intro htold _
        have := htold t.appid hknown
        rw [if_neg fun hand => hfalse hand.2, active_setActive _ _ _ _ hknown', if_pos rfl, head_text] at this
        exact this.symm
      · intro hstate appid _
        rw [if_neg fun hand => hfalse hand.2, active_setActive _ _ _ _ hknown', head_text]
        split_ifs with heq
        · rw [heq]
          exact (hstate hpriv).symm
        · rfl
  · -- nothing is done, and nothing is told
    rw [if_neg hpriv]
    refine iff_of_true (fun appid _ => ?_) fun hpriv' => absurd hpriv' hpriv
    exact (if_neg fun hand => PhpValue.noConfusion (Except.ok.inj hand.2)).symm

/-- **What callers are told is the state** after every part of a sequence of calls on applications that are
there, if and only if every call of it asks for the state that its application is in already. -/
theorem told_iff (db : AdminDb) (ts : List Toggle) (hknown : ∀ t ∈ ts, db.HasApp t.appid.toInt32) :
    (∀ us, us <+: ts → Told db us) ↔ Along step Redundant db ts := by
  induction ts using reverseRecOn with
  | nil =>
    refine iff_of_true ?_ trivial
    intro us hus
    rw [prefix_nil.mp hus]
    exact fun _ _ => rfl
  | append_singleton ts t ih =>
    have ih := ih fun u hu => hknown u (mem_append_left _ hu)
    rw [along_append, ← ih]
    constructor
    · intro h
      have hts : ∀ us, us <+: ts → Told db us := fun us hus => h us (hus.trans (prefix_append ts [t]))
      refine ⟨hts, ?_, trivial⟩
      exact (told_append_iff_redundant (hts ts (prefix_refl ts)) (hknown t (by simp))).mp
        (h _ (prefix_refl _))
    · rintro ⟨hts, hred, -⟩ us hus
      rcases prefix_concat_iff.mp hus with rfl | hus
      · exact (told_append_iff_redundant (hts ts (prefix_refl ts)) (hknown t (by simp))).mpr hred
      · exact hts us hus

end Runs

/-- An application that is not active. -/
def oneApp : AdminDb := ⟨[[(ascii "id", ascii "1"), (ascii "isactive", ascii "0")]], [], [], 2, 0⟩

/-- An application that is not active, and one that is. -/
def twoApps : AdminDb :=
  ⟨[[(ascii "id", ascii "1"), (ascii "isactive", ascii "0")], [(ascii "id", ascii "2"), (ascii "isactive", ascii "1")]],
    [], [], 3, 0⟩

/-- The first is deactivated, the update to activate the second fails, and the first is deactivated again. -/
def toggles : List Toggle :=
  [⟨false, 1, plainChoice⟩, ⟨true, 2, ⟨some (ascii "Lock wait timeout exceeded"), Effect.emptyAnswer⟩⟩,
    ⟨false, 1, plainChoice⟩]

/-- These calls ask for what is there, and callers are told the state, also by the call whose update fails. -/
theorem told_toggles :
    (toldBy 2 twoApps toggles).length = 1 ∧ isactive (Lib.run step twoApps toggles) 2 = .ok (.bool true) ∧
      ∀ us, us <+: toggles → Told twoApps us :=
  ⟨by decide +kernel, by decide +kernel, (told_iff twoApps toggles (by decide +kernel)).mpr
    ⟨fun _ => by decide +kernel, fun _ => by decide +kernel, fun _ => by decide +kernel, trivial⟩⟩

/-- An activation that is made: `app_isactive` is true, and no call returned true. -/
theorem activate_told_false :
    oneApp.HasApp 1 ∧ (call oneApp ⟨true, 1, plainChoice⟩).1 = .ok (.bool false) ∧
      isactive oneApp 1 = .ok (.bool false) ∧
      isactive (Lib.run step oneApp [⟨true, 1, plainChoice⟩]) 1 = .ok (.bool true) ∧
      ¬ Told oneApp [⟨true, 1, plainChoice⟩] := by
  have hrun : isactive (Lib.run step oneApp [⟨true, 1, plainChoice⟩]) 1 = .ok (.bool true) := by decide +kernel
  refine ⟨by decide +kernel, by decide +kernel, by decide +kernel, hrun, ?_⟩
  intro h
  have htold := h 1 (by decide +kernel)
  have hnone : toldBy 1 oneApp [⟨true, 1, plainChoice⟩] = [] := by
    rw [toldBy, if_neg (by decide +kernel)]
    rfl
  rw [hrun, hnone] at htold
  exact absurd htold (by decide +kernel)

end Toggle

end PhpSandbox.Ext
