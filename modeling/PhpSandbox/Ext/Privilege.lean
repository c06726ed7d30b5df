import PhpSandbox.Ext.Kinds

/-!
# Privilege is not regained

`SANDBOX_G(appid)` is 0 while a request may use the privileged functions.
`set_appid` takes the privilege away, and no function gives it back; the privileged
functions, and no others, use the admin database.

## The model

A request makes calls one after the other. `Session` is what a call sees: the number
of the application, the rest of the world, which answers as it likes, and the
statements and changes of the number so far. A call that ends the request
(`Stop`) is the last one.

## What is proved

`Invocation.record_ok` says what one call does, and `appid_never_regained` what any
sequence of calls does: once the number is not 0 it stays so, and a call that is made
then has no statement. The one statement that is issued while the number is not 0 is
the look-up in `dbconf` of the call of `set_appid` that has just set it.
-/

namespace PhpSandbox.Ext

open Lib Sandbox Program

/-! ### Which functions change the number -/

/-- An effect that does not change the number of the application. -/
def Effect.KeepsAppid : Effect → Prop
  | setAppid _ => False
  | _ => True

theorem Effect.Local.keepsAppid {q : Effect} (h : q.Local) : q.KeepsAppid := by
  cases q <;> trivial

theorem keepsAppid_of_local (q : Effect) (h : q.Local) : q.KeepsAppid := h.keepsAppid

theorem keepsAppid_registerApp (setting : Setting) (p : CreateApp) :
    (registerApp setting p).Only Effect.KeepsAppid := by
  have hlocal := keepsAppid_of_local
  refine (only_randomStrGen hlocal _).bind fun salt => (only_built _).bind fun salted => ?_
  refine (only_randomStrGen hlocal _).bind fun token => Only.bind (only_effect hlocal trivial) fun now => ?_
  refine (only_admindbInsertRow hlocal fun _ _ => trivial).bind fun saved => ?_
  split_ifs
  · exact only_warnNull hlocal _
  · exact Only.bind (only_effect hlocal trivial) fun appid => only_createUserdb hlocal setting appid
      (fun _ _ _ => trivial) (fun _ => trivial) (fun _ => trivial) fun _ _ _ => trivial

/-- A function is unprivileged, or begins with `ASSERT_PRIVILEGE` and does not change the number of the
application, or it is `set_appid`. -/
theorem Invocation.program_cases (setting : Setting) (c : Invocation) :
    (c.program setting).Only Effect.Local ∨
      (∃ body : Prog PhpValue, c.program setting = assertPrivilege body ∧ body.Only Effect.KeepsAppid) ∨
      ∃ n, c = .setAppid (some n) := by
  have hlocal (q : Effect) (h : q.Local) : q.Local := h
  have hkeeps := keepsAppid_of_local
  cases c with
  | getAppid => exact .inl ((only_phpGetAppid hlocal).then_ret)
  | getAppname => exact .inl (only_ret _)
  | connectUserdb appid =>
    exact .inr (.inl ⟨_, rfl, only_getAppidParam hkeeps fun n =>
      (only_phpConnectUserdb hkeeps fun _ _ => trivial).then_ret⟩)
  | appIsactive appid =>
    refine .inr (.inl ⟨_, rfl, only_getAppidParam hkeeps fun n => Only.bind ?_ fun _ => only_ret _⟩)
    refine (only_admindbFetchField hkeeps fun _ _ => trivial).bind fun res => ?_
    cases res with
    | none | some res => exact only_ret _
  | setAppid appid =>
    cases appid with
    | none => exact .inr (.inl ⟨_, rfl, only_warnNull hkeeps _⟩)
    | some n => exact .inr (.inr ⟨n, rfl⟩)
  | appRootUrl =>
    refine .inl ((only_phpAppRootUrl hlocal setting).bind fun url => ?_)
    cases url with
    | none | some url => exact only_ret _
  | appRootPath =>
    refine .inl ?_
    show (Ext.appRootPath setting).Only Effect.Local
    unfold Ext.appRootPath
    split
    · exact only_ret _
    · exact (only_built _).then_ret
  | getAppinfo appid =>
    refine .inr (.inl ⟨_, rfl, only_getAppidParam hkeeps fun n => ?_⟩)
    refine (only_admindbFetchRow hkeeps fun _ _ => trivial).bind fun row => ?_
    cases row with
    | none => exact only_warnNull hkeeps _
    | some row =>
      dsimp only
      split
      · exact only_fail _
      · exact only_ret _
  | createApp p =>
    refine .inr (.inl ⟨_, rfl, ?_⟩)
    cases p with
    | none => exact only_warnNull hkeeps _
    | some p =>
      refine (only_admindbRowCount hkeeps fun _ _ => trivial).bind fun sameName => ?_
      split_ifs
      · exact only_warnNull hkeeps _
      refine (only_admindbRowCount hkeeps fun _ _ => trivial).bind fun sameEmail => ?_
      split_ifs
      · exact only_warnNull hkeeps _
      · exact keepsAppid_registerApp setting p
  | appActivate appid | appDeactivate appid =>
    exact .inr (.inl ⟨_, rfl, only_getAppidParam hkeeps fun n =>
      (only_admindbUpdateRow hkeeps fun _ _ => trivial).then_ret⟩)
  | appCount p =>
    refine .inr (.inl ⟨_, rfl, ?_⟩)
    split
    · exact only_warnNull hkeeps _
    · exact (only_admindbRowCount hkeeps fun _ _ => trivial).then_ret
    · exact (only_admindbNumRows hkeeps trivial).then_ret
  | getAppidByField p =>
    refine .inr (.inl ⟨_, rfl, ?_⟩)
    split
    · exact only_warnNull hkeeps _
    · refine (only_admindbFetchField hkeeps fun _ _ => trivial).bind fun appid => ?_
      cases appid with
      | none | some appid => exact only_ret _
  | checkEmailCount email =>
    refine .inr (.inl ⟨_, rfl, ?_⟩)
    cases email with
    | none => exact (only_raise hkeeps _ _).then_ret
    | some email => exact (only_admindbRowCount hkeeps fun _ _ => trivial).then_ret
  | randomString length =>
    refine .inl ?_
    cases length with
    | none => exact only_warnNull hlocal _
    | some length =>
      show (Ext.randomString (some length)).Only Effect.Local
      unfold Ext.randomString
      dsimp only
      split_ifs
      · exact only_ret _
      · exact (only_randomStrGen hlocal _).then_ret
  | installBlogFilesystem appname =>
    refine .inr (.inl ⟨_, rfl, ?_⟩)
    cases appname with
    | none => exact only_wrongParameters hkeeps _ _
    | some appname => exact only_requestBool hkeeps setting _ _ _
  | installPlugin p | removePlugin p | installTheme p | removeTheme p | sendmail p =>
    exact .inl (only_requestLater hlocal setting _ _)
  | set3rdpartyDomain p | installSslKey p => exact .inl (only_requestNow hlocal setting _ _)
  | httpGet url =>
    refine .inl ?_
    cases url with
    | none => exact only_wrongParameters hlocal _ _
    | some url => exact only_assertAllowUrlOr hlocal setting (only_requestCall hlocal setting _)
  | httpPost p =>
    refine .inl ?_
    cases p with
    | none => exact only_wrongParameters hlocal _ _
    | some p =>
      exact only_assertAllowUrlOr hlocal setting
        ((only_postParamsWarnings hlocal _).bind fun _ => only_requestCall hlocal setting _)
  | parseResponse response =>
    refine .inl ?_
    cases response with
    | none => exact only_wrongParameters hlocal _ _
    | some response => exact (only_parseIntoReturnValue hlocal _).then_ret

/-! ### The calls of a request -/

/-- What a call does to the number of the application or on the admin database connection. -/
inductive Event where
  /-- The number is set. -/
  | set (old new : Int32)
  /-- A statement is issued while the number is `appid`. -/
  | statement (appid : Int32) (text : Bytes)
  deriving DecidableEq

/-- What a call sees. -/
structure Session (ω : Type*) where
  /-- `SANDBOX_G(appid)`. -/
  appid : Int32
  /-- The rest of the world. -/
  outside : ω
  /-- What the call has done so far. -/
  events : List Event

open PhpSandbox.Ext.Session

/-- A call that was made. -/
structure Record where
  /-- The function and its parameters. -/
  call : Invocation
  /-- The number of the application when it was made. -/
  appid : Int32
  /-- What it did. -/
  events : List Event

/-- A request. -/
structure Request (ω : Type*) where
  /-- `SANDBOX_G(appid)`. -/
  appid : Int32
  /-- The rest of the world. -/
  outside : ω
  /-- The request has ended. -/
  stopped : Bool
  /-- The calls that were made. -/
  calls : List Record

open Request

section Calls

variable {ω : Type*} (world : ω → (q : Effect) → q.Answer × ω) (setting : Setting)

/-- What is answered to a call. -/
def Session.answer (s : Session ω) : (q : Effect) → q.Answer × Session ω
  | .getAppid => (s.appid, s)
  | .setAppid appid => ((), { s with appid, events := s.events ++ [.set s.appid appid] })
  | .query statement =>
    let r := world s.outside (.query statement)
    (r.1, { s with outside := r.2, events := s.events ++ [.statement s.appid statement] })
  | q =>
    let r := world s.outside q
    (r.1, { s with outside := r.2 })

/-- The request at its first call. -/
def Request.start (appid : Int32) (outside : ω) : Request ω := ⟨appid, outside, false, []⟩

/-- A call. -/
def Request.step (s : Request ω) (c : Invocation) : Request ω :=
  if s.stopped then s
  else
    let r := Program.run (answer world) ⟨s.appid, s.outside, []⟩ (c.program setting)
    ⟨r.2.appid, r.2.outside, !r.1.isOk, s.calls ++ [⟨c, s.appid, r.2.events⟩]⟩

/-- The statement with which `set_appid` ends. -/
def IsDbconfLookup (appid : Int32) (text : Bytes) : Prop :=
  fetchRowStatement dbconf.text (ascii "id") (ltostr appid.toInt) = .ok text

/-- What a call may do: nothing without privilege, and with it not set the number twice, nor issue a
statement after that, but for the look-up of `set_appid` in `dbconf`. -/
def Record.Ok (r : Record) : Prop :=
  (r.appid ≠ 0 → r.events = []) ∧ (∀ old new, .set old new ∈ r.events → old = 0) ∧
    ∀ appid text, .statement appid text ∈ r.events → appid ≠ 0 →
      ∃ n, r.call = .setAppid (some n) ∧ appid = n.toInt32 ∧ IsDbconfLookup appid text

variable {s : Session ω}

/-- An effect that is local leaves no trace. -/
theorem Session.answer_local (s : Session ω) {q : Effect} (hq : q.Local) :
    (s.answer world q).2.appid = s.appid ∧ (s.answer world q).2.events = s.events := by
  cases q <;> first | exact ⟨rfl, rfl⟩ | cases hq

theorem run_local {α : Type} {p : Prog α} (hp : p.Only Effect.Local) :
    (run (answer world) s p).2.appid = s.appid ∧
      (run (answer world) s p).2.events = s.events := by
  refine run_of_only (I := fun t : Session ω => t.appid = s.appid ∧ t.events = s.events) ?_ hp ⟨rfl, rfl⟩
  rintro t q ⟨happid, hevents⟩ hq
  obtain ⟨h₁, h₂⟩ := t.answer_local world hq
  exact ⟨h₁.trans happid, h₂.trans hevents⟩

/-- Without privilege, `ASSERT_PRIVILEGE` warns; with it the body runs. -/
theorem run_assertPrivilege (body : Prog PhpValue) :
    run (answer world) s (assertPrivilege body) =
      run (answer world) s (if s.appid ≠ 0 then warnNull (ascii "You know it, bad boy!") else body) :=
  run_bind_of_ok (b := s.appid) rfl

/-- A call without privilege does nothing that counts. -/
theorem Invocation.run_of_ne (h : s.appid ≠ 0) (c : Invocation) :
    (run (answer world) s (c.program setting)).2.appid = s.appid ∧
      (run (answer world) s (c.program setting)).2.events = s.events := by
  have hwarn : (warnNull (ascii "You know it, bad boy!")).Only Effect.Local := only_warnNull (fun _ h => h) _
  rcases c.program_cases setting with hlocal | ⟨body, hbody, -⟩ | ⟨n, rfl⟩
  · exact run_local world hlocal
  · rw [hbody, run_assertPrivilege, if_pos h]
    exact run_local world hwarn
  · unfold Invocation.program Ext.setAppid
    rw [run_assertPrivilege, if_pos h]
    exact run_local world hwarn

/-- `set_appid` with privilege: the number is set first, and the look-up comes after that. -/
theorem run_setAppid (h : s.appid = 0) (hevents : s.events = []) (n : Int64) :
    (run (answer world) s (Ext.setAppid setting (some n))).2.appid = n.toInt32 ∧
      ∀ e ∈ (run (answer world) s (Ext.setAppid setting (some n))).2.events,
        e = .set 0 n.toInt32 ∨ ∃ text, e = .statement n.toInt32 text ∧ IsDbconfLookup n.toInt32 text := by
  let kind (q : Effect) : Prop := q.Local ∨ ∃ text, q = .query text ∧ IsDbconfLookup n.toInt32 text
  have hlocal (q : Effect) (hq : q.Local) : kind q := .inl hq
  have hset : run (answer world) s (phpSetAppid n.toInt32) =
      (.ok (), { s with appid := n.toInt32, events := s.events ++ [.set s.appid n.toInt32] }) := rfl
  unfold Ext.setAppid getAppidParam
  rw [run_assertPrivilege, if_neg (not_not.mpr h), run_bind_of_ok hset, h, hevents]
  have honly : Only kind (do
      let _ ← phpConnectUserdb n.toInt32
      let _ ← setBasedir setting
      return PhpValue.null) := by
    refine (only_phpConnectUserdb hlocal fun query hquery => .inr ⟨query, rfl, hquery⟩).bind fun _ => ?_
    exact (only_setBasedir hlocal setting).then_ret
  refine run_of_only (I := fun t : Session ω => t.appid = n.toInt32 ∧ ∀ e ∈ t.events,
    e = .set 0 n.toInt32 ∨ ∃ text, e = .statement n.toInt32 text ∧ IsDbconfLookup n.toInt32 text) ?_ honly ?_
  · rintro t q ⟨happid, hold⟩ (hq | ⟨text, rfl, htext⟩)
    · obtain ⟨h₁, h₂⟩ := t.answer_local world hq
      rw [h₁, h₂]
      exact ⟨happid, hold⟩
    · refine ⟨happid, List.forall_mem_append.mpr ⟨hold, List.forall_mem_singleton.mpr ?_⟩⟩
      exact .inr ⟨text, by rw [happid], htext⟩
  · exact ⟨rfl, fun e he => .inl (List.mem_singleton.mp he)⟩

/-- Another call with privilege: the number stays 0. -/
theorem Invocation.run_of_eq (h : s.appid = 0) (hevents : s.events = []) {c : Invocation}
    (hc : ∀ n, c ≠ .setAppid (some n)) :
    (run (answer world) s (c.program setting)).2.appid = 0 ∧
      ∀ e ∈ (run (answer world) s (c.program setting)).2.events, ∃ text, e = .statement 0 text := by
  have hrun {p : Prog PhpValue} (hp : p.Only Effect.KeepsAppid) :
      (run (answer world) s p).2.appid = 0 ∧
        ∀ e ∈ (run (answer world) s p).2.events, ∃ text, e = .statement 0 text := by
    refine run_of_only (I := fun t : Session ω => t.appid = 0 ∧ ∀ e ∈ t.events, ∃ text, e = .statement 0 text)
      ?_ hp ⟨h, by simp [hevents]⟩
    rintro t q ⟨happid, hold⟩ hq
    by_cases hquery : ∃ text, q = .query text
    · obtain ⟨text, rfl⟩ := hquery
      refine ⟨happid, List.forall_mem_append.mpr ⟨hold, List.forall_mem_singleton.mpr ?_⟩⟩
      exact ⟨text, by rw [happid]⟩
    · have hq : q.Local := by
        cases q <;> first | trivial | exact hq | exact absurd ⟨_, rfl⟩ hquery
      obtain ⟨h₁, h₂⟩ := t.answer_local world hq
      rw [h₁, h₂]
      exact ⟨happid, hold⟩
  rcases c.program_cases setting with hlocal | ⟨body, hbody, hkeeps⟩ | ⟨n, rfl⟩
  · exact hrun (hlocal.mono keepsAppid_of_local)
  · rw [hbody, run_assertPrivilege, if_neg (not_not.mpr h)]
    exact hrun hkeeps
  · exact absurd rfl (hc n)

/-- **One call**: it does what it may, and does not set the number back to 0. -/
theorem Invocation.record_ok (appid : Int32) (outside : ω) (c : Invocation) :
    let r := run (answer world) ⟨appid, outside, []⟩ (c.program setting)
    Record.Ok ⟨c, appid, r.2.events⟩ ∧ (appid ≠ 0 → r.2.appid = appid) := by
  intro r
  by_cases happid : appid = 0
  · subst happid
    refine ⟨⟨fun h => absurd rfl h, ?_⟩, fun h => absurd rfl h⟩
    by_cases hc : ∃ n, c = .setAppid (some n)
    · obtain ⟨n, rfl⟩ := hc
      obtain ⟨-, hevents⟩ := run_setAppid world setting (s := ⟨0, outside, []⟩) rfl rfl n
      constructor
      · intro old new hmem
        rcases hevents _ hmem with heq | ⟨_, heq, -⟩ <;> cases heq
        rfl
      · intro a text hmem _
        rcases hevents _ hmem with heq | ⟨_, heq, hlookup⟩ <;> cases heq
        exact ⟨n, rfl, rfl, hlookup⟩
    · obtain ⟨-, hevents⟩ := run_of_eq world setting (s := ⟨0, outside, []⟩) rfl rfl
        fun n h => hc ⟨n, h⟩
      constructor
      · intro old new hmem
        obtain ⟨_, heq⟩ := hevents _ hmem
        cases heq
      · intro a text hmem ha
        obtain ⟨_, heq⟩ := hevents _ hmem
        cases heq
        exact absurd rfl ha
  · obtain ⟨hsame, hevents⟩ := run_of_ne world setting (s := ⟨appid, outside, []⟩) happid c
    have hnone : ∀ e, e ∉ r.2.events := List.eq_nil_iff_forall_not_mem.mp hevents
    exact ⟨⟨fun _ => hevents, fun _ _ hmem => absurd hmem (hnone _), fun _ _ hmem => absurd hmem (hnone _)⟩,
      fun _ => hsame⟩

/-- **One step of a request.** -/
theorem Request.step_cases (s : Request ω) (c : Invocation) :
    s.step world setting c = s ∨ ∃ r : Record, r.Ok ∧ (s.step world setting c).calls = s.calls ++ [r] ∧
      (s.appid ≠ 0 → (s.step world setting c).appid = s.appid) := by
  obtain ⟨hok, hsame⟩ := c.record_ok world setting s.appid s.outside
  unfold step
  split_ifs
  · exact .inl rfl
  · exact .inr ⟨_, hok, rfl, hsame⟩

end Calls

/-- **Privilege is never regained**: once the number of the application is not 0, it stays so, and the
calls that are made then issue no statement; the look-up of `set_appid` in `dbconf` is the only
statement that is issued while the number is not 0. -/
theorem appid_never_regained {ω : Type*} (world : ω → (q : Effect) → q.Answer × ω) (setting : Setting)
    (appid : Int32) (outside : ω) (before after : List Invocation) :
    ((Lib.run (step world setting) (.start appid outside) before).appid ≠ 0 →
        (Lib.run (step world setting) (.start appid outside) (before ++ after)).appid ≠ 0) ∧
      ∀ r ∈ (Lib.run (step world setting) (.start appid outside) (before ++ after)).calls, r.Ok := by
  constructor
  · rw [run_append]
    intro h
    refine run_invariant (I := fun s : Request ω => s.appid ≠ 0) ?_ h (along_of_forall fun _ _ => trivial)
    intro s c hs _
    rcases s.step_cases world setting c with heq | ⟨r, -, -, hsame⟩
    · rw [heq]
      exact hs
    · rw [hsame hs]
      exact hs
  · refine run_invariant (I := fun s : Request ω => ∀ r ∈ s.calls, r.Ok) ?_ ?_ (along_of_forall fun _ _ => trivial)
    · intro s c hs _
      rcases s.step_cases world setting c with heq | ⟨r, hok, hcalls, -⟩
      · rw [heq]
        exact hs
      rw [hcalls]
      exact List.forall_mem_append.mpr ⟨hs, List.forall_mem_singleton.mpr hok⟩
    · rintro r ⟨⟩

/-- A world in which the databases are empty and nothing fails. -/
def emptyWorld (_ : Unit) (q : Effect) : q.Answer × Unit := (q.emptyAnswer, ())

/-- The look-up of `set_appid(5)` is issued when the number is 5 already. -/
theorem setAppid_statement_after_set :
    ∃ r ∈ (Lib.run (step emptyWorld plainSetting) (.start 0 ()) [.setAppid (some 5)]).calls,
      .statement 5 (ascii "SELECT * FROM dbconf WHERE \x60id\x60='5'") ∈ r.events := by
  refine ⟨_, List.mem_singleton_self _, ?_⟩
  decide +kernel

end PhpSandbox.Ext
