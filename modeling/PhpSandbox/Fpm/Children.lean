import PhpSandbox.Fpm.Scoreboard
import PhpSandbox.Lib.LinkedList
import Mathlib.Algebra.BigOperators.Group.List.Basic
import Mathlib.Algebra.Order.Group.Int
import Mathlib.Algebra.Ring.Int.Defs

/-!
# The master process and its children

`sapi/fpm/fpm/fpm_children.c` and `fpm_process_ctl.c` start and reap the children of all pools. Children are started at
the beginning, by the maintenance heartbeat, when a connection comes in for an on-demand pool, and when another child
has ended; they are reaped when `SIGCHLD` was received. Two counters are kept, one for each pool and one for all.

## The model

`Master` is the state of the master process: the pools with their children and scoreboards, the global counter, the
control state and the ring of recent faults. An event carries all that the system around decides: which children are
idle, what `waitpid` reports, and how each attempt to start a child goes (`Attempt`). Signals that are sent to children
and messages that are logged have no effect on the state. `none` is a master that is gone: it has called `exit` or
`execvp`. A child that has just been forked leaves the loop at once; the model follows the master.

## What is proved

Over every run, the counters are the numbers of children and stay within the limits, and the used slots are those of
the children, each slot with one child (`Master.run_ok`).
-/

namespace PhpSandbox.Fpm

open Scoreboard List Option

/-! ### The state -/

/-- `struct timeval`. -/
structure Timeval where
  tvSec : ℤ
  tvUsec : ℤ

/-- `timercmp(a, b, <)`. -/
def Timeval.before (a b : Timeval) : Bool :=
  if a.tvSec = b.tvSec then a.tvUsec < b.tvUsec else a.tvSec < b.tvSec

/-- `struct fpm_child_s`. -/
structure Child where
  pid : ℕ
  started : Timeval
  idleKill : Bool
  scoreboardI : ℤ

/-- `pm`. -/
inductive PmStyle where
  /-- `PM_STYLE_STATIC`. -/
  | static
  /-- `PM_STYLE_DYNAMIC`. -/
  | dynamic
  /-- `PM_STYLE_ONDEMAND`. -/
  | ondemand
  deriving DecidableEq

/-- `struct fpm_worker_pool_config_s`, as far as it is about children. -/
structure PoolConfig where
  pm : PmStyle
  /-- `pm.max_children`. -/
  pmMaxChildren : ℤ
  /-- `pm.start_servers`. -/
  pmStartServers : ℤ
  /-- `pm.min_spare_servers`. -/
  pmMinSpareServers : ℤ
  /-- `pm.max_spare_servers`. -/
  pmMaxSpareServers : ℤ
  /-- `pm.process_idle_timeout`. -/
  pmProcessIdleTimeout : ℤ

/-- `struct fpm_worker_pool_s`. -/
structure Pool where
  config : PoolConfig
  /-- `children`, the youngest first. -/
  children : List Child
  runningChildren : ℤ
  idleSpawnRate : ℤ
  scoreboard : Scoreboard

open Pool

/-- `fpm_state`. -/
inductive PctlState where
  /-- `FPM_PCTL_STATE_NORMAL`. -/
  | normal
  /-- `FPM_PCTL_STATE_RELOADING`. -/
  | reloading
  /-- `FPM_PCTL_STATE_TERMINATING`. -/
  | terminating
  /-- `FPM_PCTL_STATE_FINISHING`. -/
  | finishing
  deriving DecidableEq

/-- A signal's number. -/
abbrev Signal := ℕ

/-- `SIGQUIT`. -/
def sigquit : Signal := 3
/-- `SIGBUS`. -/
def sigbus : Signal := 7
/-- `SIGKILL`. -/
def sigkill : Signal := 9
/-- `SIGSEGV`. -/
def sigsegv : Signal := 11
/-- `SIGTERM`. -/
def sigterm : Signal := 15

/-- `fpm_global_config`, as far as it is about children. -/
structure GlobalConfig where
  /-- `process.max`. -/
  processMax : ℤ
  emergencyRestartThreshold : ℕ
  emergencyRestartInterval : ℤ

/-- `fpm_globals`, and the static variables of the two files. -/
structure Globals where
  /-- `fpm_global_config`. -/
  config : GlobalConfig
  runningChildren : ℤ
  /-- `fpm_state`. -/
  state : PctlState
  /-- `fpm_signal_sent`, where `0` is no signal. -/
  signalSent : Signal
  /-- `last_faults`, empty for `NULL`. -/
  lastFaults : List ℤ
  fault : ℕ

open Globals

/-- The master process. -/
structure Master where
  /-- `fpm_globals`. -/
  globals : Globals
  /-- `fpm_worker_all_pools`. -/
  pools : List Pool

/-- How an attempt to start a child goes. -/
inductive Attempt where
  /-- `malloc` fails. -/
  | noMemory
  /-- `fpm_stdio_prepare_pipes` fails. -/
  | noPipes
  /-- `fork` fails, if it comes to it. -/
  | forkFailed
  /-- `fork` gives a child, if it comes to it. -/
  | forked (pid : ℕ) (started : Timeval)

/-! ### Starting children -/

variable (g : Globals)

/-- `fpm_pctl_can_spawn_children`. -/
def Globals.canSpawnChildren : Bool := g.state = .normal

/-- `fpm_child_link`. -/
def childLink (child : Child) (g : Globals) (wp : Pool) : Globals × Pool :=
  ({ g with runningChildren := g.runningChildren + 1 },
    { wp with
      runningChildren := wp.runningChildren + 1
      children := child :: wp.children })

variable (wp : Pool)

/-- `fpm_resources_prepare`: the slot of the new child, and the pool's scoreboard after that. -/
def resourcesPrepare : Attempt → Option (ℤ × Scoreboard)
  | .noMemory => none
  | .noPipes => none
  | .forkFailed => wp.scoreboard.procAlloc
  | .forked _ _ => wp.scoreboard.procAlloc

/-- What `fpm_children_make` returns to the master. -/
inductive Made where
  /-- `1`: done. -/
  | done
  /-- `2`: a child could not be started. -/
  | failed

/-- The condition of the loop of `fpm_children_make`. -/
def maySpawn (max : ℤ) (g : Globals) (wp : Pool) : Bool :=
  g.canSpawnChildren && decide (wp.runningChildren < max) &&
    (decide (g.config.processMax < 1) || decide (g.runningChildren < g.config.processMax))

/-- The loop of `fpm_children_make`. The attempts that are left come out; when there are none left, memory is. -/
def makeLoop (max : ℤ) (g : Globals) (wp : Pool) : List Attempt → Made × Globals × Pool × List Attempt
  | [] => (if maySpawn max g wp then .failed else .done, g, wp, [])
  | a :: attempts =>
    if maySpawn max g wp then
      match resourcesPrepare wp a with
      | none => (.failed, g, wp, attempts)
      | some (i, scoreboard) =>
        match a with
        | .forked pid started =>
          let (g, wp) := childLink ⟨pid, started, false, i⟩ g { wp with scoreboard := scoreboard }
          makeLoop max g wp attempts
        -- `fpm_resources_discard`
        | _ => (.failed, g, { wp with scoreboard := scoreboard.procFree i }, attempts)
    else (.done, g, wp, a :: attempts)

/-- How many children `fpm_children_make` makes the pool have. -/
def makeMax (inEventLoop : Bool) (nbToSpawn : ℤ) : ℤ :=
  match wp.config.pm with
  | .dynamic => if inEventLoop then wp.runningChildren + nbToSpawn else wp.config.pmStartServers
  | .ondemand => if inEventLoop then wp.runningChildren + nbToSpawn else 0
  | .static => wp.config.pmMaxChildren

/-- `fpm_children_make`. -/
def childrenMake (inEventLoop : Bool) (nbToSpawn : ℤ) (attempts : List Attempt) :
    Made × Globals × Pool × List Attempt :=
  makeLoop (makeMax wp inEventLoop nbToSpawn) g wp attempts

variable (attempts : List Attempt)

/-- `fpm_children_create_initial`. -/
def childrenCreateInitial : Made × Globals × Pool × List Attempt :=
  if wp.config.pm = .ondemand then (.done, g, wp, attempts) else childrenMake g wp false 0 attempts

/-! ### Process control -/

/-- `fpm_pctl_action_last`: `exit` and `execvp` do not come back. -/
def Globals.actionLast : Option Globals :=
  if g.state = .normal then some g else none

/-- The signal that `fpm_pctl_action_next` sends to all children. -/
def Globals.nextSignal : Signal :=
  if g.signalSent = 0 then if g.state = .terminating then sigterm else sigquit
  else if g.signalSent = sigquit then sigterm
  else sigkill

/-- `fpm_pctl_action_next`. -/
def Globals.actionNext : Option Globals :=
  (if g.runningChildren = 0 then g.actionLast else some g).map fun g => { g with signalSent := g.nextSignal }

/-- The states that `fpm_pctl` may leave for another one. -/
def PctlState.overriddenBy : PctlState → PctlState → Bool
  | .normal, _ => true
  | .reloading, new => new = .finishing || new = .terminating
  | .finishing, new => new = .terminating
  | .terminating, _ => false

/-- `fpm_pctl(new_state, FPM_PCTL_ACTION_SET)`. -/
def Globals.pctlSet (new : PctlState) : Option Globals :=
  if g.state = new then some g
  else if g.state.overriddenBy new then { g with signalSent := 0, state := new }.actionNext
  else some g

/-- `fpm_pctl_child_exited`. -/
def Globals.childExited : Option Globals :=
  if g.state = .normal then some g
  else if g.runningChildren = 0 then g.actionLast
  else some g

/-! ### Reaping children -/

/-- What `waitpid` reports about a child. -/
inductive WaitStatus where
  /-- `WIFEXITED`. -/
  | exited (code : ℕ)
  /-- `WIFSIGNALED`. -/
  | signaled (sig : Signal)
  /-- `WIFSTOPPED`. -/
  | stopped (sig : Signal)
  /-- None of the three. -/
  | other

/-- `WTERMSIG`. -/
def WaitStatus.termSig : WaitStatus → Signal
  | .exited _ => 0
  | .signaled sig => sig
  | .stopped _ => 127
  | .other => 127

/-- `WIFSTOPPED`. -/
def WaitStatus.isStopped : WaitStatus → Bool
  | .stopped _ => true
  | _ => false

/-- A child that the process management has killed is not started again. -/
def restartChild (child : Child) : WaitStatus → Bool
  | .exited _ => !child.idleKill
  | .signaled sig => !(child.idleKill && sig = sigquit)
  | _ => true

/-- `fpm_child_unlink`, of the child at position `k`. -/
def childUnlink (k : ℕ) (g : Globals) (wp : Pool) : Globals × Pool :=
  ({ g with runningChildren := g.runningChildren - 1 },
    { wp with
      runningChildren := wp.runningChildren - 1
      children := wp.children.eraseIdx k })

/-- A fault is noted; too many of them start a reload. -/
def Globals.noteFault (status : WaitStatus) (now : ℤ) : Option Globals :=
  if g.lastFaults ≠ [] ∧ (status.termSig = sigsegv ∨ status.termSig = sigbus) then
    let lastFaults := g.lastFaults.set g.fault now
    let fault := if g.fault + 1 = g.config.emergencyRestartThreshold then 0 else g.fault + 1
    let g := { g with lastFaults := lastFaults, fault := fault }
    if lastFaults.any fun f => now - f > g.config.emergencyRestartInterval then some g
    else g.pctlSet .reloading
  else some g

/-- A child that has ended leaves its pool and gives back its slot. -/
def reap (k : ℕ) (child : Child) (g : Globals) (wp : Pool) : Globals × Pool :=
  let (g, wp) := childUnlink k g wp
  (g, { wp with scoreboard := wp.scoreboard.procFree child.scoreboardI })

/-- Another child is started in its place. -/
def respawn (restart : Bool) : Globals × Pool × List Attempt :=
  if restart then (childrenMake g wp true 1 attempts).2 else (g, wp, attempts)

/-- What `fpm_children_bury` does about the child at position `k` of a pool that has ended. -/
def buryChild (k : ℕ) (child : Child) (status : WaitStatus) (now : ℤ)
    (attempts : List Attempt) : Option (Globals × Pool × List Attempt) :=
  let (g, wp) := reap k child g wp
  (g.childExited.bind (·.noteFault status now)).map fun g => respawn g wp attempts (restartChild child status)

/-- The first child with the given pid, with its position. -/
def childFind (pid : ℕ) (children : List Child) : Option (ℕ × Child) := do
  let k ← children.findIdx? (·.pid = pid)
  let child ← children[k]?
  some (k, child)

/-- `fpm_child_find` over all pools, and what follows for the child that is found. -/
def buryIn (pid : ℕ) (status : WaitStatus) (now : ℤ) (g : Globals) (attempts : List Attempt) :
    List Pool → Option (Globals × List Pool × List Attempt)
  | [] => some (g, [], attempts)
  | wp :: pools =>
    match childFind pid wp.children with
    | some (k, child) => do
      let (g, wp, attempts) ← buryChild g wp k child status now attempts
      some (g, wp :: pools, attempts)
    | none => do
      let (g, pools, attempts) ← buryIn pid status now g attempts pools
      some (g, wp :: pools, attempts)

/-- One turn of the loop of `fpm_children_bury`; a child that was stopped for tracing lives on. -/
def buryOne (m : Master) (attempts : List Attempt) (pid : ℕ) (status : WaitStatus) (now : ℤ) :
    Option (Master × List Attempt) :=
  if status.isStopped then some (m, attempts)
  else
    (buryIn pid status now m.globals attempts m.pools).map fun (g, pools, attempts) => (⟨g, pools⟩, attempts)

/-- What `waitpid` returns. -/
structure Report where
  /-- The child. -/
  pid : ℕ
  /-- Its status. -/
  status : WaitStatus
  /-- The time. -/
  now : ℤ

/-- `fpm_children_bury`. -/
def childrenBury (m : Master) (attempts : List Attempt) : List Report → Option Master
  | [] => some m
  | r :: reports => do
    let (m, attempts) ← buryOne m attempts r.pid r.status r.now
    childrenBury m attempts reports

/-! ### Maintenance -/

/-- What the children of a pool tell about themselves in their slots, and the clock. -/
structure View where
  /-- `fpm_request_is_idle`. -/
  isIdle : ℤ → Bool
  /-- `fpm_request_last_activity`, in seconds. -/
  lastActivity : ℤ → ℤ
  /-- `fpm_clock_get`, in seconds. -/
  now : ℤ

/-- The idle child that was started first, with its position. -/
def lastIdleChild (view : View) : ℕ → Option (ℕ × Child) → List Child → Option (ℕ × Child)
  | _, last, [] => last
  | k, last, child :: children =>
    if view.isIdle child.scoreboardI then
      match last with
      | none => lastIdleChild view (k + 1) (some (k, child)) children
      | some (j, c) =>
        lastIdleChild view (k + 1) (if child.started.before c.started then some (k, child) else some (j, c)) children
    else lastIdleChild view (k + 1) last children

variable (view : View)

/-- How many children are idle. -/
def idleCount (wp : Pool) : ℤ := wp.children.countP fun c => view.isIdle c.scoreboardI

/-- `idle_kill = 1` for the child at position `k`. -/
def Pool.setIdleKill (k : ℕ) : Pool :=
  { wp with children := wp.children.modify k fun c => { c with idleKill := true } }

/-- `FPM_MAX_SPAWN_RATE`. -/
def maxSpawnRate : ℤ := 32

/-- How many children a dynamic pool gets at once. -/
def childrenToFork (wp : Pool) : ℤ :=
  min (min wp.idleSpawnRate (wp.config.pmMinSpareServers - idleCount view wp))
    (wp.config.pmMaxChildren - wp.runningChildren)

/-- `fpm_pctl_perform_idle_server_maintenance`, for one pool. -/
def maintainPool (g : Globals) (wp : Pool) (attempts : List Attempt) : Globals × Pool × List Attempt :=
  let idle := idleCount view wp
  let last := lastIdleChild view 0 none wp.children
  match wp.config.pm with
  | .static => (g, wp, attempts)
  | .ondemand =>
    match last with
    | none => (g, wp, attempts)
    | some (k, c) =>
      if view.lastActivity c.scoreboardI < view.now - wp.config.pmProcessIdleTimeout then
        (g, wp.setIdleKill k, attempts)
      else (g, wp, attempts)
  | .dynamic =>
    match if idle > wp.config.pmMaxSpareServers then last else none with
    | some (k, _) => (g, { wp.setIdleKill k with idleSpawnRate := 1 }, attempts)
    | none =>
      if idle < wp.config.pmMinSpareServers then
        if wp.runningChildren ≥ wp.config.pmMaxChildren then (g, { wp with idleSpawnRate := 1 }, attempts)
        else if childrenToFork view wp ≤ 0 then (g, { wp with idleSpawnRate := 1 }, attempts)
        else
          let (_, g, wp, attempts) := childrenMake g wp true (childrenToFork view wp) attempts
          (g, { wp with
            idleSpawnRate := if wp.idleSpawnRate < maxSpawnRate then wp.idleSpawnRate * 2 else wp.idleSpawnRate },
            attempts)
      else (g, { wp with idleSpawnRate := 1 }, attempts)

/-- `fpm_pctl_perform_idle_server_maintenance`: all pools in turn, from number `k` on, each with its own view. -/
def performIdleServerMaintenance (views : ℕ → View) (k : ℕ) (g : Globals) (attempts : List Attempt) :
    List Pool → Globals × List Pool
  | [] => (g, [])
  | wp :: pools =>
    let (g, wp, attempts) := maintainPool (views k) g wp attempts
    let (g, pools) := performIdleServerMaintenance views (k + 1) g attempts pools
    (g, wp :: pools)

/-- `fpm_pctl_on_socket_accept`; only on-demand pools have this event. -/
def onSocketAccept (g : Globals) (wp : Pool) (attempts : List Attempt) : Globals × Pool :=
  if wp.config.pm ≠ .ondemand then (g, wp)
  else if wp.runningChildren ≥ wp.config.pmMaxChildren then (g, wp)
  else if wp.children.any fun c => view.isIdle c.scoreboardI then (g, wp)
  else
    let (_, g, wp, _) := childrenMake g wp true 1 attempts
    (g, wp)

/-! ### Runs -/

/-- What happens to the master. -/
inductive Event where
  /-- The maintenance heartbeat. -/
  | maintenance (views : ℕ → View) (attempts : List Attempt)
  /-- A connection for the pool at position `k`. -/
  | accept (k : ℕ) (view : View) (attempts : List Attempt)
  /-- `SIGCHLD`. -/
  | childExits (reports : List Report) (attempts : List Attempt)
  /-- A signal that changes the control state: `SIGINT`, `SIGTERM`, `SIGQUIT` or `SIGUSR2`. -/
  | control (new : PctlState)
  /-- The timer of the process control. -/
  | timeout

/-- One event. -/
def Master.step (m : Master) : Event → Option Master
  | .maintenance views attempts =>
    if m.globals.canSpawnChildren then
      let (g, pools) := performIdleServerMaintenance views 0 m.globals attempts m.pools
      some ⟨g, pools⟩
    else some m
  | .accept k view attempts =>
    match m.pools[k]? with
    | none => some m
    | some wp =>
      let (g, wp) := onSocketAccept view m.globals wp attempts
      some ⟨g, m.pools.set k wp⟩
  | .childExits reports attempts => childrenBury m attempts reports
  | .control new => do
    let g ← m.globals.pctlSet new
    some { m with globals := g }
  | .timeout => do
    let g ← m.globals.actionNext
    some { m with globals := g }

/-- A pool before its first child: `fpm_worker_pool_alloc` and `fpm_scoreboard_init_main`. -/
def Pool.init (config : PoolConfig) : Option Pool :=
  if config.pmMaxChildren < 1 then none
  else
    some
      { config := config
        children := []
        runningChildren := 0
        idleSpawnRate := 1
        scoreboard := .init config.pmMaxChildren }

/-- The first children of all pools (`fpm_run`); if one cannot be started, the master terminates. -/
def createInitial (g : Globals) (attempts : List Attempt) : List Pool → Option (Globals × List Pool)
  | [] => some (g, [])
  | wp :: pools =>
    match childrenCreateInitial g wp attempts with
    | (.failed, g, wp, _) => do
      let g ← g.pctlSet .terminating
      some (g, wp :: pools)
    | (.done, g, wp, attempts) => do
      let (g, pools) ← createInitial g attempts pools
      some (g, wp :: pools)

variable (config : GlobalConfig)

/-- The globals before the first child: `fpm_children_init_main` allocates the ring of faults. -/
def Globals.init : Globals where
  config := config
  runningChildren := 0
  state := .normal
  signalSent := 0
  lastFaults :=
    if config.emergencyRestartInterval ≠ 0 then replicate config.emergencyRestartThreshold 0 else []
  fault := 0

/-- The master at the start of its event loop. -/
def Master.start (pools : List PoolConfig) (attempts : List Attempt) : Option Master := do
  let pools ← pools.mapM init
  let (g, pools) ← createInitial (.init config) attempts pools
  some ⟨g, pools⟩

/-- The master after some events. -/
def Master.run (m : Master) : List Event → Option Master
  | [] => some m
  | e :: events => do
    let m ← m.step e
    m.run events

/-! ### What one pool keeps -/

/-- The slots of the pool's children. -/
def Pool.slots : List ℤ := wp.children.map (·.scoreboardI)

/-- The pool's counter and its slots are those of its children, and there are not too many. -/
structure Pool.Ok (wp : Pool) : Prop where
  running : wp.runningChildren = wp.children.length
  limit : wp.runningChildren ≤ wp.config.pmMaxChildren
  nprocs : wp.scoreboard.nprocs = wp.config.pmMaxChildren
  used : ∀ i, wp.scoreboard.Used i ↔ i ∈ wp.slots
  nodup : wp.slots.Nodup

/-- The global limit holds, if it is set. -/
def Globals.Within : Prop := g.config.processMax < 1 ∨ g.runningChildren ≤ g.config.processMax

/-- The sum of the pools' counters. -/
def totalRunning (pools : List Pool) : ℤ := (pools.map (·.runningChildren)).sum

/-- From one state of some pools to another one: the pools are as they have to be, and the global counter moves with
theirs. -/
structure Keeps (g : Globals) (pools : List Pool) (g' : Globals) (pools' : List Pool) : Prop where
  ok : ∀ wp ∈ pools', wp.Ok
  configs : pools'.map (·.config) = pools.map (·.config)
  global : g'.config = g.config
  within : g'.Within
  /-- The counters move together. -/
  total : g'.runningChildren - totalRunning pools' = g.runningChildren - totalRunning pools

namespace Keeps

variable {g g' g'' : Globals} {wp wp' wp'' : Pool} {pools pools' pools'' : List Pool}

theorem refl (h : ∀ wp ∈ pools, wp.Ok) (hg : g.Within) : Keeps g pools g pools := ⟨h, rfl, rfl, hg, rfl⟩

/-- One pool. -/
theorem one (hok : wp'.Ok) (hconfig : wp'.config = wp.config) (hglobal : g'.config = g.config) (hg : g'.Within)
    (htotal : g'.runningChildren - wp'.runningChildren = g.runningChildren - wp.runningChildren) :
    Keeps g [wp] g' [wp'] := by
  refine ⟨forall_mem_singleton.2 hok, ?_, hglobal, hg, ?_⟩
  · simp [hconfig]
  · simpa only [totalRunning, map_cons, map_nil, sum_singleton] using htotal

theorem same (h : wp.Ok) (hg : g.Within) : Keeps g [wp] g [wp] := one h rfl rfl hg rfl

theorem trans (h : Keeps g pools g' pools') (h' : Keeps g' pools' g'' pools'') : Keeps g pools g'' pools'' :=
  ⟨h'.ok, h'.configs.trans h.configs, h'.global.trans h.global, h'.within, h'.total.trans h.total⟩

theorem head (h : Keeps g [wp] g' [wp']) (hpools : ∀ wp ∈ pools, wp.Ok) : Keeps g (wp :: pools) g' (wp' :: pools) := by
  have htotal := h.total
  have hconfig := h.configs
  simp only [totalRunning, map_cons, map_nil, sum_cons, sum_nil] at htotal hconfig
  refine ⟨forall_mem_cons.2 ⟨h.ok _ mem_cons_self, hpools⟩, ?_, h.global, h.within, ?_⟩
  · simp only [map_cons]
    rw [cons_eq_cons.1 hconfig |>.1]
  · simp only [totalRunning, map_cons, sum_cons]
    omega

theorem tail (h : Keeps g pools g' pools') (hwp : wp.Ok) : Keeps g (wp :: pools) g' (wp :: pools') := by
  have htotal := h.total
  simp only [totalRunning] at htotal
  refine ⟨forall_mem_cons.2 ⟨hwp, h.ok⟩, ?_, h.global, h.within, ?_⟩
  · simp [h.configs]
  · simp only [totalRunning, map_cons, sum_cons]
    omega

/-- One of the pools changes. -/
theorem set (h : Keeps g [wp] g' [wp']) (hpools : ∀ wp ∈ pools, wp.Ok) {k : ℕ} (hk : pools[k]? = some wp) :
    Keeps g pools g' (pools.set k wp') := by
  induction pools generalizing k with
  | nil => cases hk
  | cons p pools ih =>
    obtain ⟨hp, hpools'⟩ := forall_mem_cons.1 hpools
    cases k with
    | zero =>
      cases hk
      exact h.head hpools'
    | succ k => exact (ih hpools' hk).tail hp

/-- Only the control state changes. -/
theorem control (h : ∀ wp ∈ pools, wp.Ok) (hg : g.Within)
    (hsame : g'.config = g.config ∧ g'.runningChildren = g.runningChildren) : Keeps g pools g' pools := by
  obtain ⟨hconfig, hrunning⟩ := hsame
  refine ⟨h, rfl, hconfig, ?_, by rw [hrunning]⟩
  rw [Globals.Within, hconfig, hrunning]
  exact hg

/-- Only what the counters do not depend on changes in a pool. -/
theorem pool (h : wp.Ok) (hg : g.Within) (hconfig : wp'.config = wp.config)
    (hrunning : wp'.runningChildren = wp.runningChildren) (hslots : wp'.slots = wp.slots)
    (hsb : wp'.scoreboard = wp.scoreboard) : Keeps g [wp] g [wp'] := by
  have hlen : wp'.children.length = wp.children.length := by
    have := congrArg List.length hslots
    simpa [slots] using this
  refine one ⟨?_, ?_, ?_, ?_, ?_⟩ hconfig rfl hg (by rw [hrunning])
  · rw [hrunning, hlen, h.running]
  · rw [hrunning, hconfig]
    exact h.limit
  · rw [hsb, hconfig]
    exact h.nprocs
  · rw [hsb, hslots]
    exact h.used
  · rw [hslots]
    exact h.nodup

end Keeps

/-! ### Starting and reaping one child -/

variable {g : Globals} {wp : Pool}

/-- A slot that was taken and given back leaves no trace. -/
theorem Keeps.discard (h : wp.Ok) (hg : g.Within) {i : ℤ} {sb : Scoreboard}
    (ha : wp.scoreboard.procAlloc = some (i, sb)) :
    Keeps g [wp] g [{ wp with scoreboard := sb.procFree i }] := by
  obtain ⟨hfree, hn, hused⟩ := procAlloc_some ha
  refine one ⟨h.running, h.limit, ?_, ?_, h.nodup⟩ rfl rfl hg rfl
  · rw [nprocs_procFree, hn]
    exact h.nprocs
  · intro j
    rw [used_procFree ((hused i).2 (.inl rfl)), hused]
    have huj := h.used j
    constructor
    · rintro ⟨hne, rfl | hj⟩
      · exact absurd rfl hne
      · exact huj.1 hj
    · intro hj
      refine ⟨?_, .inr (huj.2 hj)⟩
      rintro rfl
      exact hfree (huj.2 hj)

variable {child : Child}

/-- A child is started in a slot that was free. -/
theorem Keeps.link (h : wp.Ok) {i : ℤ} {sb : Scoreboard} (ha : wp.scoreboard.procAlloc = some (i, sb))
    (hi : child.scoreboardI = i) (hroom : wp.runningChildren < wp.config.pmMaxChildren)
    (hg : g.config.processMax < 1 ∨ g.runningChildren < g.config.processMax) :
    Keeps g [wp] (childLink child g { wp with scoreboard := sb }).1
      [(childLink child g { wp with scoreboard := sb }).2] := by
  obtain ⟨hfree, hn, hused⟩ := procAlloc_some ha
  refine one ⟨?_, ?_, hn.trans h.nprocs, ?_, ?_⟩ rfl rfl ?_ ?_
  · have := h.running
    simp only [childLink, length_cons]
    omega
  · simp only [childLink]
    omega
  · intro j
    rw [slots, childLink, map_cons, mem_cons, hused, hi, h.used]
    rfl
  · rw [slots, childLink, map_cons, nodup_cons, hi]
    exact ⟨fun hmem => hfree ((h.used i).2 hmem), h.nodup⟩
  · simp only [Globals.Within, childLink]
    omega
  · simp only [childLink]
    omega

/-- A child is reaped, and its slot given back. -/
theorem Keeps.reap (h : wp.Ok) (hg : g.Within) {k : ℕ} (hk : wp.children[k]? = some child) :
    Keeps g [wp] (Fpm.reap k child g wp).1 [(Fpm.reap k child g wp).2] := by
  have hmem : child.scoreboardI ∈ wp.slots := mem_map_of_mem (mem_of_getElem? hk)
  have hused := (h.used child.scoreboardI).2 hmem
  obtain ⟨as, bs, hsplit, hlen⟩ := Lib.exists_split_of_getElem? hk
  have hslots : wp.slots = as.map (·.scoreboardI) ++ child.scoreboardI :: bs.map (·.scoreboardI) := by
    rw [slots, hsplit, map_append, map_cons]
  have herase : wp.children.eraseIdx k = as ++ bs := by
    rw [hsplit, ← hlen]
    exact Lib.eraseIdx_middle
  have hslots' : (wp.children.eraseIdx k).map (·.scoreboardI) = as.map (·.scoreboardI) ++ bs.map (·.scoreboardI) := by
    rw [herase, map_append]
  have hnodup := h.nodup
  rw [hslots] at hnodup
  refine one ⟨?_, ?_, (nprocs_procFree _ _).trans h.nprocs, ?_, ?_⟩ rfl rfl ?_ ?_
  · have hcount := h.running
    rw [hsplit] at hcount
    simp only [Fpm.reap, childUnlink, herase]
    simp only [length_append, length_cons] at hcount ⊢
    omega
  · have := h.limit
    simp only [Fpm.reap, childUnlink]
    omega
  · intro j
    show (wp.scoreboard.procFree child.scoreboardI).Used j ↔ j ∈ (wp.children.eraseIdx k).map (·.scoreboardI)
    rw [used_procFree hused, h.used, hslots, hslots']
    grind
  · rw [slots, Fpm.reap, childUnlink, hslots']
    exact (nodup_middle.1 hnodup).of_cons
  · rw [Globals.Within] at hg ⊢
    simp only [Fpm.reap, childUnlink]
    omega
  · simp only [Fpm.reap, childUnlink]
    omega

/-! ### The loops -/

theorem maySpawn_iff {max : ℤ} :
    maySpawn max g wp = true ↔ g.state = .normal ∧ wp.runningChildren < max ∧
      (g.config.processMax < 1 ∨ g.runningChildren < g.config.processMax) := by
  simp [maySpawn, canSpawnChildren, and_assoc]

variable (attempts : List Attempt)

theorem makeLoop_keeps {max : ℤ} (h : wp.Ok) (hg : g.Within) (hmax : max ≤ wp.config.pmMaxChildren) :
    Keeps g [wp] (makeLoop max g wp attempts).2.1 [(makeLoop max g wp attempts).2.2.1] := by
  have same := Keeps.same h hg
  induction attempts generalizing g wp with
  | nil => exact same
  | cons a attempts ih =>
    rw [makeLoop]
    by_cases hspawn : maySpawn max g wp = true
    · obtain ⟨-, hlt, hglobal⟩ := maySpawn_iff.1 hspawn
      rw [if_pos hspawn]
      cases a with
      | noMemory | noPipes => exact same
      | forkFailed =>
        cases ha : wp.scoreboard.procAlloc with
        | none => simpa only [resourcesPrepare, ha] using same
        | some r => simpa only [resourcesPrepare, ha] using Keeps.discard h hg ha
      | forked pid started =>
        cases ha : wp.scoreboard.procAlloc with
        | none => simpa only [resourcesPrepare, ha] using same
        | some r =>
          have hi : (Child.mk pid started false r.1).scoreboardI = r.1 := rfl
          have hlink := Keeps.link h ha hi (by omega) hglobal
          simp only [resourcesPrepare, ha]
          have hok := hlink.ok _ mem_cons_self
          exact hlink.trans (ih hok hlink.within hmax (.same hok hlink.within))
    · rw [if_neg hspawn]
      exact same

/-- The pool may be filled up to what `fpm_children_make` aims at. -/
theorem childrenMake_keeps {inEventLoop : Bool} {nbToSpawn : ℤ} (h : wp.Ok) (hg : g.Within)
    (hmax : makeMax wp inEventLoop nbToSpawn ≤ wp.config.pmMaxChildren) :
    Keeps g [wp] (childrenMake g wp inEventLoop nbToSpawn attempts).2.1
      [(childrenMake g wp inEventLoop nbToSpawn attempts).2.2.1] :=
  makeLoop_keeps attempts h hg hmax

/-- In the event loop, no more children are asked for than there may be. -/
theorem makeMax_eventLoop {nbToSpawn : ℤ} (h : wp.runningChildren + nbToSpawn ≤ wp.config.pmMaxChildren) :
    makeMax wp true nbToSpawn ≤ wp.config.pmMaxChildren := by
  rw [makeMax]
  split
  · exact h
  · exact h
  · exact Int.le_refl _

variable {g' : Globals} {pools : List Pool}

theorem actionLast_eq (h : g.actionLast = some g') : g' = g := by
  rw [actionLast] at h
  split_ifs at h
  exact (some.inj h).symm

theorem actionNext_same (h : g.actionNext = some g') :
    g'.config = g.config ∧ g'.runningChildren = g.runningChildren := by
  rw [actionNext] at h
  obtain ⟨g₁, hg₁, rfl⟩ := map_eq_some_iff.1 h
  have hsame : g₁ = g := by
    split_ifs at hg₁
    · exact actionLast_eq hg₁
    · exact (some.inj hg₁).symm
  subst hsame
  exact ⟨rfl, rfl⟩

theorem pctlSet_same {new : PctlState} (h : g.pctlSet new = some g') :
    g'.config = g.config ∧ g'.runningChildren = g.runningChildren := by
  rw [pctlSet] at h
  split_ifs at h
  · cases h
    exact ⟨rfl, rfl⟩
  · have hsame := actionNext_same h
    exact hsame
  · cases h
    exact ⟨rfl, rfl⟩

theorem childExited_same (h : g.childExited = some g') : g' = g := by
  rw [childExited] at h
  split_ifs at h
  · exact (some.inj h).symm
  · exact actionLast_eq h
  · exact (some.inj h).symm

variable {status : WaitStatus} {now : ℤ}

theorem noteFault_same (h : g.noteFault status now = some g') :
    g'.config = g.config ∧ g'.runningChildren = g.runningChildren := by
  rw [noteFault] at h
  by_cases hfault : g.lastFaults ≠ [] ∧ (status.termSig = sigsegv ∨ status.termSig = sigbus)
  · rw [if_pos hfault] at h
    dsimp only at h
    split at h
    · cases h
      exact ⟨rfl, rfl⟩
    · have hsame := pctlSet_same h
      exact hsame
  · rw [if_neg hfault] at h
    cases h
    exact ⟨rfl, rfl⟩

theorem respawn_keeps (restart : Bool) (h : wp.Ok) (hg : g.Within)
    (hroom : wp.runningChildren < wp.config.pmMaxChildren) :
    Keeps g [wp] (respawn g wp attempts restart).1 [(respawn g wp attempts restart).2.1] := by
  cases restart with
  | false => exact .same h hg
  | true => exact childrenMake_keeps attempts h hg (makeMax_eventLoop (by omega))

theorem buryChild_keeps {wp' : Pool} {k : ℕ} {attempts attempts' : List Attempt} (h : wp.Ok) (hg : g.Within)
    (hk : wp.children[k]? = some child) (hb : buryChild g wp k child status now attempts = some (g', wp', attempts')) :
    Keeps g [wp] g' [wp'] := by
  have hreap := Keeps.reap h hg hk
  obtain ⟨g₂, hg₂, hb⟩ := map_eq_some_iff.1 hb
  obtain ⟨g₁, hg₁, hg₂⟩ := bind_eq_some_iff.1 hg₂
  obtain rfl := childExited_same hg₁
  have hnoted := hreap.trans (.control hreap.ok hreap.within (noteFault_same hg₂))
  have hroom : (reap k child g wp).2.runningChildren < (reap k child g wp).2.config.pmMaxChildren := by
    have := h.limit
    simp only [reap, childUnlink]
    omega
  have hspawn := respawn_keeps attempts (restartChild child status) (hnoted.ok _ mem_cons_self) hnoted.within hroom
  have hb' : respawn g₂ (reap k child g wp).2 attempts (restartChild child status) = (g', wp', attempts') := hb
  rw [hb'] at hspawn
  exact hnoted.trans hspawn

theorem childFind_some {pid k : ℕ} {children : List Child} (h : childFind pid children = some (k, child)) :
    children[k]? = some child := by
  obtain ⟨j, -, h⟩ := bind_eq_some_iff.1 h
  obtain ⟨c, hc, h⟩ := bind_eq_some_iff.1 h
  cases h
  exact hc

theorem buryIn_keeps {pid : ℕ} {pools' : List Pool} {attempts attempts' : List Attempt}
    (h : ∀ wp ∈ pools, wp.Ok) (hg : g.Within)
    (hb : buryIn pid status now g attempts pools = some (g', pools', attempts')) : Keeps g pools g' pools' := by
  induction pools generalizing g' pools' attempts' with
  | nil =>
    cases hb
    exact .refl h hg
  | cons wp pools ih =>
    obtain ⟨hwp, hpools⟩ := forall_mem_cons.1 h
    rw [buryIn] at hb
    cases hf : childFind pid wp.children with
    | none =>
      rw [hf] at hb
      obtain ⟨⟨g₁, pools₁, attempts₁⟩, hb₁, hb⟩ := bind_eq_some_iff.1 hb
      cases hb
      exact (ih hpools hb₁).tail hwp
    | some r =>
      obtain ⟨k, child⟩ := r
      rw [hf] at hb
      obtain ⟨⟨g₁, wp₁, attempts₁⟩, hb₁, hb⟩ := bind_eq_some_iff.1 hb
      cases hb
      exact (buryChild_keeps hwp hg (childFind_some hf) hb₁).head hpools

theorem setIdleKill_keeps (h : wp.Ok) (hg : g.Within) (k : ℕ) (rate : ℤ) :
    Keeps g [wp] g [{ wp.setIdleKill k with idleSpawnRate := rate }] := by
  refine .pool h hg rfl rfl ?_ rfl
  simp only [slots, setIdleKill]
  apply ext_getElem? 
  intro i
  simp only [getElem?_map, getElem?_modify]
  cases wp.children[i]? with
  | none => rfl
  | some c => by_cases hik : k = i <;> simp [hik]

theorem maintainPool_keeps (view : View) (attempts : List Attempt) (h : wp.Ok) (hg : g.Within) :
    Keeps g [wp] (maintainPool view g wp attempts).1 [(maintainPool view g wp attempts).2.1] := by
  have same := Keeps.same h hg
  have rate : ∀ n, Keeps g [wp] g [{ wp with idleSpawnRate := n }] := fun n => .pool h hg rfl rfl rfl rfl
  rw [maintainPool]
  split
  · exact same
  · split
    · exact same
    · split
      · exact setIdleKill_keeps h hg _ wp.idleSpawnRate
      · exact same
  · split
    · exact setIdleKill_keeps h hg _ 1
    · split
      · split
        · exact rate 1
        · split
          · exact rate 1
          · have hroom : wp.runningChildren + childrenToFork view wp ≤ wp.config.pmMaxChildren := by
              rw [childrenToFork]
              omega
            have hmake := childrenMake_keeps attempts h hg (makeMax_eventLoop hroom)
            have hok := hmake.ok _ mem_cons_self
            exact hmake.trans (.pool hok hmake.within rfl rfl rfl rfl)
      · exact rate 1

theorem performIdleServerMaintenance_keeps (views : ℕ → View) (k : ℕ) (attempts : List Attempt)
    (h : ∀ wp ∈ pools, wp.Ok) (hg : g.Within) :
    Keeps g pools (performIdleServerMaintenance views k g attempts pools).1
      (performIdleServerMaintenance views k g attempts pools).2 := by
  induction pools generalizing k g attempts with
  | nil => exact .refl h hg
  | cons wp pools ih =>
    obtain ⟨hok, hpools⟩ := forall_mem_cons.1 h
    have hwp := maintainPool_keeps (views k) attempts hok hg
    have hrest := ih (k + 1) (maintainPool (views k) g wp attempts).2.2 hpools hwp.within
    exact (hwp.head hpools).trans (hrest.tail (hwp.ok _ mem_cons_self))

theorem onSocketAccept_keeps (view : View) (attempts : List Attempt) (h : wp.Ok) (hg : g.Within) :
    Keeps g [wp] (onSocketAccept view g wp attempts).1 [(onSocketAccept view g wp attempts).2] := by
  have same := Keeps.same h hg
  rw [onSocketAccept]
  split
  · exact same
  split
  · exact same
  · split
    · exact same
    · exact childrenMake_keeps attempts h hg (makeMax_eventLoop (by omega))

/-! ### Runs of the master -/

/-- All pools are as they have to be, and the global counter is the sum of theirs and within its limit. -/
structure Master.Ok (m : Master) : Prop where
  pools : ∀ wp ∈ m.pools, wp.Ok
  total : m.globals.runningChildren = totalRunning m.pools
  within : m.globals.Within

theorem Keeps.master {m : Master} (hm : m.Ok) (h : Keeps m.globals m.pools g pools) : (Master.mk g pools).Ok := by
  refine ⟨h.ok, ?_, h.within⟩
  have := h.total
  have := hm.total
  show g.runningChildren = totalRunning pools
  omega

variable {m m' : Master}

theorem childrenBury_keeps {reports : List Report} (hm : m.Ok)
    (h : childrenBury m attempts reports = some m') : Keeps m.globals m.pools m'.globals m'.pools := by
  induction reports generalizing m attempts with
  | nil =>
    cases h
    exact .refl hm.pools hm.within
  | cons r reports ih =>
    obtain ⟨⟨m₁, attempts₁⟩, hone, h⟩ := bind_eq_some_iff.1 h
    have hkeep : Keeps m.globals m.pools m₁.globals m₁.pools := by
      rw [buryOne] at hone
      split at hone
      · cases hone
        exact .refl hm.pools hm.within
      · obtain ⟨⟨g, pools, attempts'⟩, hin, hone⟩ := map_eq_some_iff.1 hone
        cases hone
        exact buryIn_keeps hm.pools hm.within hin
    exact hkeep.trans (ih attempts₁ (hkeep.master hm) h)

/-- One event. -/
theorem Master.step_keeps {e : Event} (hm : m.Ok) (h : m.step e = some m') :
    Keeps m.globals m.pools m'.globals m'.pools := by
  cases e with
  | maintenance views attempts =>
    rw [step] at h
    split at h
    · cases h
      exact performIdleServerMaintenance_keeps views 0 attempts hm.pools hm.within
    · cases h
      exact .refl hm.pools hm.within
  | accept k view attempts =>
    rw [step] at h
    cases hk : m.pools[k]? with
    | none =>
      rw [hk] at h
      cases h
      exact .refl hm.pools hm.within
    | some wp =>
      rw [hk] at h
      cases h
      have hwp := hm.pools wp (mem_of_getElem? hk)
      exact (onSocketAccept_keeps view attempts hwp hm.within).set hm.pools hk
  | childExits reports attempts => exact childrenBury_keeps attempts hm h
  | control new =>
    obtain ⟨g, hg, h⟩ := bind_eq_some_iff.1 h
    cases h
    exact .control hm.pools hm.within (pctlSet_same hg)
  | timeout =>
    obtain ⟨g, hg, h⟩ := bind_eq_some_iff.1 h
    cases h
    exact .control hm.pools hm.within (actionNext_same hg)

theorem Master.run_keeps {events : List Event} (hm : m.Ok) (h : m.run events = some m') :
    Keeps m.globals m.pools m'.globals m'.pools := by
  induction events generalizing m with
  | nil =>
    cases h
    exact .refl hm.pools hm.within
  | cons e events ih =>
    obtain ⟨m₁, hstep, h⟩ := bind_eq_some_iff.1 h
    have hkeep := step_keeps hm hstep
    exact hkeep.trans (ih (hkeep.master hm) h)

/-! ### The start -/

theorem Pool.init_ok {config : PoolConfig} (h : init config = some wp) :
    wp.Ok ∧ wp.config = config ∧ wp.runningChildren = 0 := by
  rw [init] at h
  split_ifs at h with hmax
  cases h
  refine ⟨⟨rfl, ?_, ?_, ?_, nodup_nil⟩, rfl, rfl⟩
  · show (0 : ℤ) ≤ config.pmMaxChildren
    omega
  · simp only [Scoreboard.nprocs, Scoreboard.init, length_replicate]
    omega
  · intro i
    simp [Scoreboard.not_used_init, slots]

theorem childrenCreateInitial_keeps (h : wp.Ok) (hg : g.Within)
    (hstart : wp.config.pm = .dynamic → wp.config.pmStartServers ≤ wp.config.pmMaxChildren) :
    Keeps g [wp] (childrenCreateInitial g wp attempts).2.1 [(childrenCreateInitial g wp attempts).2.2.1] := by
  rw [childrenCreateInitial]
  split_ifs with hpm
  · exact .same h hg
  refine childrenMake_keeps attempts h hg ?_
  rw [makeMax]
  cases hstyle : wp.config.pm with
  | static => exact Int.le_refl _
  | dynamic => exact hstart hstyle
  | ondemand => exact absurd hstyle hpm

theorem createInitial_keeps {pools' : List Pool} (h : ∀ wp ∈ pools, wp.Ok) (hg : g.Within)
    (hstart : ∀ wp ∈ pools, wp.config.pm = .dynamic → wp.config.pmStartServers ≤ wp.config.pmMaxChildren)
    (hc : createInitial g attempts pools = some (g', pools')) : Keeps g pools g' pools' := by
  induction pools generalizing g g' pools' attempts with
  | nil =>
    cases hc
    exact .refl h hg
  | cons wp pools ih =>
    obtain ⟨hok, hpools⟩ := forall_mem_cons.1 h
    have hwp := childrenCreateInitial_keeps attempts hok hg (hstart wp mem_cons_self)
    rw [createInitial] at hc
    split at hc
    · next g₁ wp₁ attempts₁ heq =>
      rw [heq] at hwp
      obtain ⟨g₂, hg₂, hc⟩ := bind_eq_some_iff.1 hc
      cases hc
      have hhead := hwp.head hpools
      exact hhead.trans (.control hhead.ok hhead.within (pctlSet_same hg₂))
    · next g₁ wp₁ attempts₁ heq =>
      rw [heq] at hwp
      obtain ⟨⟨g₂, pools₂⟩, hrest, hc⟩ := bind_eq_some_iff.1 hc
      cases hc
      have htail := ih attempts₁ hpools hwp.within (fun p hp => hstart p (mem_cons_of_mem wp hp)) hrest
      exact (hwp.head hpools).trans (htail.tail (hwp.ok _ mem_cons_self))

variable {configs : List PoolConfig}

theorem mapM_init (h : configs.mapM init = some pools) :
    (∀ wp ∈ pools, wp.Ok) ∧ pools.map (·.config) = configs ∧ totalRunning pools = 0 := by
  induction configs generalizing pools with
  | nil =>
    cases h
    exact ⟨by simp, rfl, rfl⟩
  | cons c configs ih =>
    rw [mapM_cons] at h
    obtain ⟨wp, hwp, h⟩ := bind_eq_some_iff.1 h
    obtain ⟨rest, hrest, h⟩ := bind_eq_some_iff.1 h
    cases h
    obtain ⟨hok, hconfig, hrunning⟩ := init_ok hwp
    obtain ⟨hoks, hconfigs, htotal⟩ := ih hrest
    refine ⟨forall_mem_cons.2 ⟨hok, hoks⟩, by rw [map_cons, hconfig, hconfigs], ?_⟩
    rw [totalRunning] at htotal ⊢
    rw [map_cons, sum_cons, hrunning, htotal]
    rfl

theorem Master.start_ok {config : GlobalConfig} {attempts : List Attempt} {m : Master}
    (hstart : ∀ c ∈ configs, c.pm = .dynamic → c.pmStartServers ≤ c.pmMaxChildren)
    (h : Master.start config configs attempts = some m) :
    m.Ok ∧ m.pools.map (·.config) = configs ∧ m.globals.config = config := by
  obtain ⟨pools, hpools, h⟩ := bind_eq_some_iff.1 h
  obtain ⟨⟨g, pools'⟩, hinit, h⟩ := bind_eq_some_iff.1 h
  cases h
  obtain ⟨hok, hconfigs, htotal⟩ := mapM_init hpools
  have hwithin : (init config).Within := by
    rw [Globals.Within]
    simp only [Globals.init]
    omega
  have hkeep := createInitial_keeps attempts hok hwithin (fun wp hwp => hstart wp.config (by
    rw [← hconfigs]
    exact mem_map_of_mem hwp)) hinit
  have hinitial : (Master.mk (init config) pools).Ok := ⟨hok, htotal.symm, hwithin⟩
  exact ⟨hkeep.master hinitial, hkeep.configs.trans hconfigs, hkeep.global⟩

/-- **FPM keeps its limits and shares no slot.** In every state that a run reaches, each pool's counter is the number of
its children and at most `pm.max_children`, the global counter is the sum of them and at most `process.max` if that is
set, the used slots are those of the children, each with one child, and there is no slot to allocate only if all
`pm.max_children` are used. -/
theorem Master.run_ok (config : GlobalConfig) (configs : List PoolConfig)
    (hstart : ∀ c ∈ configs, c.pm = .dynamic → c.pmStartServers ≤ c.pmMaxChildren)
    (attempts : List Attempt) (events : List Event) (m : Master)
    (h : (Master.start config configs attempts).bind (·.run events) = some m) :
    m.pools.map (·.config) = configs ∧
      (∀ wp ∈ m.pools, wp.runningChildren = wp.children.length ∧
        wp.runningChildren ≤ wp.config.pmMaxChildren ∧
        (∀ i, wp.scoreboard.Used i ↔ ∃ c ∈ wp.children, c.scoreboardI = i) ∧
        (wp.children.map (·.scoreboardI)).Nodup ∧
        (wp.scoreboard.procAlloc = none ↔ ∀ i, 0 ≤ i → i < wp.config.pmMaxChildren → wp.scoreboard.Used i)) ∧
      m.globals.runningChildren = (m.pools.map (·.runningChildren)).sum ∧
      (1 ≤ config.processMax → m.globals.runningChildren ≤ config.processMax) := by
  obtain ⟨m₀, hm₀, hrun⟩ := bind_eq_some_iff.1 h
  obtain ⟨hok₀, hconfigs₀, hconfig₀⟩ := Master.start_ok hstart hm₀
  have hkeep := run_keeps hok₀ hrun
  have hok := hkeep.master hok₀
  have hconfig : m.globals.config = config := hkeep.global.trans hconfig₀
  refine ⟨hkeep.configs.trans hconfigs₀, ?_, hok.total, ?_⟩
  · intro wp hwp
    have hpool := hok.pools wp hwp
    refine ⟨hpool.running, hpool.limit, ?_, hpool.nodup, ?_⟩
    · intro i
      rw [hpool.used, slots, List.mem_map]
    · rw [procAlloc_eq_none_iff, hpool.nprocs]
  · intro hset
    have hwithin : m.globals.config.processMax < 1 ∨ m.globals.runningChildren ≤ m.globals.config.processMax :=
      hok.within
    rw [hconfig] at hwithin
    omega

/-- A dynamic pool and an on-demand pool. -/
def twoPools : List PoolConfig := [⟨.dynamic, 2, 1, 1, 1, 10⟩, ⟨.ondemand, 1, 0, 0, 0, 10⟩]

/-- The child of the first pool is started, one for a connection to the second, and the first one crashes. -/
def crashRun : Option Master :=
  (Master.start ⟨3, 0, 0⟩ twoPools [.forked 10 ⟨1, 0⟩]).bind
    (·.run [.accept 1 ⟨fun _ => false, fun _ => 0, 2⟩ [.forked 11 ⟨2, 0⟩],
      .childExits [⟨10, .signaled sigsegv, 3⟩] [.forked 12 ⟨3, 0⟩]])

theorem Master.run_ok_crash : ∃ m, crashRun = some m ∧ m.globals.runningChildren = 2 ∧
    m.globals.runningChildren = (m.pools.map (·.runningChildren)).sum := by
  obtain ⟨m, hm⟩ := isSome_iff_exists.1 (show crashRun.isSome = true by decide)
  have hrunning : crashRun.map (·.globals.runningChildren) = some 2 := by decide
  rw [hm] at hrunning
  have hok := Master.run_ok ⟨3, 0, 0⟩ twoPools (by decide) _ _ m hm
  exact ⟨m, hm, some.inj hrunning, hok.2.2.1⟩

end PhpSandbox.Fpm
