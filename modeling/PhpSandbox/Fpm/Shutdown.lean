import PhpSandbox.Fpm.Children

/-!
# Shutting down

The timers of `sapi/fpm/fpm/fpm_events.c`, and how `fpm_process_ctl.c` uses one of them to end children that do not end
by themselves: a signal is sent to all children, a timer is set, and when it fires the next signal is sent.

## The model

`EventLoop` is the master process with its queue of timers; the queue is the list of the events in it, the head first.
Timers other than `pctl_event` are any that do not change the queue from inside, as those of the source are. Times are
in microseconds. What happens while the loop waits (a signal to the master, the end of a child, a timer that is set) and
a walk over the timers are the actions; each reading of the clock is part of the action. A product that does not fit
into an `int` wraps around. `none` is a master that is gone.

## What is proved

A timer that is set again in its own callback is still in the queue then; so it is not added, and after the callback it
is deleted. Therefore only one signal is sent after the first: for a reload or when finishing, `SIGKILL` is never sent
(`run_set`, `escalates_iff`). This is about every state with a queue without duplicates and a right count of children,
as every state of a run is (`Ok.run`).
-/

namespace PhpSandbox.Fpm

open List Option Function

/-! ### The state -/

/-- A `struct fpm_event_s` for a timer. -/
inductive TimerId where
  /-- `pctl_event`. -/
  | pctl
  /-- Another timer. -/
  | other (i : ℕ)
  deriving DecidableEq

open TimerId

/-- What is in a `struct fpm_event_s`. -/
structure Timer where
  timeout : ℕ
  frequency : ℕ
  /-- `flags & FPM_EV_PERSIST`. -/
  persist : Bool

/-- A call of `fpm_pctl_kill_all`. -/
structure Kill where
  /-- When it was made. -/
  time : ℕ
  /-- The signal. -/
  signal : Signal
  /-- The children it was sent to. -/
  pids : List ℕ

/-- The master process. -/
structure EventLoop where
  /-- The events. -/
  timers : TimerId → Timer
  /-- `fpm_event_queue_timer`. -/
  queue : List TimerId
  /-- `fpm_globals`. -/
  globals : Globals
  /-- The children of all pools. -/
  children : List ℕ
  /-- `process_control_timeout`, in seconds. -/
  processControlTimeout : ℕ
  /-- The signals that were sent to all children. -/
  kills : List Kill

/-! ### Timers -/

/-- A product of type `int`, as an `unsigned long int`. -/
def unsignedLong (n : ℕ) : ℕ := if n % 2 ^ 32 < 2 ^ 31 then n % 2 ^ 32 else n % 2 ^ 32 + (2 ^ 64 - 2 ^ 32)

namespace EventLoop

variable (s : EventLoop)

/-- `fpm_event_queue_add`. -/
def queueAdd (ev : TimerId) : EventLoop :=
  if ev ∈ s.queue then s else { s with queue := ev :: s.queue }

/-- `fpm_event_set_timer` and `fpm_event_add`, with a frequency in milliseconds. -/
def eventAdd (ev : TimerId) (persist : Bool) (frequency now : ℕ) : EventLoop :=
  { s with
    timers := update s.timers ev ⟨now + frequency * 1000, frequency * 1000, persist⟩ }.queueAdd ev

/-- `fpm_pctl_timeout_set`. -/
def timeoutSet (sec now : ℕ) : EventLoop := s.eventAdd .pctl false (unsignedLong (sec * 1000)) now

/-- `fpm_pctl_kill_all`. -/
def killAll (signal : Signal) (now : ℕ) : EventLoop :=
  { s with kills := s.kills ++ [⟨now, signal, s.children⟩] }

/-- `fpm_pctl_action_next`. -/
def actionNext (s : EventLoop) (now : ℕ) : Option EventLoop :=
  s.globals.actionNext.map fun g =>
    let timeout := if s.globals.signalSent = 0 then s.processControlTimeout else 1
    ({ s with globals := g }.killAll g.signalSent now).timeoutSet timeout now

/-- `fpm_pctl(new_state, FPM_PCTL_ACTION_SET)`. -/
def pctlSet (new : PctlState) (now : ℕ) : Option EventLoop :=
  if s.globals.state = new then some s
  else if s.globals.state.overriddenBy new then
    { s with globals := { s.globals with signalSent := 0, state := new } }.actionNext now
  else some s

/-- `fpm_event_fire`; the callback of another timer has no effect here. -/
def fire (now : ℕ) : TimerId → Option EventLoop
  | .pctl => s.actionNext now
  | .other _ => some s

/-- The walk over the timers. `check` is the time when each of them is looked at, and `arm` the time when `pctl_event`
is set in its callback. -/
def timersLoop (check : TimerId → ℕ) (arm : ℕ) : List TimerId → EventLoop → Option EventLoop
  | [], s => some s
  | ev :: q, s =>
    if (s.timers ev).timeout ≤ check ev then
      (s.fire arm ev).bind fun s =>
        if (s.timers ev).persist then
          timersLoop check arm q
            { s with
              timers := update s.timers ev
                { s.timers ev with timeout := check ev + (s.timers ev).frequency } }
        else timersLoop check arm q { s with queue := s.queue.erase ev }
    else timersLoop check arm q s

/-- A child is started (`fpm_child_link`), which only happens in the normal state. -/
def childForked (pid : ℕ) : EventLoop :=
  if s.globals.canSpawnChildren then
    { s with
      globals := { s.globals with runningChildren := s.globals.runningChildren + 1 }
      children := pid :: s.children }
  else s

/-- A child ends (`fpm_child_unlink` and `fpm_pctl_child_exited`). -/
def childExited (s : EventLoop) (pid : ℕ) : Option EventLoop :=
  if pid ∈ s.children then
    { s.globals with runningChildren := s.globals.runningChildren - 1 }.childExited.map fun g =>
      { s with globals := g, children := s.children.erase pid }
  else some s

end EventLoop

/-- What happens. -/
inductive LoopAction where
  /-- `fpm_pctl` with `FPM_PCTL_ACTION_SET`. -/
  | set (new : PctlState) (now : ℕ)
  /-- A child is started. -/
  | childForked (pid : ℕ)
  /-- A child ends. -/
  | childExited (pid : ℕ)
  /-- Another timer is set. -/
  | addTimer (i : ℕ) (persist : Bool) (frequency now : ℕ)
  /-- A walk over the timers. -/
  | timers (check : TimerId → ℕ) (arm : ℕ)

namespace EventLoop

/-- One action. -/
def step (s : EventLoop) : LoopAction → Option EventLoop
  | .set new now => s.pctlSet new now
  | .childForked pid => some (s.childForked pid)
  | .childExited pid => s.childExited pid
  | .addTimer i persist frequency now => some (s.eventAdd (.other i) persist frequency now)
  | .timers check arm => s.timersLoop check arm s.queue

/-- A run. -/
def run (s : EventLoop) (actions : List LoopAction) : Option EventLoop := actions.foldlM step s

/-- The master before its first child is started and its first timer is set. -/
def start (timers : TimerId → Timer) (config : GlobalConfig) (processControlTimeout : ℕ) : EventLoop where
  timers := timers
  queue := []
  globals := .init config
  children := []
  processControlTimeout := processControlTimeout
  kills := []

end EventLoop

/-! ### What is expected -/

/-- The signals that were sent to a child, and when. -/
def signalsTo (pid : ℕ) (kills : List Kill) : List (ℕ × Signal) :=
  kills.filterMap fun k => if pid ∈ k.pids then some (k.time, k.signal) else none

/-- The walks over the timers: when `pctl_event` is looked at, and when it is set in its callback. -/
def walks (actions : List LoopAction) : List (ℕ × ℕ) :=
  actions.filterMap fun
    | .timers check arm => some (check .pctl, arm)
    | _ => none

/-- Each of the signals is sent in the first walk at or after the deadline; the next deadline is a second later. -/
def escalate : List Signal → ℕ → List (ℕ × ℕ) → List (ℕ × Signal)
  | [], _, _ => []
  | _ :: _, _, [] => []
  | signal :: signals, deadline, (check, arm) :: ps =>
    if deadline ≤ check then (arm, signal) :: escalate signals (arm + 1000000) ps
    else escalate (signal :: signals) deadline ps

/-- The signals that are expected after the normal state is left: `SIGQUIT` (unless terminating), `SIGTERM` and
`SIGKILL`. -/
def expected (sec : ℕ) (new : PctlState) (now : ℕ) (ps : List (ℕ × ℕ)) : List (ℕ × Signal) :=
  if new = .terminating then (now, sigterm) :: escalate [sigkill] (now + sec * 1000000) ps
  else (now, sigquit) :: escalate [sigterm, sigkill] (now + sec * 1000000) ps

/-- An action that neither ends the child nor changes the state. -/
def LoopAction.Allowed (pid : ℕ) (state : PctlState) : LoopAction → Prop
  | .set new _ => new = state ∨ state.overriddenBy new = false
  | .childExited pid' => pid' ≠ pid
  | _ => True

/-- After `fpm_pctl` sets the state, the child is sent the expected signals. -/
def EventLoop.SendsExpected (s : EventLoop) (pid : ℕ) (new : PctlState) (now : ℕ) : Prop :=
  ∀ actions : List LoopAction, (∀ a ∈ actions, a.Allowed pid new) →
    ∃ s', s.run (.set new now :: actions) = some s' ∧
      signalsTo pid s'.kills = signalsTo pid s.kills ++ expected s.processControlTimeout new now (walks actions)

/-- Time advances: there are walks at arbitrarily late times. -/
def Advances (actions : ℕ → LoopAction) : Prop :=
  ∀ time, ∃ n check arm, actions n = .timers check arm ∧ time ≤ check .pctl

/-- After `fpm_pctl` sets the state, the child is sent `SIGKILL` at some time. -/
def EventLoop.EventuallyKills (s : EventLoop) (pid : ℕ) (new : PctlState) (now : ℕ) : Prop :=
  ∀ actions : ℕ → LoopAction, (∀ n, (actions n).Allowed pid new) → Advances actions →
    ∃ n s' sent, s.run (.set new now :: (List.range n).map actions) = some s' ∧
      signalsTo pid s'.kills = signalsTo pid s.kills ++ sent ∧ sigkill ∈ sent.map Prod.snd

/-! ### What the other timers do not change -/

namespace EventLoop

variable {s s' s'' : EventLoop} {pid : ℕ} {new : PctlState} {signal : Signal} {deadline : ℕ}

/-- The queue has no event twice, and the children are counted. -/
structure Ok (s : EventLoop) : Prop where
  nodup : s.queue.Nodup
  count : s.globals.runningChildren = s.children.length

/-- Nothing that is about `pctl_event` is different. -/
structure Frame (s s' : EventLoop) : Prop where
  globals : s'.globals = s.globals
  children : s'.children = s.children
  processControlTimeout : s'.processControlTimeout = s.processControlTimeout
  kills : s'.kills = s.kills
  timer : s'.timers .pctl = s.timers .pctl
  mem : pctl ∈ s'.queue ↔ pctl ∈ s.queue
  nodup : s.queue.Nodup → s'.queue.Nodup

theorem Frame.refl (s : EventLoop) : Frame s s := ⟨rfl, rfl, rfl, rfl, rfl, Iff.rfl, id⟩

theorem Frame.trans (h : Frame s s') (h' : Frame s' s'') : Frame s s'' :=
  ⟨h'.globals.trans h.globals, h'.children.trans h.children,
    h'.processControlTimeout.trans h.processControlTimeout, h'.kills.trans h.kills, h'.timer.trans h.timer,
    h'.mem.trans h.mem, h'.nodup ∘ h.nodup⟩

theorem Frame.ok (h : Frame s s') (hs : s.Ok) : s'.Ok := by
  refine ⟨h.nodup hs.nodup, ?_⟩
  rw [h.globals, h.children]
  exact hs.count

theorem pctl_ne_other (i : ℕ) : pctl ≠ .other i := nofun

theorem eventAdd_other (s : EventLoop) (i : ℕ) (persist : Bool) (frequency now : ℕ) :
    Frame s (s.eventAdd (.other i) persist frequency now) := by
  have htimer : update s.timers (.other i) ⟨now + frequency * 1000, frequency * 1000, persist⟩ .pctl =
      s.timers .pctl := update_of_ne (pctl_ne_other i) _ _
  rw [eventAdd, queueAdd]
  split_ifs with hmem
  · exact ⟨rfl, rfl, rfl, rfl, htimer, Iff.rfl, id⟩
  · refine ⟨rfl, rfl, rfl, rfl, htimer, ?_, fun h => nodup_cons.mpr ⟨hmem, h⟩⟩
    exact ⟨fun h => (mem_cons.mp h).resolve_left (pctl_ne_other i), mem_cons_of_mem _⟩

/-- One other timer in the walk. -/
theorem timersLoop_other (s : EventLoop) (check : TimerId → ℕ) (arm i : ℕ) (q : List TimerId) :
    ∃ s', Frame s s' ∧ timersLoop check arm (.other i :: q) s = timersLoop check arm q s' := by
  rw [timersLoop]
  split_ifs with htime
  · rw [fire, bind_some]
    split_ifs
    · refine ⟨_, ?_, rfl⟩
      refine ⟨rfl, rfl, rfl, rfl, ?_, Iff.rfl, id⟩
      simp only [update_of_ne (pctl_ne_other i)]
    · refine ⟨_, ?_, rfl⟩
      exact ⟨rfl, rfl, rfl, rfl, rfl, mem_erase_of_ne (pctl_ne_other i), Nodup.erase _⟩
  · exact ⟨s, .refl s, rfl⟩

/-- The walk over other timers, by induction on the queue. -/
theorem timersLoop_append (s : EventLoop) (check : TimerId → ℕ) (arm : ℕ) {q : List TimerId} (q' : List TimerId)
    (h : pctl ∉ q) :
    ∃ s', Frame s s' ∧ timersLoop check arm (q ++ q') s = timersLoop check arm q' s' := by
  induction q generalizing s with
  | nil => exact ⟨s, .refl s, rfl⟩
  | cons ev q ih =>
    rw [mem_cons, not_or] at h
    cases ev with
    | pctl => exact absurd rfl h.1
    | other i =>
      obtain ⟨s₁, hframe₁, hloop₁⟩ := timersLoop_other s check arm i (q ++ q')
      obtain ⟨s₂, hframe₂, hloop₂⟩ := ih s₁ h.2
      exact ⟨s₂, hframe₁.trans hframe₂, hloop₁.trans hloop₂⟩

/-- A walk in which `pctl_event` is not in the queue. -/
theorem timers_of_not_mem (h : pctl ∉ s.queue) (check : TimerId → ℕ) (arm : ℕ) :
    ∃ s', s.step (.timers check arm) = some s' ∧ Frame s s' := by
  obtain ⟨s', hframe, hloop⟩ := timersLoop_append s check arm [] h
  rw [append_nil] at hloop
  exact ⟨s', hloop, hframe⟩

/-! ### The timer is set -/

/-- The signal after another one. -/
def nextAfter (signal : Signal) : Signal := if signal = sigquit then sigterm else sigkill

/-- A signal was sent, and the timer is set. -/
structure Armed (s : EventLoop) (new : PctlState) (signal : Signal) (deadline : ℕ) : Prop where
  state : s.globals.state = new
  signalSent : s.globals.signalSent = signal
  mem : pctl ∈ s.queue
  timeout : (s.timers .pctl).timeout = deadline
  persist : (s.timers .pctl).persist = false

theorem Frame.armed (h : Frame s s') (hs : s.Armed new signal deadline) : s'.Armed new signal deadline :=
  ⟨by rw [h.globals, hs.state], by rw [h.globals, hs.signalSent], h.mem.mpr hs.mem, by rw [h.timer, hs.timeout],
    by rw [h.timer, hs.persist]⟩

/-- `fpm_pctl_timeout_set`. -/
theorem timeoutSet_spec (s : EventLoop) (sec now : ℕ) :
    (s.timeoutSet sec now).Armed s.globals.state s.globals.signalSent (now + unsignedLong (sec * 1000) * 1000) ∧
      (s.timeoutSet sec now).globals = s.globals ∧ (s.timeoutSet sec now).children = s.children ∧
      (s.timeoutSet sec now).kills = s.kills ∧ (s.queue.Nodup → (s.timeoutSet sec now).queue.Nodup) := by
  have htimer : ∀ t : Timer, update s.timers .pctl t .pctl = t := fun t => update_self _ _ _
  rw [timeoutSet, eventAdd, queueAdd]
  split_ifs with hmem
  · exact ⟨⟨rfl, rfl, hmem, congrArg Timer.timeout (htimer _), congrArg Timer.persist (htimer _)⟩, rfl, rfl, rfl, id⟩
  · exact ⟨⟨rfl, rfl, mem_cons_self, congrArg Timer.timeout (htimer _), congrArg Timer.persist (htimer _)⟩, rfl,
      rfl, rfl, fun h => nodup_cons.mpr ⟨hmem, h⟩⟩

/-! ### Every run keeps the queue and the count -/

variable {now : ℕ}

theorem Ok.actionNext (h : s.Ok) (hnext : s.actionNext now = some s') : s'.Ok := by
  obtain ⟨g, hg, rfl⟩ := map_eq_some_iff.mp hnext
  obtain ⟨-, hglobals, hchildren, -, hnodup⟩ := timeoutSet_spec ({ s with globals := g }.killAll g.signalSent now)
    (if s.globals.signalSent = 0 then s.processControlTimeout else 1) now
  refine ⟨hnodup h.nodup, ?_⟩
  rw [hglobals, hchildren]
  exact (actionNext_same hg).2.trans h.count

/-- A walk over the timers, by induction on those that are left. -/
theorem Ok.timersLoop {check : TimerId → ℕ} {arm : ℕ} {q : List TimerId} (h : s.Ok)
    (hloop : timersLoop check arm q s = some s') : s'.Ok := by
  induction q generalizing s with
  | nil => exact some.inj hloop ▸ h
  | cons ev q ih =>
    rw [EventLoop.timersLoop] at hloop
    split_ifs at hloop
    · obtain ⟨s₁, hfire, hrest⟩ := bind_eq_some_iff.mp hloop
      have h₁ : s₁.Ok := by
        cases ev with
        | pctl => exact h.actionNext hfire
        | other i => exact some.inj hfire ▸ h
      split_ifs at hrest
      · refine ih ?_ hrest
        exact ⟨h₁.nodup, h₁.count⟩
      · refine ih ?_ hrest
        exact ⟨h₁.nodup.erase _, h₁.count⟩
    · exact ih h hloop

theorem Ok.childExited (h : s.Ok) (hexit : s.childExited pid = some s') : s'.Ok := by
  rw [EventLoop.childExited] at hexit
  split_ifs at hexit with hmem
  · obtain ⟨g, hg, rfl⟩ := map_eq_some_iff.mp hexit
    have hpos := length_pos_of_mem hmem
    refine ⟨h.nodup, ?_⟩
    simp only [childExited_same hg, h.count, length_erase_of_mem hmem]
    omega
  · exact some.inj hexit ▸ h

/-- **Every action keeps the queue without duplicates and the count right.** -/
theorem Ok.step {action : LoopAction} (h : s.Ok) (hstep : s.step action = some s') : s'.Ok := by
  cases action with
  | set new now =>
    rw [EventLoop.step, pctlSet] at hstep
    split_ifs at hstep
    · exact some.inj hstep ▸ h
    · have hok : Ok { s with globals := { s.globals with signalSent := 0, state := new } } := ⟨h.nodup, h.count⟩
      exact hok.actionNext hstep
    · exact some.inj hstep ▸ h
  | childForked pid =>
    rw [← some.inj hstep, childForked]
    split_ifs
    · exact ⟨h.nodup, by simp [h.count]⟩
    · exact h
  | childExited pid => exact h.childExited hstep
  | addTimer i persist frequency now => exact some.inj hstep ▸ (eventAdd_other s i persist frequency now).ok h
  | timers check arm => exact h.timersLoop hstep

theorem Ok.run {actions : List LoopAction} (h : s.Ok) (hrun : s.run actions = some s') : s'.Ok := by
  induction actions generalizing s with
  | nil => exact some.inj hrun ▸ h
  | cons action actions ih =>
    obtain ⟨s₁, hstep, hrest⟩ := bind_eq_some_iff.mp hrun
    exact ih (h.step hstep) hrest

theorem ok_start (timers : TimerId → Timer) (config : GlobalConfig) (processControlTimeout : ℕ) :
    (start timers config processControlTimeout).Ok := ⟨nodup_nil, rfl⟩

/-! ### One more signal -/

/-- The next signal is sent, if there are children. -/
theorem actionNext_spec (h : s.Ok) (hne : s.children ≠ []) (now : ℕ) :
    ∃ s', s.actionNext now = some s' ∧ s'.children = s.children ∧
      s'.kills = s.kills ++ [⟨now, s.globals.nextSignal, s.children⟩] ∧
      s'.Armed s.globals.state s.globals.nextSignal
        (now + unsignedLong ((if s.globals.signalSent = 0 then s.processControlTimeout else 1) * 1000) * 1000) := by
  have hcount : s.globals.runningChildren ≠ 0 := by
    rw [h.count]
    exact_mod_cast fun hlen => hne (length_eq_zero_iff.mp hlen)
  have hnext : s.actionNext now = s.globals.actionNext.map _ := rfl
  rw [Globals.actionNext, if_neg hcount, map_some, map_some] at hnext
  obtain ⟨harmed, -, hchildren, hkills, -⟩ := timeoutSet_spec
    ({ s with globals := { s.globals with signalSent := s.globals.nextSignal } }.killAll s.globals.nextSignal now)
    (if s.globals.signalSent = 0 then s.processControlTimeout else 1) now
  exact ⟨_, hnext, hchildren, hkills, harmed⟩

/-- A walk comes to the timer, and there is none behind it. -/
theorem Armed.walk_to (h : s.Armed new signal deadline) (hs : s.Ok) (check : TimerId → ℕ) (arm : ℕ) :
    ∃ q s₁, pctl ∉ q ∧ Frame s s₁ ∧
      s.step (.timers check arm) = timersLoop check arm (.pctl :: q) s₁ := by
  obtain ⟨q₁, q₂, hq, hq₁⟩ := eq_append_cons_of_mem h.mem
  obtain ⟨s₁, hframe, hloop⟩ := timersLoop_append s check arm (.pctl :: q₂) hq₁
  have hnodup := hs.nodup
  rw [hq] at hnodup
  refine ⟨q₂, s₁, (nodup_cons.mp hnodup.of_append_right).1, hframe, ?_⟩
  rw [step, hq, hloop]

variable {check : TimerId → ℕ}

/-- A walk before the deadline. -/
theorem Armed.timers_before (h : s.Armed new signal deadline) (hs : s.Ok) (hcheck : check .pctl < deadline) (arm : ℕ) :
    ∃ s', s.step (.timers check arm) = some s' ∧ Frame s s' := by
  obtain ⟨q₂, s₁, hq₂, hframe₁, hloop₁⟩ := h.walk_to hs check arm
  obtain ⟨s₂, hframe₂, hloop₂⟩ := timersLoop_append s₁ check arm [] hq₂
  have hnot : ¬(s₁.timers .pctl).timeout ≤ check .pctl := by
    rw [(hframe₁.armed h).timeout]
    exact Nat.not_le.mpr hcheck
  refine ⟨s₂, ?_, hframe₁.trans hframe₂⟩
  rw [append_nil] at hloop₂
  rw [hloop₁, timersLoop, if_neg hnot, hloop₂]
  rfl

/-- **A walk at or after the deadline**: the next signal is sent, and the timer is not in the queue any more. -/
theorem Armed.timers_after (h : s.Armed new signal deadline) (hs : s.Ok) (hne : s.children ≠ [])
    (hsignal : signal ≠ 0) (hcheck : deadline ≤ check .pctl) (arm : ℕ) :
    ∃ s', s.step (.timers check arm) = some s' ∧ pctl ∉ s'.queue ∧ s'.children = s.children ∧
      s'.globals.state = new ∧ s'.kills = s.kills ++ [⟨arm, nextAfter signal, s.children⟩] := by
  obtain ⟨q₂, s₁, hq₂, hframe₁, hloop₁⟩ := h.walk_to hs check arm
  have h₁ := hframe₁.armed h
  have hok₁ := hframe₁.ok hs
  have hnext : s₁.globals.nextSignal = nextAfter signal := by
    rw [Globals.nextSignal, h₁.signalSent, if_neg hsignal]
    rfl
  obtain ⟨s₂, hfire, hchildren, hkills, harmed⟩ := actionNext_spec hok₁ (hframe₁.children ▸ hne) arm
  rw [hnext] at hkills harmed
  -- the event is deleted, and the walk goes on
  obtain ⟨s₃, hframe₃, hloop₃⟩ := timersLoop_append { s₂ with queue := s₂.queue.erase .pctl } check arm [] hq₂
  rw [append_nil] at hloop₃
  have hdue : (s₁.timers .pctl).timeout ≤ check .pctl := by
    rw [h₁.timeout]
    exact hcheck
  refine ⟨s₃, ?_, ?_, ?_, ?_, ?_⟩
  · rw [hloop₁, timersLoop, if_pos hdue, fire, hfire, bind_some, harmed.persist, if_neg Bool.false_ne_true, hloop₃]
    rfl
  · rw [hframe₃.mem]
    exact (hok₁.actionNext hfire).nodup.not_mem_erase
  · rw [hframe₃.children]
    exact hchildren.trans hframe₁.children
  · rw [hframe₃.globals]
    exact harmed.state.trans h₁.state
  · rw [hframe₃.kills]
    refine hkills.trans ?_
    rw [hframe₁.kills, hframe₁.children]

/-! ### Runs -/

variable {action : LoopAction}

/-- An action that has nothing to do with the timer: it changes neither the state nor the signals that were sent, and
the child stays. -/
theorem step_other (new : PctlState) (signal : Signal) (deadline : ℕ) (hs : s.Ok)
    (hpid : pid ∈ s.children) (hallowed : action.Allowed pid s.globals.state)
    (hnot : ∀ check arm, action ≠ .timers check arm) :
    ∃ s', s.step action = some s' ∧ pid ∈ s'.children ∧ s'.kills = s.kills ∧
      s'.globals.state = s.globals.state ∧ (pctl ∈ s'.queue ↔ pctl ∈ s.queue) ∧
      (s.Armed new signal deadline → s'.Armed new signal deadline) := by
  cases action with
  | set new' now =>
    refine ⟨s, ?_, hpid, rfl, rfl, Iff.rfl, id⟩
    rw [step, pctlSet]
    rcases hallowed with rfl | hno
    · rw [if_pos rfl]
    · rw [hno, if_neg Bool.false_ne_true, ite_self]
  | childForked pid' =>
    refine ⟨_, rfl, ?_⟩
    rw [childForked]
    split_ifs
    · exact ⟨mem_cons_of_mem _ hpid, rfl, rfl, Iff.rfl, fun h => ⟨h.state, h.signalSent, h.mem, h.timeout, h.persist⟩⟩
    · exact ⟨hpid, rfl, rfl, Iff.rfl, id⟩
  | childExited pid' =>
    rw [step, childExited]
    split_ifs with hmem
    · have hleft : pid ∈ s.children.erase pid' := (mem_erase_of_ne (Ne.symm hallowed)).mpr hpid
      have hpos : s.globals.runningChildren - 1 ≠ 0 := by
        have := length_pos_of_mem hleft
        rw [length_erase_of_mem hmem] at this
        rw [hs.count]
        omega
      have hstay : Globals.childExited { s.globals with runningChildren := s.globals.runningChildren - 1 } =
          some { s.globals with runningChildren := s.globals.runningChildren - 1 } := by
        rw [Globals.childExited]
        split_ifs <;> rfl
      rw [hstay]
      exact ⟨_, rfl, hleft, rfl, rfl, Iff.rfl, fun h => ⟨h.state, h.signalSent, h.mem, h.timeout, h.persist⟩⟩
    · exact ⟨s, rfl, hpid, rfl, rfl, Iff.rfl, id⟩
  | addTimer i persist frequency now =>
    have hframe := eventAdd_other s i persist frequency now
    exact ⟨_, rfl, hframe.children ▸ hpid, hframe.kills, by rw [hframe.globals], hframe.mem, hframe.armed⟩
  | timers check arm => exact absurd rfl (hnot check arm)

theorem walks_cons_other (hnot : ∀ check arm, action ≠ .timers check arm)
    (actions : List LoopAction) : walks (action :: actions) = walks actions := by
  cases action with
  | timers check arm => exact absurd rfl (hnot check arm)
  | _ => rfl

theorem walks_cons_timers (check : TimerId → ℕ) (arm : ℕ) (actions : List LoopAction) :
    walks (.timers check arm :: actions) = (check .pctl, arm) :: walks actions := rfl

variable {actions : List LoopAction}

theorem run_cons (hstep : s.step action = some s') (hrun : s'.run actions = some s'') :
    s.run (action :: actions) = some s'' := by
  rw [run, foldlM_cons, hstep]
  exact hrun

/-- Without the timer nothing more is sent. -/
theorem run_spent (hs : s.Ok) (hpid : pid ∈ s.children) (hmem : pctl ∉ s.queue)
    (hallowed : ∀ a ∈ actions, a.Allowed pid s.globals.state) :
    ∃ s', s.run actions = some s' ∧ s'.kills = s.kills := by
  induction actions generalizing s with
  | nil => exact ⟨s, rfl, rfl⟩
  | cons action actions ih =>
    rw [forall_mem_cons] at hallowed
    obtain ⟨s₁, hstep, hpid₁, hkills₁, hstate₁, hmem₁⟩ : ∃ s₁, s.step action = some s₁ ∧
        pid ∈ s₁.children ∧ s₁.kills = s.kills ∧ s₁.globals.state = s.globals.state ∧ pctl ∉ s₁.queue := by
      by_cases hnot : ∀ check arm, action ≠ .timers check arm
      · obtain ⟨s₁, hstep, hpid₁, hkills₁, hstate₁, hmem₁, -⟩ := step_other .normal 0 0 hs hpid hallowed.1 hnot
        exact ⟨s₁, hstep, hpid₁, hkills₁, hstate₁, fun h => hmem (hmem₁.mp h)⟩
      simp only [not_forall, not_not] at hnot
      obtain ⟨check, arm, rfl⟩ := hnot
      obtain ⟨s₁, hstep, hframe⟩ := timers_of_not_mem hmem check arm
      exact ⟨s₁, hstep, hframe.children ▸ hpid, hframe.kills, by rw [hframe.globals],
        fun h => hmem (hframe.mem.mp h)⟩
    obtain ⟨s', hrun, hkills⟩ := ih (hs.step hstep) hpid₁ hmem₁ (hstate₁ ▸ hallowed.2)
    exact ⟨s', run_cons hstep hrun, hkills.trans hkills₁⟩

theorem escalate_nil (deadline : ℕ) (ps : List (ℕ × ℕ)) : escalate [] deadline ps = [] := by
  rw [escalate]

theorem escalate_single (signal : Signal) (deadline check arm : ℕ) :
    escalate [signal] deadline [(check, arm)] = if deadline ≤ check then [(arm, signal)] else [] := by
  rw [escalate, escalate_nil]
  split_ifs
  · rfl
  · rw [escalate]

theorem signalsTo_append (pid : ℕ) (ks ks' : List Kill) :
    signalsTo pid (ks ++ ks') = signalsTo pid ks ++ signalsTo pid ks' := filterMap_append

/-- **With the timer set, one more signal is sent**, in the first walk at or after the deadline. -/
theorem run_armed (hs : s.Ok) (hpid : pid ∈ s.children) (harmed : s.Armed new signal deadline) (hsignal : signal ≠ 0)
    (hallowed : ∀ a ∈ actions, a.Allowed pid new) :
    ∃ s', s.run actions = some s' ∧
      signalsTo pid s'.kills = signalsTo pid s.kills ++ escalate [nextAfter signal] deadline (walks actions) := by
  induction actions generalizing s with
  | nil => exact ⟨s, rfl, (append_nil _).symm⟩
  | cons action actions ih =>
    rw [forall_mem_cons] at hallowed
    by_cases hnot : ∀ check arm, action ≠ .timers check arm
    · obtain ⟨s₁, hstep, hpid₁, hkills₁, -, -, harmed₁⟩ :=
        step_other new signal deadline hs hpid (harmed.state ▸ hallowed.1) hnot
      obtain ⟨s', hrun, hsignals⟩ := ih (hs.step hstep) hpid₁ (harmed₁ harmed) hallowed.2
      refine ⟨s', run_cons hstep hrun, ?_⟩
      rw [hsignals, hkills₁, walks_cons_other hnot]
    · simp only [not_forall, not_not] at hnot
      obtain ⟨check, arm, rfl⟩ := hnot
      rw [walks_cons_timers, escalate]
      by_cases hcheck : deadline ≤ check .pctl
      · have hne : s.children ≠ [] := ne_nil_of_mem hpid
        obtain ⟨s₁, hstep, hmem₁, hchildren₁, hstate₁, hkills₁⟩ := harmed.timers_after hs hne hsignal hcheck arm
        obtain ⟨s', hrun, hkills⟩ := run_spent (hs.step hstep) (hchildren₁ ▸ hpid) hmem₁ (hstate₁ ▸ hallowed.2)
        refine ⟨s', run_cons hstep hrun, ?_⟩
        rw [hkills, hkills₁, signalsTo_append, if_pos hcheck, escalate_nil]
        simp [signalsTo, if_pos hpid]
      · obtain ⟨s₁, hstep, hframe⟩ := harmed.timers_before hs (Nat.not_le.mp hcheck) arm
        obtain ⟨s', hrun, hsignals⟩ := ih (hs.step hstep) (hframe.children ▸ hpid) (hframe.armed harmed) hallowed.2
        refine ⟨s', run_cons hstep hrun, ?_⟩
        rw [hsignals, hframe.kills, if_neg hcheck]

/-- The first signal. -/
def firstSignal (new : PctlState) : Signal := if new = .terminating then sigterm else sigquit

theorem firstSignal_ne_zero (new : PctlState) : firstSignal new ≠ 0 := by
  rw [firstSignal]
  split_ifs <;> decide

variable {ps : List (ℕ × ℕ)}

theorem mem_of_mem_escalate {signals : List Signal} {k : ℕ × Signal}
    (h : k ∈ escalate signals deadline ps) : k.2 ∈ signals := by
  fun_induction escalate signals deadline ps with
  | case1 | case2 => exact absurd h not_mem_nil
  | case3 signal signals deadline check arm ps hcheck ih =>
    rcases mem_cons.mp h with rfl | h
    · exact mem_cons_self
    · exact mem_cons_of_mem _ (ih h)
  | case4 signal signals deadline check arm ps hcheck ih => exact ih h

/-- Only when terminating, `SIGKILL` is one of the signals. -/
theorem sigkill_notMem (hnot : new ≠ .terminating) (now deadline : ℕ) (ps : List (ℕ × ℕ)) :
    sigkill ∉ ((now, firstSignal new) :: escalate [nextAfter (firstSignal new)] deadline ps).map Prod.snd := by
  rw [firstSignal, if_neg hnot, map_cons, mem_cons, not_or]
  refine ⟨show sigkill ≠ sigquit by decide, fun hmem => ?_⟩
  obtain ⟨k, hk, hsignal⟩ := mem_map.mp hmem
  have hterm := mem_of_mem_escalate hk
  rw [hsignal] at hterm
  exact absurd hterm (by decide)

/-- A signal is sent if there is a walk at or after the deadline. -/
theorem mem_escalate {p : ℕ × ℕ} (hp : p ∈ ps) (hdeadline : deadline ≤ p.1) :
    signal ∈ (escalate [signal] deadline ps).map Prod.snd := by
  induction ps with
  | nil => exact absurd hp not_mem_nil
  | cons q ps ih =>
    rw [escalate]
    split_ifs with hcheck
    · exact mem_cons_self
    · refine ih ((mem_cons.mp hp).resolve_left ?_)
      rintro rfl
      exact hcheck hdeadline

theorem mem_walks {arm : ℕ} (h : LoopAction.timers check arm ∈ actions) : (check .pctl, arm) ∈ walks actions :=
  mem_filterMap.mpr ⟨_, h, rfl⟩

theorem unsignedLong_eq_iff {n : ℕ} (h : n < 2 ^ 64 - 2 ^ 32) : unsignedLong n = n ↔ n < 2 ^ 31 := by
  rw [unsignedLong]
  split_ifs with hsmall <;> omega

section Set

variable (hs : s.Ok) (hpid : pid ∈ s.children) (hne : s.globals.state ≠ new)
  (hover : s.globals.state.overriddenBy new = true)

include hs hpid hne hover

theorem pctlSet_spec (now : ℕ) :
    ∃ s', s.step (.set new now) = some s' ∧ pid ∈ s'.children ∧
      signalsTo pid s'.kills = signalsTo pid s.kills ++ [(now, firstSignal new)] ∧
      s'.Armed new (firstSignal new) (now + unsignedLong (s.processControlTimeout * 1000) * 1000) := by
  have hok : Ok { s with globals := { s.globals with signalSent := 0, state := new } } := ⟨hs.nodup, hs.count⟩
  obtain ⟨s', hnext, hchildren, hkills, harmed⟩ := actionNext_spec hok (ne_nil_of_mem hpid) now
  refine ⟨s', ?_, hchildren ▸ hpid, ?_, harmed⟩
  · rw [step, pctlSet, if_neg hne, if_pos hover, hnext]
  · rw [hkills, signalsTo_append]
    simp only [signalsTo, filterMap_cons, if_pos hpid, filterMap_nil]
    rfl

/-- **What is sent after the state is set**: one signal at once, and one more. -/
theorem run_set (now : ℕ) (hallowed : ∀ a ∈ actions, a.Allowed pid new) :
    ∃ s', s.run (.set new now :: actions) = some s' ∧
      signalsTo pid s'.kills = signalsTo pid s.kills ++ (now, firstSignal new) ::
        escalate [nextAfter (firstSignal new)] (now + unsignedLong (s.processControlTimeout * 1000) * 1000)
          (walks actions) := by
  obtain ⟨s₁, hstep, hpid₁, hsignals₁, harmed⟩ := pctlSet_spec hs hpid hne hover now
  obtain ⟨s', hrun, hsignals⟩ := run_armed (hs.step hstep) hpid₁ harmed (firstSignal_ne_zero new) hallowed
  refine ⟨s', run_cons hstep hrun, ?_⟩
  rw [hsignals, hsignals₁, append_assoc, singleton_append]

/-! ### When the children are killed -/

variable {now : ℕ}

/-- What was expected is what is sent. -/
theorem SendsExpected.sent (h : s.SendsExpected pid new now) (hallowed : ∀ a ∈ actions, a.Allowed pid new) :
    expected s.processControlTimeout new now (walks actions) = (now, firstSignal new) ::
      escalate [nextAfter (firstSignal new)] (now + unsignedLong (s.processControlTimeout * 1000) * 1000)
        (walks actions) := by
  obtain ⟨s₁, hrun₁, hsignals₁⟩ := h actions hallowed
  obtain ⟨s₂, hrun₂, hsignals₂⟩ := run_set hs hpid hne hover now hallowed
  obtain rfl : s₁ = s₂ := some.inj (hrun₁.symm.trans hrun₂)
  exact append_cancel_left (hsignals₁.symm.trans hsignals₂)

/-- If the children are killed, there is one signal before `SIGKILL`: two walks, after both deadlines, show it. -/
theorem SendsExpected.terminating (h : s.SendsExpected pid new now) : new = .terminating := by
  by_contra hnot
  let first := now + s.processControlTimeout * 1000000 + unsignedLong (s.processControlTimeout * 1000) * 1000
  let actions : List LoopAction := [.timers (fun _ => first) first, .timers (fun _ => first + 1000000) first]
  have hallowed : ∀ a ∈ actions, a.Allowed pid new := by
    intro a ha
    rcases mem_pair.mp ha with rfl | rfl <;> trivial
  have hdue : now + s.processControlTimeout * 1000000 ≤ first := by omega
  have hkill : sigkill ∈ (expected s.processControlTimeout new now (walks actions)).map Prod.snd := by
    rw [expected, if_neg hnot]
    simp [actions, walks, escalate, if_pos hdue]
  rw [SendsExpected.sent hs hpid hne hover h hallowed] at hkill
  exact sigkill_notMem hnot _ _ _ hkill

end Set

variable {now : ℕ}

/-- If the timeout is too large for an `int` in milliseconds, one walk, between the deadlines, shows it. -/
theorem SendsExpected.deadline_eq (hs : s.Ok) (hpid : pid ∈ s.children) (hne : s.globals.state ≠ .terminating)
    (hover : s.globals.state.overriddenBy .terminating = true) (h : s.SendsExpected pid .terminating now) :
    unsignedLong (s.processControlTimeout * 1000) * 1000 = s.processControlTimeout * 1000000 := by
  have hwalk : ∀ time, now + s.processControlTimeout * 1000000 ≤ time ↔
      now + unsignedLong (s.processControlTimeout * 1000) * 1000 ≤ time := by
    intro time
    let actions : List LoopAction := [.timers (fun _ => time) time]
    have hallowed : ∀ a ∈ actions, a.Allowed pid .terminating := by
      intro a ha
      obtain rfl := mem_singleton.mp ha
      trivial
    have hsent := SendsExpected.sent hs hpid hne hover h hallowed
    rw [expected, if_pos rfl, walks_cons_timers, walks, filterMap_nil, escalate_single, escalate_single] at hsent
    have hlength := congrArg List.length hsent
    rw [length_cons, length_cons] at hlength
    by_cases hfirst : now + s.processControlTimeout * 1000000 ≤ time <;>
      by_cases hsecond : now + unsignedLong (s.processControlTimeout * 1000) * 1000 ≤ time <;>
      simp [hfirst, hsecond] at hlength ⊢
  have hle := (hwalk _).mp (le_refl _)
  have hge := (hwalk _).mpr (le_refl _)
  omega

/-- When terminating, with a timeout that fits, the expected signals are sent. -/
theorem sendsExpected_terminating (hs : s.Ok) (hpid : pid ∈ s.children) (hne : s.globals.state ≠ .terminating)
    (hover : s.globals.state.overriddenBy .terminating = true) (hfits : s.processControlTimeout * 1000 < 2 ^ 31)
    (now : ℕ) : s.SendsExpected pid .terminating now := by
  intro actions hallowed
  obtain ⟨s', hrun, hsignals⟩ := run_set hs hpid hne hover now hallowed
  have hms : unsignedLong (s.processControlTimeout * 1000) = s.processControlTimeout * 1000 :=
    (unsignedLong_eq_iff (by omega)).mpr hfits
  refine ⟨s', hrun, ?_⟩
  rw [hsignals, hms, expected, if_pos rfl, Nat.mul_assoc]
  rfl

theorem eventuallyKills_of_sendsExpected (h : s.SendsExpected pid .terminating now) :
    s.EventuallyKills pid .terminating now := by
  intro actions hallowed hadvances
  obtain ⟨n, check, arm, hn, hcheck⟩ := hadvances (now + s.processControlTimeout * 1000000)
  have hmem : LoopAction.timers check arm ∈ (List.range (n + 1)).map actions :=
    mem_map.mpr ⟨n, mem_range.mpr (Nat.lt_succ_self n), hn⟩
  obtain ⟨s', hrun, hsignals⟩ := h ((List.range (n + 1)).map actions) (by
    intro a ha
    obtain ⟨i, -, rfl⟩ := mem_map.mp ha
    exact hallowed i)
  refine ⟨n + 1, s', _, hrun, hsignals, ?_⟩
  rw [expected, if_pos rfl]
  exact mem_cons_of_mem _ (mem_escalate (mem_walks hmem) hcheck)

/-- **Children that only `SIGKILL` ends are killed when the master terminates, but not for a reload or when finishing.**
The timeout must fit into an `int` in milliseconds. -/
theorem escalates_iff (hs : s.Ok) (hpid : pid ∈ s.children) (hne : s.globals.state ≠ new)
    (hover : s.globals.state.overriddenBy new = true) (htimeout : s.processControlTimeout < 2 ^ 31) (now : ℕ) :
    s.SendsExpected pid new now ∧ s.EventuallyKills pid new now ↔
      new = .terminating ∧ s.processControlTimeout * 1000 < 2 ^ 31 := by
  constructor
  · rintro ⟨hsends, -⟩
    obtain rfl := SendsExpected.terminating hs hpid hne hover hsends
    have hdeadline := SendsExpected.deadline_eq hs hpid hne hover hsends
    refine ⟨rfl, (unsignedLong_eq_iff (by omega)).mp ?_⟩
    omega
  · rintro ⟨rfl, hfits⟩
    have hsends := sendsExpected_terminating hs hpid hne hover hfits now
    exact ⟨hsends, eventuallyKills_of_sendsExpected hsends⟩

/-- A master with one child, in the normal state, with a timeout of ten seconds. -/
def oneChild : EventLoop where
  timers _ := ⟨0, 0, false⟩
  queue := []
  globals :=
    { config := ⟨0, 0, 0⟩, runningChildren := 1, state := .normal, signalSent := 0, lastFaults := [], fault := 0 }
  children := [7]
  processControlTimeout := 10
  kills := []

/-- It is a master that has started its first child. -/
theorem oneChild_ok : oneChild.Ok :=
  (ok_start (fun _ => ⟨0, 0, false⟩) ⟨0, 0, 0⟩ 10).run (show EventLoop.run _ [.childForked 7] = some oneChild from rfl)

theorem escalates_oneChild : oneChild.SendsExpected 7 .terminating 0 ∧ oneChild.EventuallyKills 7 .terminating 0 :=
  (escalates_iff oneChild_ok (by decide) (by decide) rfl (by decide) 0).mpr ⟨rfl, by decide⟩

/-- For a reload, the child is sent `SIGQUIT` and `SIGTERM`, and never `SIGKILL`. -/
theorem not_escalates_reload :
    ¬ ∃ actions : List LoopAction, (∀ a ∈ actions, a.Allowed 7 .reloading) ∧
      ∀ s', oneChild.run (.set .reloading 0 :: actions) = some s' → sigkill ∈ (signalsTo 7 s'.kills).map Prod.snd := by
  rintro ⟨actions, hallowed, hkilled⟩
  have hne : oneChild.globals.state ≠ .reloading := by decide
  obtain ⟨s', hrun, hsignals⟩ := run_set oneChild_ok (by decide) hne rfl 0 hallowed
  have hmem := hkilled s' hrun
  rw [hsignals] at hmem
  exact sigkill_notMem (by decide) _ _ _ hmem

end EventLoop

end PhpSandbox.Fpm
