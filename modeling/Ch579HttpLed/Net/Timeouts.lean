import Ch579HttpLed.Foundation.Runs
import Ch579HttpLed.Net.SysNow

/-!
# The timeout list of lwIP

Model of `core/timeouts.c` as the firmware configures it.  The list is sorted by
due time, its elements come from the pool `MEMP_SYS_TIMEOUT`, and the main loop
serves it with `sys_check_timeouts`.  Four cyclic timers rearm themselves for
ever; the TCP timer only runs while there are active or time-wait connections.
-/

namespace Ch579HttpLed
namespace Net

open Foundation

/-!
# Data

The elements of the pool are all alike, so the pool is the number of its free
elements.  No caller passes a null handler, so an element always has one.
-/

/-- The functions of `lwip_cyclic_timers`. -/
inductive CyclicHandler where
  | tcpTmr
  | ipReassTmr
  | etharpTmr
  | dhcpCoarseTmr
  | dhcpFineTmr
deriving DecidableEq, Repr

structure LwipCyclicTimer where
  intervalMs : UInt32
  handler : CyclicHandler
deriving DecidableEq, Repr

def tcpTmrInterval : UInt32 := 250

def lwipCyclicTimers : List LwipCyclicTimer :=
  [⟨tcpTmrInterval, .tcpTmr⟩, ⟨1000, .ipReassTmr⟩, ⟨1000, .etharpTmr⟩,
    ⟨60 * 1000, .dhcpCoarseTmr⟩, ⟨500, .dhcpFineTmr⟩]

/-- A `sys_timeout_handler` with its argument. -/
inductive SysTimeoutHandler where
  | lwipCyclicTimer (cyclic : LwipCyclicTimer)
  | tcpipTcpTimer
deriving DecidableEq, Repr

structure SysTimeo where
  time : UInt32
  h : SysTimeoutHandler
deriving DecidableEq, Repr

def mempNumSysTimeout : Nat := 5

structure Timeouts where
  nextTimeout : List SysTimeo
  freeTimeouts : Nat               -- free elements of MEMP_SYS_TIMEOUT
  currentTimeoutDueTime : UInt32
  tcpipTcpTimerActive : Bool
  tcpActivePcbs : Nat              -- length of the list
  tcpTwPcbs : Nat                  -- length of the list
deriving DecidableEq, Repr

/-- Static storage at power-on, with the pool initialised. -/
def Timeouts.powerOn : Timeouts where
  nextTimeout := []
  freeTimeouts := mempNumSysTimeout
  currentTimeoutDueTime := 0
  tcpipTcpTimerActive := false
  tcpActivePcbs := 0
  tcpTwPcbs := 0

/-!
# Arming and disarming
-/

/-- The `for` loop of `sys_timeout_abs`, from the element `t` on. -/
def insertBehind (timeout : SysTimeo) : List SysTimeo -> List SysTimeo
  | [] => []
  | [t] => [t, timeout]
  | t :: next :: rest =>
      if timeLessThan timeout.time next.time then t :: timeout :: next :: rest
      else t :: insertBehind timeout (next :: rest)

def sysTimeoutAbs (absTime : UInt32) (handler : SysTimeoutHandler) (s : Timeouts) :
    Timeouts :=
  if s.freeTimeouts = 0 then s
  else
    let s := { s with freeTimeouts := s.freeTimeouts - 1 }
    let timeout : SysTimeo := ⟨absTime, handler⟩
    match s.nextTimeout with
    | [] => { s with nextTimeout := [timeout] }
    | t :: rest =>
        if timeLessThan timeout.time t.time then
          { s with nextTimeout := timeout :: t :: rest }
        else { s with nextTimeout := insertBehind timeout (t :: rest) }

def sysTimeout (now msecs : UInt32) (handler : SysTimeoutHandler) (s : Timeouts) :
    Timeouts :=
  sysTimeoutAbs (nextTimeoutTime now msecs) handler s

/-!
# The handlers

A handler first calls the function it is for, which may take time and may
register and remove connections.  What is modelled here is the rest of the
handler, after that function has returned; `now` is what it reads then.
-/

def lwipCyclicTimer (now : UInt32) (cyclic : LwipCyclicTimer) (s : Timeouts) : Timeouts :=
  let nextTimeoutTime := s.currentTimeoutDueTime + cyclic.intervalMs
  if timeLessThan nextTimeoutTime now then
    sysTimeoutAbs (now + cyclic.intervalMs) (.lwipCyclicTimer cyclic) s
  else sysTimeoutAbs nextTimeoutTime (.lwipCyclicTimer cyclic) s

def tcpPcbsLeft (s : Timeouts) : Bool :=
  s.tcpActivePcbs ≠ 0 || s.tcpTwPcbs ≠ 0

def tcpipTcpTimer (now : UInt32) (s : Timeouts) : Timeouts :=
  if tcpPcbsLeft s then sysTimeout now tcpTmrInterval .tcpipTcpTimer s
  else { s with tcpipTcpTimerActive := false }

def SysTimeoutHandler.finish (now : UInt32) (s : Timeouts) : SysTimeoutHandler -> Timeouts
  | .lwipCyclicTimer cyclic => Net.lwipCyclicTimer now cyclic s
  | .tcpipTcpTimer => Net.tcpipTcpTimer now s

/-!
# Connections
-/

def tcpTimerNeeded (now : UInt32) (s : Timeouts) : Timeouts :=
  if !s.tcpipTcpTimerActive && tcpPcbsLeft s then
    sysTimeout now tcpTmrInterval .tcpipTcpTimer { s with tcpipTcpTimerActive := true }
  else s

/-- The lists that `TCP_REG` is used with. -/
inductive PcbList where
  | bound
  | listen
  | active
  | timeWait
deriving DecidableEq, Repr

def pushPcb (s : Timeouts) : PcbList -> Timeouts
  | .bound => s
  | .listen => s
  | .active => { s with tcpActivePcbs := s.tcpActivePcbs + 1 }
  | .timeWait => { s with tcpTwPcbs := s.tcpTwPcbs + 1 }

/-- `TCP_REG`: the PCB is linked before the timer is asked for. -/
def tcpReg (now : UInt32) (pcbs : PcbList) (s : Timeouts) : Timeouts :=
  tcpTimerNeeded now (pushPcb s pcbs)

def tcpRmv (pcbs : PcbList) (s : Timeouts) : Timeouts :=
  match pcbs with
  | .bound => s
  | .listen => s
  | .active => { s with tcpActivePcbs := s.tcpActivePcbs - 1 }
  | .timeWait => { s with tcpTwPcbs := s.tcpTwPcbs - 1 }

/-!
# The machine

The tick interrupt may come at any time, also between two statements.  The
foreground is in `sys_timeouts_init`, outside this module, at the top of the loop
of `sys_check_timeouts`, or inside the function of a handler; connections are
registered and removed outside and inside handlers.  Every step of the
foreground reads the clock at most once, so an interrupt inside it is one before
or after it.  `ticks`, `checkStart` and `lastCheck` count true time; the code
never reads them.
-/

inductive TimeoutsPhase where
  | initialising (rest : List LwipCyclicTimer)
  | outside
  | checking (now : UInt32)
  | handling (now : UInt32) (handler : SysTimeoutHandler)
deriving DecidableEq, Repr

structure TimeoutsMachine where
  ticks : Nat
  phase : TimeoutsPhase
  timeouts : Timeouts
  checkStart : Nat      -- milliseconds at the start of the last check
  lastCheck : Nat       -- milliseconds at the start of the last check that returned
deriving DecidableEq, Repr

/-- `sys_timeouts_init` is entered at the given tick. -/
def TimeoutsMachine.start (ticks : Nat) : TimeoutsMachine where
  ticks := ticks
  phase := .initialising (lwipCyclicTimers.drop 1)
  timeouts := .powerOn
  checkStart := 10 * ticks
  lastCheck := 10 * ticks

inductive TimeoutsEvent where
  | tick
  | init                -- an iteration of sys_timeouts_init, or its end
  | check               -- sys_check_timeouts is entered
  | loop                -- an iteration of its loop, up to the call of the handler
  | handlerReturns      -- the function of the handler returns
  | reg (pcbs : PcbList)
  | rmv (pcbs : PcbList)
deriving DecidableEq, Repr

/-- What `sys_now` returns. -/
def TimeoutsMachine.sysNow (s : TimeoutsMachine) : UInt32 :=
  Net.sysNow (time10msAt s.ticks)

/-- An iteration of the loop of `sys_timeouts_init`. -/
def sysTimeoutsInit (s : TimeoutsMachine) : TimeoutsMachine :=
  match s.phase with
  | .initialising (cyclic :: rest) =>
      { s with
        phase := .initialising rest
        timeouts := sysTimeout s.sysNow cyclic.intervalMs (.lwipCyclicTimer cyclic) s.timeouts }
  | .initialising [] => { s with phase := .outside }
  | _ => s

/-- An iteration of the loop of `sys_check_timeouts`, with `now` read at its start. -/
def sysCheckTimeouts (now : UInt32) (s : TimeoutsMachine) : TimeoutsMachine :=
  match s.timeouts.nextTimeout with
  | [] => { s with phase := .outside, lastCheck := s.checkStart }
  | tmptimeout :: rest =>
      if timeLessThan now tmptimeout.time then
        { s with phase := .outside, lastCheck := s.checkStart }
      else
        { s with
          phase := .handling now tmptimeout.h
          timeouts := { s.timeouts with
            nextTimeout := rest
            currentTimeoutDueTime := tmptimeout.time
            freeTimeouts := s.timeouts.freeTimeouts + 1 } }

/-- Whether the foreground runs code that may register or remove connections. -/
def TimeoutsPhase.runsStack : TimeoutsPhase -> Bool
  | .outside => true
  | .handling _ _ => true
  | _ => false

def timeoutsStep (s : TimeoutsMachine) : TimeoutsEvent -> TimeoutsMachine
  | .tick => { s with ticks := s.ticks + 1 }
  | .init => sysTimeoutsInit s
  | .check =>
      match s.phase with
      | .outside => { s with phase := .checking s.sysNow, checkStart := 10 * s.ticks }
      | _ => s
  | .loop =>
      match s.phase with
      | .checking now => sysCheckTimeouts now s
      | _ => s
  | .handlerReturns =>
      match s.phase with
      | .handling now handler =>
          { s with phase := .checking now, timeouts := handler.finish s.sysNow s.timeouts }
      | _ => s
  | .reg pcbs =>
      if s.phase.runsStack then { s with timeouts := tcpReg s.sysNow pcbs s.timeouts } else s
  | .rmv pcbs =>
      if s.phase.runsStack then { s with timeouts := tcpRmv pcbs s.timeouts } else s

/-- The handler that a step calls. -/
def called (s : TimeoutsMachine) : TimeoutsEvent -> Option SysTimeoutHandler
  | .loop =>
      match s.phase, s.timeouts.nextTimeout with
      | .checking now, tmptimeout :: _ =>
          if timeLessThan now tmptimeout.time then none else some tmptimeout.h
      | _, _ => none
  | _ => none

/-!
# What arming does
-/

theorem insertBehind_perm (timeout t : SysTimeo) (rest : List SysTimeo) :
    (insertBehind timeout (t :: rest)).Perm (timeout :: t :: rest) := by
  induction rest generalizing t with
  | nil =>
      exact List.Perm.swap timeout t []
  | cons next rest ih =>
      rw [insertBehind]
      split
      · exact List.Perm.swap timeout t (next :: rest)
      · exact ((ih next).cons t).trans (List.Perm.swap timeout t (next :: rest))

/-- The list after arming, whatever branch inserts the element. -/
def insertTimeout (timeout : SysTimeo) : List SysTimeo -> List SysTimeo
  | [] => [timeout]
  | t :: rest =>
      if timeLessThan timeout.time t.time then timeout :: t :: rest
      else insertBehind timeout (t :: rest)

theorem insertTimeout_perm (timeout : SysTimeo) (queue : List SysTimeo) :
    (insertTimeout timeout queue).Perm (timeout :: queue) := by
  cases queue with
  | nil =>
      exact List.Perm.refl _
  | cons t rest =>
      rw [insertTimeout]
      split
      · exact List.Perm.refl _
      · exact insertBehind_perm timeout t rest

/-- The head case of `sys_timeout_abs` and its loop insert by one rule. -/
theorem insertTimeout_cons (timeout t : SysTimeo) (rest : List SysTimeo) :
    insertTimeout timeout (t :: rest) =
      if timeLessThan timeout.time t.time then timeout :: t :: rest
      else t :: insertTimeout timeout rest := by
  rw [insertTimeout]
  split
  · rfl
  · cases rest with
    | nil => rfl
    | cons next rest =>
        rw [insertBehind, insertTimeout]
        split
        · rfl
        · rfl

/-- With a free element, arming takes it and adds one timeout; nothing else changes. -/
theorem sysTimeoutAbs_eq (absTime : UInt32) (handler : SysTimeoutHandler) {s : Timeouts}
    (hfree : s.freeTimeouts ≠ 0) :
    sysTimeoutAbs absTime handler s =
      { s with
        nextTimeout := insertTimeout ⟨absTime, handler⟩ s.nextTimeout
        freeTimeouts := s.freeTimeouts - 1 } := by
  unfold sysTimeoutAbs
  rw [if_neg hfree]
  cases hqueue : s.nextTimeout with
  | nil => rfl
  | cons t rest =>
      dsimp only [insertTimeout]
      split
      · rfl
      · rfl

/-- The due time for which a cyclic timer is armed again. -/
def cyclicNextTime (now : UInt32) (cyclic : LwipCyclicTimer) (s : Timeouts) : UInt32 :=
  if timeLessThan (s.currentTimeoutDueTime + cyclic.intervalMs) now then now + cyclic.intervalMs
  else s.currentTimeoutDueTime + cyclic.intervalMs

theorem lwipCyclicTimer_eq (now : UInt32) (cyclic : LwipCyclicTimer) (s : Timeouts) :
    lwipCyclicTimer now cyclic s =
      sysTimeoutAbs (cyclicNextTime now cyclic s) (.lwipCyclicTimer cyclic) s := by
  simp only [lwipCyclicTimer, cyclicNextTime]
  split
  · rfl
  · rfl

end Net
end Ch579HttpLed
