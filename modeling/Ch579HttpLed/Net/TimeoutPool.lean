import Ch579HttpLed.Net.Timeouts

/-!
# The population of the timeout list

Every cyclic timer is in exactly one place: still to be armed, in the list, or
being served.  The TCP timer is in the list or being served exactly while its
flag is set.  So at most five elements of the pool are ever in use, and arming
never fails although `sys_timeout_abs` has a branch for it.
-/

namespace Ch579HttpLed
namespace Net

open Foundation

/-- Handlers that are not in the list but will be armed, or are being served. -/
def TimeoutsPhase.held : TimeoutsPhase -> List SysTimeoutHandler
  | .initialising rest => rest.map .lwipCyclicTimer
  | .handling _ handler => [handler]
  | _ => []

def Timeouts.pending (s : Timeouts) : List SysTimeoutHandler :=
  s.nextTimeout.map SysTimeo.h

/-- The cyclic timers that `sys_timeouts_init` starts. -/
def startedCyclicTimers : List SysTimeoutHandler :=
  (lwipCyclicTimers.drop 1).map .lwipCyclicTimer

def tcpTimerPart (active : Bool) : List SysTimeoutHandler :=
  if active then [.tcpipTcpTimer] else []

structure Populated (s : TimeoutsMachine) : Prop where
  handlers : (s.timeouts.pending ++ s.phase.held).Perm
    (startedCyclicTimers ++ tcpTimerPart s.timeouts.tcpipTcpTimerActive)
  pool : s.timeouts.freeTimeouts + s.timeouts.nextTimeout.length = mempNumSysTimeout
  demand : tcpPcbsLeft s.timeouts = true -> s.timeouts.tcpipTcpTimerActive = true

theorem start_populated (ticks : Nat) : Populated (.start ticks) where
  handlers := List.Perm.refl _
  pool := rfl
  demand := by
    intro h
    cases h

theorem tcpipTcpTimer_not_started : SysTimeoutHandler.tcpipTcpTimer ∉ startedCyclicTimers := by
  decide

section Populated

variable {s : TimeoutsMachine}

/-- While a handler is held or the TCP timer is off, an element of the pool is free. -/
theorem Populated.free (h : Populated s)
    (harm : s.phase.held ≠ [] ∨ s.timeouts.tcpipTcpTimerActive = false) :
    s.timeouts.freeTimeouts ≠ 0 := by
  have hlength := h.handlers.length_eq
  have hpool := h.pool
  have hstarted : startedCyclicTimers.length = 4 := rfl
  simp only [List.length_append, Timeouts.pending, List.length_map, hstarted] at hlength
  rw [mempNumSysTimeout] at hpool
  rcases harm with hheld | hoff
  · have hpos := List.length_pos_iff.mpr hheld
    have hpart : (tcpTimerPart s.timeouts.tcpipTcpTimerActive).length <= 1 := by
      unfold tcpTimerPart
      split <;> decide
    lia
  · rw [hoff] at hlength
    simp only [tcpTimerPart, Bool.false_eq_true, if_false, List.length_nil] at hlength
    lia

/-- The TCP timer is only served while its flag is set. -/
theorem Populated.active_of_held (h : Populated s)
    (hheld : SysTimeoutHandler.tcpipTcpTimer ∈ s.phase.held) :
    s.timeouts.tcpipTcpTimerActive = true := by
  have hmem := h.handlers.mem_iff.mp (List.mem_append_right _ hheld)
  rcases List.mem_append.mp hmem with hstarted | hpart
  · exact absurd hstarted tcpipTcpTimer_not_started
  · unfold tcpTimerPart at hpart
    split at hpart
    · assumption
    · cases hpart

end Populated

/-!
# Steps
-/

/-- Arming a handler that is held moves it into the list. -/
theorem Populated.arm {s t : TimeoutsMachine} (h : Populated s) (absTime : UInt32)
    (handler : SysTimeoutHandler) (hheld : s.phase.held = handler :: t.phase.held)
    (htimeouts : t.timeouts = sysTimeoutAbs absTime handler s.timeouts) : Populated t := by
  have hfree := h.free (Or.inl (by simp [hheld]))
  rw [sysTimeoutAbs_eq absTime handler hfree] at htimeouts
  have hqueue := insertTimeout_perm ⟨absTime, handler⟩ s.timeouts.nextTimeout
  have hlength := hqueue.length_eq
  have hpool := h.pool
  constructor
  · have hhandlers := h.handlers
    rw [hheld] at hhandlers
    simp only [htimeouts, Timeouts.pending]
    apply List.Perm.trans _ hhandlers
    exact ((hqueue.map SysTimeo.h).append_right _).trans List.perm_middle.symm
  · simp only [htimeouts]
    rw [List.length_cons] at hlength
    lia
  · rw [htimeouts]
    exact h.demand

theorem populated_of_same {s t : TimeoutsMachine} (h : Populated s)
    (hheld : t.phase.held = s.phase.held) (htimeouts : t.timeouts = s.timeouts) :
    Populated t := by
  constructor
  · rw [hheld, htimeouts]
    exact h.handlers
  · rw [htimeouts]
    exact h.pool
  · rw [htimeouts]
    exact h.demand

theorem sysTimeoutsInit_populated {s : TimeoutsMachine} (h : Populated s) :
    Populated (sysTimeoutsInit s) := by
  cases hphase : s.phase with
  | initialising rest =>
      cases rest with
      | nil =>
          apply populated_of_same h
          · simp [sysTimeoutsInit, hphase, TimeoutsPhase.held]
          · simp [sysTimeoutsInit, hphase]
      | cons cyclic rest =>
          apply h.arm (nextTimeoutTime s.sysNow cyclic.intervalMs) (.lwipCyclicTimer cyclic)
          · simp [sysTimeoutsInit, hphase, TimeoutsPhase.held]
          · simp [sysTimeoutsInit, hphase, sysTimeout]
  | _ =>
      simpa [sysTimeoutsInit, hphase] using h

/-- Serving the head of the list moves its handler out of it and frees its element. -/
theorem sysCheckTimeouts_populated {s : TimeoutsMachine} {now : UInt32} (h : Populated s)
    (hphase : s.phase = .checking now) : Populated (sysCheckTimeouts now s) := by
  unfold sysCheckTimeouts
  split
  · exact populated_of_same h (by simp [hphase, TimeoutsPhase.held]) rfl
  · next tmptimeout rest hqueue =>
      split
      · exact populated_of_same h (by simp [hphase, TimeoutsPhase.held]) rfl
      · constructor
        · have hhandlers := h.handlers
          simp only [Timeouts.pending, hphase, hqueue, TimeoutsPhase.held, List.append_nil,
            List.map_cons] at hhandlers
          exact (List.perm_append_singleton _ _).trans hhandlers
        · have hpool := h.pool
          rw [hqueue, List.length_cons] at hpool
          simp only
          lia
        · exact h.demand

theorem handlerReturns_populated {s : TimeoutsMachine} (h : Populated s) :
    Populated (timeoutsStep s .handlerReturns) := by
  cases hphase : s.phase with
  | handling now handler =>
      cases handler with
      | lwipCyclicTimer cyclic =>
          apply h.arm (cyclicNextTime s.sysNow cyclic s.timeouts) (.lwipCyclicTimer cyclic)
          · simp [timeoutsStep, hphase, TimeoutsPhase.held]
          · simp [timeoutsStep, hphase, SysTimeoutHandler.finish, lwipCyclicTimer_eq]
      | tcpipTcpTimer =>
          cases hleft : tcpPcbsLeft s.timeouts with
          | true =>
              apply h.arm (nextTimeoutTime s.sysNow tcpTmrInterval) .tcpipTcpTimer
              · simp [timeoutsStep, hphase, TimeoutsPhase.held]
              · simp [timeoutsStep, hphase, SysTimeoutHandler.finish, tcpipTcpTimer, hleft,
                  sysTimeout]
          | false =>
              have hactive := h.active_of_held (by simp [hphase, TimeoutsPhase.held])
              have hstep : timeoutsStep s .handlerReturns =
                  { s with
                    phase := .checking now
                    timeouts := { s.timeouts with tcpipTcpTimerActive := false } } := by
                simp [timeoutsStep, hphase, SysTimeoutHandler.finish, tcpipTcpTimer, hleft]
              rw [hstep]
              constructor
              · have hhandlers := h.handlers
                simp only [hphase, TimeoutsPhase.held, hactive, tcpTimerPart, if_true]
                  at hhandlers
                simpa [TimeoutsPhase.held, tcpTimerPart, Timeouts.pending] using
                  (List.perm_append_right_iff _).mp hhandlers
              · exact h.pool
              · intro hpcbs
                change tcpPcbsLeft s.timeouts = true at hpcbs
                rw [hleft] at hpcbs
                cases hpcbs
  | _ =>
      simpa [timeoutsStep, hphase] using h

/-- Linking or unlinking a PCB touches the lengths of the lists of PCBs only. -/
theorem pushPcb_frame (s : Timeouts) (pcbs : PcbList) :
    exists active tw, pushPcb s pcbs = { s with tcpActivePcbs := active, tcpTwPcbs := tw } := by
  cases pcbs <;> exact ⟨_, _, rfl⟩

theorem tcpRmv_frame (pcbs : PcbList) (s : Timeouts) :
    exists active tw, active <= s.tcpActivePcbs ∧ tw <= s.tcpTwPcbs ∧
      tcpRmv pcbs s = { s with tcpActivePcbs := active, tcpTwPcbs := tw } := by
  cases pcbs with
  | active => exact ⟨_, _, Nat.sub_le _ 1, Nat.le_refl _, rfl⟩
  | timeWait => exact ⟨_, _, Nat.le_refl _, Nat.sub_le _ 1, rfl⟩
  | _ => exact ⟨_, _, Nat.le_refl _, Nat.le_refl _, rfl⟩

/-- Asking for the TCP timer either finds nothing to do or starts it. -/
theorem tcpTimerNeeded_cases (now : UInt32) (s : Timeouts) :
    (tcpTimerNeeded now s = s ∧
      (tcpPcbsLeft s = true -> s.tcpipTcpTimerActive = true)) ∨
    (s.tcpipTcpTimerActive = false ∧
      tcpTimerNeeded now s = sysTimeoutAbs (nextTimeoutTime now tcpTmrInterval) .tcpipTcpTimer
        { s with tcpipTcpTimerActive := true }) := by
  unfold tcpTimerNeeded sysTimeout
  cases hactive : s.tcpipTcpTimerActive with
  | true =>
      simp
  | false =>
      cases hleft : tcpPcbsLeft s with
      | true =>
          exact Or.inr ⟨rfl, rfl⟩
      | false =>
          simp

theorem tcpReg_populated {s : TimeoutsMachine} (h : Populated s) (now : UInt32)
    (pcbs : PcbList) : Populated { s with timeouts := tcpReg now pcbs s.timeouts } := by
  rcases pushPcb_frame s.timeouts pcbs with ⟨active, tw, hpush⟩
  unfold tcpReg
  rw [hpush]
  rcases tcpTimerNeeded_cases now
      { s.timeouts with tcpActivePcbs := active, tcpTwPcbs := tw } with
    ⟨hsame, hdemand⟩ | ⟨hoff, hstart⟩
  · rw [hsame]
    exact ⟨h.handlers, h.pool, hdemand⟩
  · -- the timer was off, so it is nowhere else and an element is free
    change s.timeouts.tcpipTcpTimerActive = false at hoff
    have hfree := h.free (Or.inr hoff)
    have harmed := sysTimeoutAbs_eq (nextTimeoutTime now tcpTmrInterval) .tcpipTcpTimer
      (s := { s.timeouts with
        tcpipTcpTimerActive := true, tcpActivePcbs := active, tcpTwPcbs := tw }) hfree
    rw [hstart, harmed]
    have hqueue := insertTimeout_perm
      ⟨nextTimeoutTime now tcpTmrInterval, .tcpipTcpTimer⟩ s.timeouts.nextTimeout
    constructor
    · have hhandlers := h.handlers
      simp only [hoff, tcpTimerPart, Bool.false_eq_true, if_false, List.append_nil,
        Timeouts.pending] at hhandlers
      simp only [tcpTimerPart, if_true, Timeouts.pending]
      apply ((hqueue.map SysTimeo.h).append_right _).trans
      exact (hhandlers.cons _).trans (List.perm_append_singleton _ _).symm
    · have hlength := hqueue.length_eq
      have hpool := h.pool
      rw [List.length_cons] at hlength
      simp only
      lia
    · intro _
      rfl

theorem tcpRmv_populated {s : TimeoutsMachine} (h : Populated s) (pcbs : PcbList) :
    Populated { s with timeouts := tcpRmv pcbs s.timeouts } := by
  rcases tcpRmv_frame pcbs s.timeouts with ⟨active, tw, hactive, htw, hrmv⟩
  rw [hrmv]
  constructor
  · exact h.handlers
  · exact h.pool
  · intro hleft
    apply h.demand
    simp only [tcpPcbsLeft, Bool.or_eq_true, decide_eq_true_eq] at hleft ⊢
    lia

theorem timeoutsStep_populated (s : TimeoutsMachine) (e : TimeoutsEvent)
    (h : Populated s) : Populated (timeoutsStep s e) := by
  cases e with
  | tick =>
      exact populated_of_same h rfl rfl
  | init =>
      exact sysTimeoutsInit_populated h
  | check =>
      cases hphase : s.phase with
      | outside =>
          apply populated_of_same h
          · simp [timeoutsStep, hphase, TimeoutsPhase.held]
          · simp [timeoutsStep, hphase]
      | _ =>
          simpa [timeoutsStep, hphase] using h
  | loop =>
      cases hphase : s.phase with
      | checking now =>
          simpa [timeoutsStep, hphase] using sysCheckTimeouts_populated h hphase
      | _ =>
          simpa [timeoutsStep, hphase] using h
  | handlerReturns =>
      exact handlerReturns_populated h
  | reg pcbs =>
      rw [timeoutsStep]
      split
      · exact tcpReg_populated h s.sysNow pcbs
      · exact h
  | rmv pcbs =>
      rw [timeoutsStep]
      split
      · exact tcpRmv_populated h pcbs
      · exact h

theorem run_populated (ticks : Nat) (es : List TimeoutsEvent) :
    Populated (run timeoutsStep (.start ticks) es) :=
  run_invariant timeoutsStep_populated (start_populated ticks) es

/-!
# The pool is never empty when it is needed
-/

/--
In every state of every run the handlers in the list and those held outside it
are the four cyclic timers, each once, and the TCP timer exactly while its flag is
set; the flag is set while there are connections to serve; and whenever a handler
can be armed the pool has a free element.
-/
theorem timeouts_never_dropped (ticks : Nat) (es : List TimeoutsEvent) :
    let s := run timeoutsStep (.start ticks) es
    (s.timeouts.pending ++ s.phase.held).Perm
        (startedCyclicTimers ++ tcpTimerPart s.timeouts.tcpipTcpTimerActive) ∧
      (tcpPcbsLeft s.timeouts = true -> s.timeouts.tcpipTcpTimerActive = true) ∧
      (s.phase.held ≠ [] ∨ s.timeouts.tcpipTcpTimerActive = false ->
        s.timeouts.freeTimeouts ≠ 0) := by
  have h := run_populated ticks es
  exact ⟨h.handlers, h.demand, h.free⟩

end Net
end Ch579HttpLed
