import Ch579HttpLed.Net.TimeoutQueue

/-!
# The pace of the cyclic timers

A cyclic timer is armed again for one interval after the deadline it was served
for, not after the time at which it was served, so late checks do not add up.
Only a handler that returns after its next deadline falls back to the clock.  A
check serves a timer a second time if its next deadline is the millisecond at
which the check was started, and never a third time.
-/

namespace Ch579HttpLed
namespace Net

open Foundation

/-!
# One place for each handler
-/

section Places

variable {s : TimeoutsMachine} {a : Deadlines}

theorem Populated.nodup (h : Populated s) : (s.timeouts.pending ++ s.phase.held).Nodup := by
  apply h.handlers.nodup_iff.mpr
  cases s.timeouts.tcpipTcpTimerActive <;> decide

theorem map_job_of_matches {queue : List SysTimeo} {deadlines : List (Deadline SysTimeoutHandler)}
    (h : List.Forall₂ Matches queue deadlines) :
    deadlines.map Deadline.job = queue.map SysTimeo.h := by
  induction h with
  | nil => rfl
  | cons hhead _ ih =>
      rw [List.map_cons, List.map_cons, ih, hhead.right]

theorem Tracks.map_job (h : Tracks s a) : a.queue.map Deadline.job = s.timeouts.pending :=
  map_job_of_matches h.queue

/-- A handler that is held is not in the queue. -/
theorem Tracks.not_queued_of_held (h : Tracks s a) (hpop : Populated s)
    {handler : SysTimeoutHandler} (hheld : handler ∈ s.phase.held) :
    forall d, d ∈ a.queue -> d.job ≠ handler := by
  intro d hd hjob
  have hpending : handler ∈ s.timeouts.pending := by
    rw [← h.map_job, ← hjob]
    exact List.mem_map_of_mem hd
  exact (List.nodup_append.mp hpop.nodup).right.right _ hpending _ hheld rfl

/-- Outside the handlers a cyclic timer of the table is in the queue. -/
theorem Tracks.queued_of_outside (h : Tracks s a) (hpop : Populated s)
    (hphase : s.phase = .outside) {handler : SysTimeoutHandler}
    (hstarted : handler ∈ startedCyclicTimers) :
    exists d, d ∈ a.queue ∧ d.job = handler := by
  have hmem := hpop.handlers.mem_iff.mpr (List.mem_append_left _ hstarted)
  rw [hphase] at hmem
  simp only [TimeoutsPhase.held, List.append_nil] at hmem
  rw [← h.map_job] at hmem
  exact List.mem_map.mp hmem

end Places

/-!
# What the foreground adds to the queue
-/

section Additions

variable (a : Deadlines)

/-- Registering a PCB adds the TCP timer one interval from now, or nothing. -/
theorem reg_queue (pcbs : PcbList) :
    (a.reg pcbs).phase = a.phase ∧ (a.reg pcbs).now = a.now ∧
      ((a.reg pcbs).queue = a.queue ∨
        (a.reg pcbs).queue =
          enqueue ⟨a.now + tcpTmrInterval.toNat, .tcpipTcpTimer⟩ a.queue) := by
  have hpush : (a.push pcbs).phase = a.phase ∧ (a.push pcbs).now = a.now ∧
      (a.push pcbs).queue = a.queue := by
    cases pcbs <;> exact ⟨rfl, rfl, rfl⟩
  simp only [Deadlines.reg]
  split
  · refine ⟨hpush.left, hpush.right.left, Or.inr ?_⟩
    change enqueue _ (a.push pcbs).queue = _
    rw [hpush.right.left, hpush.right.right]
  · exact ⟨hpush.left, hpush.right.left, Or.inl hpush.right.right⟩

theorem rmv_queue (pcbs : PcbList) :
    (a.rmv pcbs).phase = a.phase ∧ (a.rmv pcbs).now = a.now ∧
      (a.rmv pcbs).queue = a.queue := by
  cases pcbs <;> exact ⟨rfl, rfl, rfl⟩

/-- A handler that returns adds its own next deadline, or the TCP timer is over. -/
theorem finish_queue (d : Deadline SysTimeoutHandler) :
    (a.finish d).phase = a.phase ∧ (a.finish d).now = a.now ∧
      ((exists cyclic, d.job = .lwipCyclicTimer cyclic ∧ (a.finish d).queue =
          enqueue ⟨nextDeadline d.due cyclic.intervalMs.toNat a.now, d.job⟩ a.queue) ∨
        (d.job = .tcpipTcpTimer ∧ ((a.finish d).queue = a.queue ∨
          (a.finish d).queue =
            enqueue ⟨a.now + tcpTmrInterval.toNat, .tcpipTcpTimer⟩ a.queue))) := by
  unfold Deadlines.finish
  cases hjob : d.job with
  | lwipCyclicTimer cyclic =>
      exact ⟨rfl, rfl, Or.inl ⟨cyclic, rfl, rfl⟩⟩
  | tcpipTcpTimer =>
      dsimp only
      split
      · exact ⟨rfl, rfl, Or.inr ⟨rfl, Or.inr rfl⟩⟩
      · exact ⟨rfl, rfl, Or.inr ⟨rfl, Or.inl rfl⟩⟩

end Additions

/-!
# No drift
-/

/-- The served deadlines of a cyclic timer, oldest first. -/
def cyclicDues (cyclic : LwipCyclicTimer) (ds : List (Deadline SysTimeoutHandler)) : List Nat :=
  (ds.filter (fun d => d.job = .lwipCyclicTimer cyclic)).map Deadline.due

/-- The overload branch of `lwip_cyclic_timer` is not taken for the timer. -/
def OnTime (cyclic : LwipCyclicTimer) (s : TimeoutsMachine) (e : TimeoutsEvent) : Prop :=
  e = .handlerReturns -> s.phase.held = [.lwipCyclicTimer cyclic] ->
    timeLessThan (s.timeouts.currentTimeoutDueTime + cyclic.intervalMs) s.sysNow = false

instance (cyclic : LwipCyclicTimer) (s : TimeoutsMachine) (e : TimeoutsEvent) :
    Decidable (OnTime cyclic s e) :=
  inferInstanceAs (Decidable (_ -> _ -> _))

/-- The clock at the step of `sys_timeouts_init` that arms the timer. -/
def armedAt (cyclic : LwipCyclicTimer) (s : TimeoutsMachine) : TimeoutsEvent -> Option Nat
  | .init =>
      match s.phase with
      | .initialising (c :: _) => if c = cyclic then some (10 * s.ticks) else none
      | _ => none
  | _ => none

/-- The timer was armed once, `n` deadlines of it have been served, and it is at the next. -/
structure Paced (cyclic : LwipCyclicTimer) (armed n : Nat) (s : TimeoutsMachine)
    (a : Deadlines) : Prop where
  queued : forall d, d ∈ a.queue -> d.job = .lwipCyclicTimer cyclic ->
    d.due = armed + (n + 1) * cyclic.intervalMs.toNat
  handled : forall now d, a.phase = .handling now d -> d.job = .lwipCyclicTimer cyclic ->
    d.due = armed + n * cyclic.intervalMs.toNat
  passed : 0 < n -> armed + n * cyclic.intervalMs.toNat <= s.checkStart
  started : forall rest, s.phase = .initialising rest -> cyclic ∉ rest

/-- The deadlines of a timer that is armed at `armed` and then kept at its interval. -/
def periodicDues (cyclic : LwipCyclicTimer) (armed n : Nat) : List Nat :=
  (List.range n).map (fun k => armed + (k + 1) * cyclic.intervalMs.toNat)

theorem periodicDues_succ (cyclic : LwipCyclicTimer) (armed n : Nat) :
    periodicDues cyclic armed (n + 1) =
      periodicDues cyclic armed n ++ [armed + (n + 1) * cyclic.intervalMs.toNat] := by
  simp [periodicDues, List.range_succ]

/--
Before it is armed the timer has no deadline; afterwards it is paced.  `arms` are
the times at which it was armed at start-up, `ds` the deadlines served so far.
-/
def TimerPace (cyclic : LwipCyclicTimer) (arms : List Nat) (s : TimeoutsMachine) (a : Deadlines)
    (ds : List (Deadline SysTimeoutHandler)) : Prop :=
  (exists rest, s.phase = .initialising rest ∧ cyclic ∈ rest ∧ cyclicDues cyclic ds = [] ∧
    arms = []) ∨
  (exists armed n, arms = [armed] ∧ Paced cyclic armed n s a ∧
    cyclicDues cyclic ds = periodicDues cyclic armed n)

section Pace

variable {cyclic : LwipCyclicTimer} {arms : List Nat} {armed n : Nat} {s : TimeoutsMachine}
  {a : Deadlines} {ds : List (Deadline SysTimeoutHandler)}

/-- Arming another handler does not touch the timer. -/
theorem Paced.queued_enqueue (h : Paced cyclic armed n s a) (due : Nat)
    {handler : SysTimeoutHandler} (hother : handler ≠ .lwipCyclicTimer cyclic) :
    forall d, d ∈ enqueue ⟨due, handler⟩ a.queue -> d.job = .lwipCyclicTimer cyclic ->
      d.due = armed + (n + 1) * cyclic.intervalMs.toNat := by
  intro d hd hjob
  rcases mem_enqueue.mp hd with hnew | hold
  · rw [hnew] at hjob
    exact absurd hjob hother
  · exact h.queued d hold hjob

theorem TimerPace.tick (h : TimerPace cyclic arms s a ds) :
    TimerPace cyclic arms (timeoutsStep s .tick) (deadlinesStep a .tick) ds := by
  rcases h with ⟨rest, hs, hrest, hdues, harms⟩ | ⟨armed, n, harms, hpaced, hdues⟩
  · exact Or.inl ⟨rest, hs, hrest, hdues, harms⟩
  · refine Or.inr ⟨armed, n, harms, ?_, hdues⟩
    exact ⟨hpaced.queued, hpaced.handled, hpaced.passed, hpaced.started⟩

theorem TimerPace.init (h : TimerPace cyclic arms s a ds) (htracks : Tracks s a)
    (hpop : Populated s) :
    TimerPace cyclic (arms ++ (armedAt cyclic s .init).toList) (timeoutsStep s .init)
      (deadlinesStep a .init) ds := by
  rcases htracks.phase_cases with ⟨rest, hs, ha, hidle⟩ | ⟨hs, ha, hidle⟩ |
    ⟨now, hs, ha, _⟩ | ⟨now, d, hs, ha, _⟩
  · cases rest with
    | nil =>
        rcases h with ⟨rest, hs', hrest, _⟩ | ⟨armed, n, harms, hpaced, hdues⟩
        · cases hs.symm.trans hs'
          cases hrest
        · refine Or.inr ⟨armed, n, by simp [armedAt, hs, harms], ?_, hdues⟩
          simp only [timeoutsStep, sysTimeoutsInit, deadlinesStep, hs, ha]
          refine { hpaced with handled := ?_, started := ?_ }
          · intro now d hphase
            cases hphase
          · intro rest hphase
            cases hphase
    | cons c rest =>
        have hheld : .lwipCyclicTimer c ∈ s.phase.held := by
          simp [hs, TimeoutsPhase.held]
        have hnodup := (List.nodup_append.mp hpop.nodup).right.left
        simp only [hs, TimeoutsPhase.held, List.map_cons, List.nodup_cons] at hnodup
        have hfresh : c ∉ rest := fun hc => hnodup.left (List.mem_map_of_mem hc)
        simp only [timeoutsStep, sysTimeoutsInit, deadlinesStep, hs, ha]
        rcases h with ⟨rest', hs', hrest, hdues, harms⟩ | ⟨armed, n, harms, hpaced, hdues⟩
        · cases hs.symm.trans hs'
          rcases List.mem_cons.mp hrest with hself | hlater
          · -- the timer is armed now
            subst hself
            have hnow : a.now = 10 * s.ticks := by
              rw [Deadlines.now, htracks.ticks]
            refine Or.inr ⟨a.now, 0, by simp [armedAt, hs, harms, hnow], ?_, hdues⟩
            constructor
            · intro d hd hjob
              rcases mem_enqueue.mp hd with hnew | hold
              · rw [hnew, Nat.zero_add, Nat.one_mul]
              · exact absurd hjob (htracks.not_queued_of_held hpop hheld d hold)
            · intro now d hphase
              cases hphase
            · intro hpos
              cases hpos
            · intro rest' hphase
              cases hphase
              exact hfresh
          · have hother : c ≠ cyclic := by
              intro heq
              rw [heq] at hfresh
              exact hfresh hlater
            exact Or.inl ⟨rest, rfl, hlater, hdues, by simp [armedAt, hs, harms, hother]⟩
        · have hother : c ≠ cyclic := by
            intro heq
            exact hpaced.started _ hs (by simp [heq])
          refine Or.inr ⟨armed, n, by simp [armedAt, hs, harms, hother], ?_, hdues⟩
          refine { hpaced with queued := ?_, handled := ?_, started := ?_ }
          · exact hpaced.queued_enqueue _ (by simpa using hother)
          · intro now d hphase
            cases hphase
          · intro rest' hphase hmem
            cases hphase
            exact hpaced.started _ hs (List.mem_cons_of_mem _ hmem)
  · simpa [timeoutsStep, sysTimeoutsInit, deadlinesStep, armedAt, hs, ha] using h
  · simpa [timeoutsStep, sysTimeoutsInit, deadlinesStep, armedAt, hs, ha] using h
  · simpa [timeoutsStep, sysTimeoutsInit, deadlinesStep, armedAt, hs, ha] using h

theorem TimerPace.check (h : TimerPace cyclic arms s a ds) (htracks : Tracks s a) :
    TimerPace cyclic arms (timeoutsStep s .check) (deadlinesStep a .check) ds := by
  rcases htracks.phase_cases with ⟨rest, hs, ha, hidle⟩ | ⟨hs, ha, hidle⟩ |
    ⟨now, hs, ha, _⟩ | ⟨now, d, hs, ha, _⟩
  · simpa [timeoutsStep, deadlinesStep, hs, ha] using h
  · have hpast := htracks.past
    have hnow : 10 * s.ticks = a.now := by
      unfold Deadlines.now
      rw [htracks.ticks]
    simp only [timeoutsStep, deadlinesStep, hs, ha, hnow]
    rcases h with ⟨rest, hs', _⟩ | ⟨armed, n, harms, hpaced, hdues⟩
    · cases hs.symm.trans hs'
    · refine Or.inr ⟨armed, n, harms, ?_, hdues⟩
      refine { hpaced with handled := ?_, passed := ?_, started := ?_ }
      · intro now d hphase
        cases hphase
      · intro hpos
        have hpassed := hpaced.passed hpos
        change _ <= a.now
        lia
      · intro rest hphase
        cases hphase
  · simpa [timeoutsStep, deadlinesStep, hs, ha] using h
  · simpa [timeoutsStep, deadlinesStep, hs, ha] using h

theorem cyclicDues_append (cyclic : LwipCyclicTimer)
    (ds es : List (Deadline SysTimeoutHandler)) :
    cyclicDues cyclic (ds ++ es) = cyclicDues cyclic ds ++ cyclicDues cyclic es := by
  simp [cyclicDues]

theorem TimerPace.loop (h : TimerPace cyclic arms s a ds) (htracks : Tracks s a)
    (hpop : Populated s) :
    TimerPace cyclic arms (timeoutsStep s .loop) (deadlinesStep a .loop)
      (ds ++ (served a .loop).toList) := by
  rcases htracks.phase_cases with ⟨rest, hs, ha, hidle⟩ | ⟨hs, ha, hidle⟩ |
    ⟨now, hs, ha, _⟩ | ⟨now, d, hs, ha, _⟩
  · simpa [timeoutsStep, deadlinesStep, served, hs, ha] using h
  · simpa [timeoutsStep, deadlinesStep, served, hs, ha] using h
  · rcases h with ⟨rest, hs', _⟩ | ⟨armed, n, harms, hpaced, hdues⟩
    · cases hs.symm.trans hs'
    · rcases htracks.loop_cases hs with
        ⟨t, rest, d, deadlines, hmatch, hpassed, hsq, haq, _, hserved, hsstep, hastep⟩ |
        ⟨_, _, hserved, hsstep, hastep⟩
      · rw [hserved, hsstep, hastep]
        have hd : d ∈ a.queue := by
          simp [haq]
        rcases eq_or_ne d.job (.lwipCyclicTimer cyclic) with hjob | hjob
        · -- the timer itself: its other copies would be in the list twice
          have hdue := hpaced.queued d hd hjob
          have hnodup := (List.nodup_append.mp hpop.nodup).left
          rw [← htracks.map_job, haq, List.map_cons, List.nodup_cons] at hnodup
          refine Or.inr ⟨armed, n + 1, harms, ?_, ?_⟩
          · refine { hpaced with queued := ?_, handled := ?_, passed := ?_, started := ?_ }
            · intro e he hejob
              apply absurd _ hnodup.left
              rw [hjob, ← hejob]
              exact List.mem_map_of_mem he
            · intro now' e hphase _
              cases hphase
              exact hdue
            · intro _
              change _ <= s.checkStart
              lia
            · intro rest' hphase
              cases hphase
          · rw [cyclicDues_append, hdues, periodicDues_succ, ← hdue]
            simp [cyclicDues, hjob]
        · refine Or.inr ⟨armed, n, harms, ?_, ?_⟩
          · refine { hpaced with queued := ?_, handled := ?_, started := ?_ }
            · intro e he
              exact hpaced.queued e (by rw [haq]; exact List.mem_cons_of_mem _ he)
            · intro now' e hphase hejob
              cases hphase
              exact absurd hejob hjob
            · intro rest' hphase
              cases hphase
          · rw [cyclicDues_append, hdues]
            simp [cyclicDues, hjob]
      · rw [hserved, hsstep, hastep]
        refine Or.inr ⟨armed, n, harms, ?_, by simpa using hdues⟩
        refine { hpaced with handled := ?_, started := ?_ }
        · intro now' d hphase
          cases hphase
        · intro rest hphase
          cases hphase
  · simpa [timeoutsStep, deadlinesStep, served, hs, ha] using h

/-- Without overload the next deadline is one interval after the last. -/
theorem nextDeadline_of_onTime (htracks : Tracks s a) (hpop : Populated s)
    {now : UInt32} {d : Deadline SysTimeoutHandler} (hs : s.phase = .handling now d.job)
    (hjob : d.job = .lwipCyclicTimer cyclic)
    (hdue : Shows s.timeouts.currentTimeoutDueTime d.due)
    (hpassed : s.lastCheck < d.due ∧ d.due <= a.now)
    (hontime : OnTime cyclic s .handlerReturns) :
    nextDeadline d.due cyclic.intervalMs.toNat a.now = d.due + cyclic.intervalMs.toNat := by
  have hheld : .lwipCyclicTimer cyclic ∈ s.phase.held := by
    simp [hs, hjob, TimeoutsPhase.held]
  have hinterval := hpop.interval_bounds hheld
  have hrecent := htracks.recent
  have hpast := htracks.past
  have hless := (hdue.add cyclic.intervalMs).timeLessThan_iff htracks.sysNow s.lastCheck
    ⟨by lia, hpast⟩ ⟨by lia, by lia⟩
  have hnot := hontime rfl (by simp [hs, hjob, TimeoutsPhase.held])
  unfold nextDeadline
  rw [if_neg]
  intro hlt
  rw [hless.mpr hlt] at hnot
  cases hnot

theorem TimerPace.handlerReturns (h : TimerPace cyclic arms s a ds) (htracks : Tracks s a)
    (hpop : Populated s) (hontime : OnTime cyclic s .handlerReturns) :
    TimerPace cyclic arms (timeoutsStep s .handlerReturns) (deadlinesStep a .handlerReturns)
      ds := by
  rcases htracks.phase_cases with ⟨rest, hs, ha, hidle⟩ | ⟨hs, ha, hidle⟩ |
    ⟨now, hs, ha, _⟩ | ⟨now, d, hs, ha, _, hstarted, hdue, hpassed⟩
  · simpa [timeoutsStep, deadlinesStep, hs, ha] using h
  · simpa [timeoutsStep, deadlinesStep, hs, ha] using h
  · simpa [timeoutsStep, deadlinesStep, hs, ha] using h
  · rcases h with ⟨rest, hs', _⟩ | ⟨armed, n, harms, hpaced, hdues⟩
    · cases hs.symm.trans hs'
    · refine Or.inr ⟨armed, n, harms, ?_, hdues⟩
      have hheld : d.job ∈ s.phase.held := by
        simp [hs, TimeoutsPhase.held]
      have hnow : d.due <= a.now := Nat.le_trans hpassed.right hstarted.right
      have hfinish := finish_queue { a with phase := .checking s.checkStart } d
      simp only [timeoutsStep, deadlinesStep, hs, ha]
      constructor
      · rcases hfinish.right.right with ⟨c, hjob, hqueue⟩ | ⟨hjob, hsame | hqueue⟩
        · rw [hqueue]
          rcases eq_or_ne c cyclic with hself | hother
          · subst hself
            have hnext := nextDeadline_of_onTime htracks hpop hs hjob hdue
              ⟨hpassed.left, hnow⟩ hontime
            have hlast := hpaced.handled _ d ha hjob
            intro e he hejob
            rcases mem_enqueue.mp he with hnew | hold
            · rw [hnew, Nat.add_mul, Nat.one_mul, ← Nat.add_assoc, ← hlast]
              exact hnext
            · rw [← hjob] at hejob
              exact absurd hejob (htracks.not_queued_of_held hpop hheld e hold)
          · apply hpaced.queued_enqueue
            rw [hjob]
            simpa using hother
        · rw [hsame]
          exact hpaced.queued
        · rw [hqueue]
          exact hpaced.queued_enqueue _ (by simp)
      · intro now' e hphase
        rw [hfinish.left] at hphase
        cases hphase
      · exact hpaced.passed
      · intro rest hphase
        cases hphase

theorem TimerPace.reg (h : TimerPace cyclic arms s a ds) (pcbs : PcbList) (t : Timeouts) :
    TimerPace cyclic arms { s with timeouts := t } (a.reg pcbs) ds := by
  have hreg := reg_queue a pcbs
  rcases h with ⟨rest, hs, hrest, hdues, harms⟩ | ⟨armed, n, harms, hpaced, hdues⟩
  · exact Or.inl ⟨rest, hs, hrest, hdues, harms⟩
  · refine Or.inr ⟨armed, n, harms, ?_, hdues⟩
    constructor
    · rcases hreg.right.right with hsame | hqueue
      · rw [hsame]
        exact hpaced.queued
      · rw [hqueue]
        exact hpaced.queued_enqueue _ (by simp)
    · rw [hreg.left]
      exact hpaced.handled
    · exact hpaced.passed
    · exact hpaced.started

theorem TimerPace.rmv (h : TimerPace cyclic arms s a ds) (pcbs : PcbList) (t : Timeouts) :
    TimerPace cyclic arms { s with timeouts := t } (a.rmv pcbs) ds := by
  have hrmv := rmv_queue a pcbs
  rcases h with ⟨rest, hs, hrest, hdues, harms⟩ | ⟨armed, n, harms, hpaced, hdues⟩
  · exact Or.inl ⟨rest, hs, hrest, hdues, harms⟩
  · refine Or.inr ⟨armed, n, harms, ?_, hdues⟩
    constructor
    · rw [hrmv.right.right]
      exact hpaced.queued
    · rw [hrmv.left]
      exact hpaced.handled
    · exact hpaced.passed
    · exact hpaced.started

theorem TimerPace.step (h : TimerPace cyclic arms s a ds) (htracks : Tracks s a)
    (hpop : Populated s) (e : TimeoutsEvent) (hontime : OnTime cyclic s e) :
    TimerPace cyclic (arms ++ (armedAt cyclic s e).toList) (timeoutsStep s e)
      (deadlinesStep a e) (ds ++ (served a e).toList) := by
  cases e with
  | loop =>
      simpa [armedAt] using h.loop htracks hpop
  | tick =>
      simpa [served, armedAt] using h.tick
  | init =>
      simpa [served] using h.init htracks hpop
  | check =>
      simpa [served, armedAt] using h.check htracks
  | handlerReturns =>
      simpa [served, armedAt] using h.handlerReturns htracks hpop hontime
  | reg pcbs =>
      simp only [timeoutsStep, deadlinesStep, served, armedAt, htracks.runsStack,
        Option.toList_none, List.append_nil]
      split
      · exact h.reg pcbs _
      · exact h
  | rmv pcbs =>
      simp only [timeoutsStep, deadlinesStep, served, armedAt, htracks.runsStack,
        Option.toList_none, List.append_nil]
      split
      · exact h.rmv pcbs _
      · exact h

theorem TimerPace.run (h : TimerPace cyclic arms s a ds) (htracks : Tracks s a)
    (hpop : Populated s) {es : List TimeoutsEvent}
    (hok : AllSteps timeoutsStep (fun s e => Present s e ∧ OnTime cyclic s e) s es) :
    TimerPace cyclic (arms ++ observed timeoutsStep (armedAt cyclic) s es)
      (Foundation.run timeoutsStep s es) (Foundation.run deadlinesStep a es)
      (ds ++ observed deadlinesStep served a es) := by
  induction es generalizing s a arms ds with
  | nil =>
      simpa [observed] using h
  | cons e es ih =>
      have hstep := h.step htracks hpop e hok.left.right
      have hrest := ih hstep (htracks.step hpop e hok.left.left).left
        (timeoutsStep_populated s e hpop) hok.right
      rw [observed, observed, ← List.append_assoc, ← List.append_assoc]
      exact hrest

end Pace

theorem start_timerPace {cyclic : LwipCyclicTimer} (hcyclic : cyclic ∈ lwipCyclicTimers.drop 1)
    (ticks : Nat) : TimerPace cyclic [] (.start ticks) (.start ticks) [] :=
  Or.inl ⟨_, rfl, hcyclic, rfl, rfl⟩

/-- The calls of a timer are counted by the deadlines it was served for. -/
theorem count_job (cyclic : LwipCyclicTimer) (ds : List (Deadline SysTimeoutHandler)) :
    (ds.map Deadline.job).count (.lwipCyclicTimer cyclic) = (cyclicDues cyclic ds).length := by
  induction ds with
  | nil => rfl
  | cons d ds ih =>
      rw [List.map_cons, List.count_cons, ih]
      rcases eq_or_ne d.job (.lwipCyclicTimer cyclic) with hjob | hjob
      · simp [cyclicDues, hjob]
      · simp [cyclicDues, hjob]

/--
A cyclic timer whose overload branch is never taken has been called, after every
check that returned, once for each whole interval between the step of
`sys_timeouts_init` that armed it and the start of the check, however late the
checks were.  The deadlines it was called for are exactly one interval apart.
-/
theorem cyclicTimer_no_drift (ticks : Nat) (cyclic : LwipCyclicTimer)
    (hcyclic : cyclic ∈ lwipCyclicTimers.drop 1) (es : List TimeoutsEvent)
    (hok : AllSteps timeoutsStep (fun s e => Present s e ∧ OnTime cyclic s e) (.start ticks) es)
    (houtside : (run timeoutsStep (.start ticks) es).phase = .outside) :
    let s := run timeoutsStep (.start ticks) es
    exists armed, observed timeoutsStep (armedAt cyclic) (.start ticks) es = [armed] ∧
      (observed timeoutsStep called (.start ticks) es).count (.lwipCyclicTimer cyclic) =
        (s.lastCheck - armed) / cyclic.intervalMs.toNat ∧
      cyclicDues cyclic (observed deadlinesStep served (.start ticks) es) =
        periodicDues cyclic armed ((s.lastCheck - armed) / cyclic.intervalMs.toNat) := by
  intro s
  have hpresent := hok.imp (fun _ _ h => h.left)
  have htracks := run_tracks ticks hpresent
  have hpop := run_populated ticks es
  have hpace := (start_timerPace hcyclic ticks).run (start_tracks ticks)
    (start_populated ticks) hok
  rw [List.nil_append, List.nil_append] at hpace
  rcases hpace with ⟨rest, hphase, _⟩ | ⟨armed, n, harms, hpaced, hdues⟩
  · cases houtside.symm.trans hphase
  · have hstarted : .lwipCyclicTimer cyclic ∈ startedCyclicTimers :=
      List.mem_map_of_mem hcyclic
    have hinterval := interval_bounds cyclic (List.mem_of_mem_drop hcyclic)
    rcases htracks.left.queued_of_outside hpop houtside hstarted with ⟨d, hd, hjob⟩
    have hnext := (htracks.left.window d hd).left
    rw [hpaced.queued d hd hjob] at hnext
    have hidle : s.checkStart = s.lastCheck := by
      rcases htracks.left.phase_cases with ⟨rest, hs, _⟩ | ⟨_, _, hidle⟩ |
        ⟨now, hs, _⟩ | ⟨now, d, hs, _⟩
      · cases houtside.symm.trans hs
      · exact hidle
      · cases houtside.symm.trans hs
      · cases houtside.symm.trans hs
    have hpassed := hpaced.passed
    change 0 < n -> _ <= s.checkStart at hpassed
    rw [hidle] at hpassed
    have hn : n = (s.lastCheck - armed) / cyclic.intervalMs.toNat :=
      periods_passed hinterval.left hpassed hnext
    refine ⟨armed, harms, ?_, ?_⟩
    · rw [← hn, htracks.right, count_job, hdues]
      simp [periodicDues]
    · rw [← hn]
      exact hdues

/-- The fine timer of DHCP is armed at zero and has been called once, for its deadline 500. -/
theorem cyclicTimer_no_drift_firstHalfSecond :
    observed timeoutsStep (armedAt ⟨500, .dhcpFineTmr⟩) (.start 0) firstHalfSecond = [0] ∧
      (observed timeoutsStep called (.start 0) firstHalfSecond).count
        (.lwipCyclicTimer ⟨500, .dhcpFineTmr⟩) = 1 ∧
      cyclicDues ⟨500, .dhcpFineTmr⟩ (observed deadlinesStep served (.start 0) firstHalfSecond) =
        [500] := by
  have harms : observed timeoutsStep (armedAt ⟨500, .dhcpFineTmr⟩) (.start 0) firstHalfSecond =
      [0] := by
    decide +kernel
  have hlast : (run timeoutsStep (.start 0) firstHalfSecond).lastCheck = 500 := by
    decide +kernel
  rcases cyclicTimer_no_drift 0 ⟨500, .dhcpFineTmr⟩ (by decide) firstHalfSecond
    (by decide +kernel) (by decide +kernel) with ⟨armed, harmed, hcount, hdues⟩
  rw [harms] at harmed
  cases harmed
  rw [hlast] at hcount hdues
  exact ⟨harms, hcount, hdues⟩

/-!
# How often one check calls a handler
-/

/-- The calls of a handler that one check can make. -/
def callLimit : SysTimeoutHandler -> Nat
  | .lwipCyclicTimer _ => 2
  | .tcpipTcpTimer => 1

/-- Where the next deadline of a handler lies after some calls in a check started at `start`. -/
def earliestAfter (handler : SysTimeoutHandler) (start calls : Nat) : Nat :=
  if calls = 0 then 0 else if calls < callLimit handler then start else start + 1

theorem earliestAfter_le (handler : SysTimeoutHandler) (start calls : Nat) :
    earliestAfter handler start calls <= start + 1 := by
  unfold earliestAfter
  split
  · lia
  · split <;> lia

/-- A handler whose next deadline has passed has calls left. -/
theorem lt_callLimit_of_passed {handler : SysTimeoutHandler} {start calls due : Nat}
    (hearliest : earliestAfter handler start calls <= due) (hdue : due <= start) :
    calls < callLimit handler := by
  unfold earliestAfter at hearliest
  split at hearliest
  · next hzero =>
      rw [hzero]
      cases handler <;> exact Nat.succ_pos _
  · split at hearliest
    · assumption
    · lia

structure InCheck (handler : SysTimeoutHandler) (start calls : Nat) (s : TimeoutsMachine)
    (a : Deadlines) : Prop where
  begun : s.checkStart = start
  limit : calls <= callLimit handler
  queued : forall d, d ∈ a.queue -> d.job = handler -> earliestAfter handler start calls <= d.due
  handled : forall now d, a.phase = .handling now d -> d.job = handler ->
    0 < calls ∧ earliestAfter handler start (calls - 1) <= d.due

section Check

variable {handler : SysTimeoutHandler} {start calls : Nat} {s : TimeoutsMachine} {a : Deadlines}

theorem Tracks.checkStart_le (h : Tracks s a) : s.checkStart <= a.now := by
  have hpast := h.past
  rcases h.phase_cases with ⟨_, _, _, hidle⟩ | ⟨_, _, hidle⟩ | ⟨_, _, _, _, hstart⟩ |
    ⟨_, _, _, _, _, hstart, _⟩ <;> lia

/-- What is armed during the check for after its start does not come back in it. -/
theorem InCheck.queued_enqueue (h : InCheck handler start calls s a) {due : Nat}
    (job : SysTimeoutHandler) (hdue : start < due) :
    forall d, d ∈ enqueue ⟨due, job⟩ a.queue -> d.job = handler ->
      earliestAfter handler start calls <= d.due := by
  intro d hd hjob
  rcases mem_enqueue.mp hd with hnew | hold
  · rw [hnew]
    exact Nat.le_trans (earliestAfter_le handler start calls) hdue
  · exact h.queued d hold hjob

theorem InCheck.armTcp (h : InCheck handler start calls s a) (htracks : Tracks s a) :
    start < a.now + tcpTmrInterval.toNat := by
  have hle := htracks.checkStart_le
  rw [h.begun] at hle
  have hpos : 0 < tcpTmrInterval.toNat := by
    decide
  lia

theorem InCheck.init (h : InCheck handler start calls s a) (htracks : Tracks s a)
    (hpop : Populated s) :
    InCheck handler start calls (timeoutsStep s .init) (deadlinesStep a .init) := by
  rcases htracks.phase_cases with ⟨rest, hs, ha, hidle⟩ | ⟨hs, ha, hidle⟩ |
    ⟨now, hs, ha, _⟩ | ⟨now, d, hs, ha, _⟩
  · cases rest with
    | nil =>
        simp only [timeoutsStep, sysTimeoutsInit, deadlinesStep, hs, ha]
        exact { h with handled := by intro now d hphase; cases hphase }
    | cons cyclic rest =>
        have hheld : .lwipCyclicTimer cyclic ∈ s.phase.held := by
          simp [hs, TimeoutsPhase.held]
        have hinterval := hpop.interval_bounds hheld
        have hle := htracks.checkStart_le
        rw [h.begun] at hle
        simp only [timeoutsStep, sysTimeoutsInit, deadlinesStep, hs, ha]
        refine { h with queued := ?_, handled := ?_ }
        · exact h.queued_enqueue _ (by lia)
        · intro now d hphase
          cases hphase
  · simpa [timeoutsStep, sysTimeoutsInit, deadlinesStep, hs, ha] using h
  · simpa [timeoutsStep, sysTimeoutsInit, deadlinesStep, hs, ha] using h
  · simpa [timeoutsStep, sysTimeoutsInit, deadlinesStep, hs, ha] using h

/-- An iteration calls the handler only while it has calls left. -/
theorem InCheck.loop (h : InCheck handler start calls s a) (htracks : Tracks s a)
    (hpop : Populated s) :
    InCheck handler start (calls + (called s .loop).toList.count handler)
      (timeoutsStep s .loop) (deadlinesStep a .loop) := by
  rcases htracks.phase_cases with ⟨rest, hs, ha, hidle⟩ | ⟨hs, ha, hidle⟩ |
    ⟨now, hs, ha, _⟩ | ⟨now, d, hs, ha, _⟩
  · simpa [timeoutsStep, deadlinesStep, called, hs, ha] using h
  · simpa [timeoutsStep, deadlinesStep, called, hs, ha] using h
  · rcases htracks.loop_cases hs with
      ⟨t, rest, d, deadlines, hmatch, hpassed, hsq, haq, hcalled, _, hsstep, hastep⟩ |
      ⟨_, hcalled, _, hsstep, hastep⟩
    · rw [hcalled, hsstep, hastep, Option.toList_some, List.count_singleton]
      rw [h.begun] at hpassed
      rcases eq_or_ne d.job handler with hjob | hjob
      · have hearliest := h.queued d (by simp [haq]) hjob
        have hnodup := (List.nodup_append.mp hpop.nodup).left
        rw [← htracks.map_job, haq, List.map_cons, List.nodup_cons] at hnodup
        rw [if_pos (by simp [hjob])]
        refine { h with limit := ?_, queued := ?_, handled := ?_ }
        · exact lt_callLimit_of_passed hearliest hpassed
        · intro e he hejob
          apply absurd _ hnodup.left
          rw [hjob, ← hejob]
          exact List.mem_map_of_mem he
        · intro now' e hphase _
          cases hphase
          exact ⟨Nat.succ_pos calls, hearliest⟩
      · rw [if_neg (by simpa using hjob), Nat.add_zero]
        refine { h with queued := ?_, handled := ?_ }
        · intro e he
          exact h.queued e (by rw [haq]; exact List.mem_cons_of_mem _ he)
        · intro now' e hphase hejob
          cases hphase
          exact absurd hejob hjob
    · rw [hcalled, hsstep, hastep]
      refine { h with handled := ?_ }
      intro now' d hphase
      cases hphase
  · simpa [timeoutsStep, deadlinesStep, called, hs, ha] using h

theorem InCheck.handlerReturns (h : InCheck handler start calls s a) (htracks : Tracks s a)
    (hpop : Populated s) :
    InCheck handler start calls (timeoutsStep s .handlerReturns)
      (deadlinesStep a .handlerReturns) := by
  rcases htracks.phase_cases with ⟨rest, hs, ha, hidle⟩ | ⟨hs, ha, hidle⟩ |
    ⟨now, hs, ha, _⟩ | ⟨now, d, hs, ha, _, hstarted, hdue, hpassed⟩
  · simpa [timeoutsStep, deadlinesStep, hs, ha] using h
  · simpa [timeoutsStep, deadlinesStep, hs, ha] using h
  · simpa [timeoutsStep, deadlinesStep, hs, ha] using h
  · have htcp := h.armTcp htracks
    have hfinish := finish_queue { a with phase := .checking s.checkStart } d
    have hnow : d.due <= a.now := Nat.le_trans hpassed.right hstarted.right
    simp only [timeoutsStep, deadlinesStep, hs, ha]
    refine { h with queued := ?_, handled := ?_ }
    · rcases hfinish.right.right with ⟨cyclic, hjob, hqueue⟩ | ⟨hjob, hsame | hqueue⟩
      · rw [hqueue]
        have hheld : .lwipCyclicTimer cyclic ∈ s.phase.held := by
          simp [hs, hjob, TimeoutsPhase.held]
        have hinterval := hpop.interval_bounds hheld
        have hbounds := nextDeadline_bounds cyclic.intervalMs.toNat hnow
        intro e he hejob
        rcases mem_enqueue.mp he with hnew | hold
        · -- the second call of a check is for its start, so the third is after it
          subst hnew
          have hhandled := h.handled _ d ha hejob
          have hearliest := hhandled.right
          have hlimit := h.limit
          have hbegun := h.begun
          rw [← hejob, hjob, callLimit] at hlimit
          simp only [earliestAfter, ← hejob, hjob, callLimit] at hearliest ⊢
          change _ <= nextDeadline d.due cyclic.intervalMs.toNat a.now
          rcases Nat.lt_or_ge calls 2 with hfirst | hsecond
          · rw [if_neg (by lia), if_pos hfirst]
            lia
          · rw [if_neg (by lia), if_pos (by lia)] at hearliest
            rw [if_neg (by lia), if_neg (by lia)]
            lia
        · exact h.queued e hold hejob
      · rw [hsame]
        exact h.queued
      · rw [hqueue]
        exact h.queued_enqueue _ htcp
    · intro now' e hphase
      rw [hfinish.left] at hphase
      cases hphase

theorem InCheck.step (h : InCheck handler start calls s a) (htracks : Tracks s a)
    (hpop : Populated s) {e : TimeoutsEvent} (he : e ≠ .check) :
    InCheck handler start (calls + (called s e).toList.count handler)
      (timeoutsStep s e) (deadlinesStep a e) := by
  cases e with
  | loop =>
      exact h.loop htracks hpop
  | tick =>
      exact ⟨h.begun, h.limit, h.queued, h.handled⟩
  | init =>
      exact h.init htracks hpop
  | check =>
      exact absurd rfl he
  | handlerReturns =>
      exact h.handlerReturns htracks hpop
  | reg pcbs =>
      simp only [timeoutsStep, deadlinesStep, htracks.runsStack]
      split
      · have hreg := reg_queue a pcbs
        refine { h with queued := ?_, handled := ?_ }
        · rcases hreg.right.right with hsame | hqueue
          · rw [hsame]
            exact h.queued
          · rw [hqueue]
            exact h.queued_enqueue _ (h.armTcp htracks)
        · rw [hreg.left]
          exact h.handled
      · exact h
  | rmv pcbs =>
      simp only [timeoutsStep, deadlinesStep, htracks.runsStack]
      split
      · have hrmv := rmv_queue a pcbs
        refine { h with queued := ?_, handled := ?_ }
        · rw [hrmv.right.right]
          exact h.queued
        · rw [hrmv.left]
          exact h.handled
      · exact h

theorem InCheck.run (h : InCheck handler start calls s a) (htracks : Tracks s a)
    (hpop : Populated s) {es : List TimeoutsEvent} (hcheck : .check ∉ es)
    (hpresent : AllSteps timeoutsStep Present s es) :
    calls + (observed timeoutsStep called s es).count handler <= callLimit handler := by
  induction es generalizing s a calls with
  | nil =>
      exact h.limit
  | cons e es ih =>
      rw [List.mem_cons, not_or] at hcheck
      have hstep := h.step htracks hpop (Ne.symm hcheck.left)
      have hrest := ih hstep (htracks.step hpop e hpresent.left).left
        (timeoutsStep_populated s e hpop) hcheck.right hpresent.right
      rw [observed, List.count_append]
      lia

end Check

/-- A handler that is called comes from the list. -/
theorem pending_of_called {s : TimeoutsMachine} {e : TimeoutsEvent}
    {handler : SysTimeoutHandler} (h : called s e = some handler) :
    handler ∈ s.timeouts.pending := by
  unfold called at h
  split at h
  · split at h
    · next now tmptimeout rest hphase hqueue =>
        split at h
        · cases h
        · cases h
          simp [Timeouts.pending, hqueue]
    · cases h
  · cases h

theorem called_known {s : TimeoutsMachine} (hpop : Populated s) (es : List TimeoutsEvent) :
    forall handler, handler ∈ observed timeoutsStep called s es ->
      handler ∈ startedCyclicTimers ++ [.tcpipTcpTimer] := by
  induction es generalizing s with
  | nil =>
      intro handler hmem
      cases hmem
  | cons e es ih =>
      intro handler hmem
      rw [observed] at hmem
      rcases List.mem_append.mp hmem with hnow | hlater
      · have hpending := pending_of_called (Option.mem_toList.mp hnow)
        have hplace := hpop.handlers.mem_iff.mp (List.mem_append_left _ hpending)
        rcases List.mem_append.mp hplace with hstarted | hpart
        · exact List.mem_append_left _ hstarted
        · unfold tcpTimerPart at hpart
          split at hpart
          · exact List.mem_append_right _ hpart
          · cases hpart
      · exact ih (timeoutsStep_populated s e hpop) handler hlater

/-!
# The loop of a check ends
-/

/-- So many turns of the loop of `sys_check_timeouts`, each with the return of its handler. -/
def turns : Nat -> List TimeoutsEvent
  | 0 => []
  | n + 1 => .loop :: .handlerReturns :: turns n

section Turns

variable {s : TimeoutsMachine} {e : TimeoutsEvent}

theorem step_outside (hs : s.phase = .outside) (he : e ≠ .check) :
    (timeoutsStep s e).phase = .outside := by
  cases e with
  | check => exact absurd rfl he
  | reg pcbs => simp [timeoutsStep, hs, TimeoutsPhase.runsStack]
  | rmv pcbs => simp [timeoutsStep, hs, TimeoutsPhase.runsStack]
  | _ => simp [timeoutsStep, sysTimeoutsInit, hs]

theorem run_outside (hs : s.phase = .outside) {es : List TimeoutsEvent} (hcheck : .check ∉ es) :
    (run timeoutsStep s es).phase = .outside := by
  induction es generalizing s with
  | nil => exact hs
  | cons e es ih =>
      rw [List.mem_cons, not_or] at hcheck
      exact ih (step_outside hs (Ne.symm hcheck.left)) hcheck.right

/-- In the loop only an iteration of it changes the phase. -/
theorem step_checking {now : UInt32} (hs : s.phase = .checking now) (he : e ≠ .loop) :
    (timeoutsStep s e).phase = .checking now := by
  cases e with
  | loop => exact absurd rfl he
  | reg pcbs => simp [timeoutsStep, hs, TimeoutsPhase.runsStack]
  | rmv pcbs => simp [timeoutsStep, hs, TimeoutsPhase.runsStack]
  | _ => simp [timeoutsStep, sysTimeoutsInit, hs]

/-- In a handler only its return changes the phase. -/
theorem step_handling {now : UInt32} {handler : SysTimeoutHandler}
    (hs : s.phase = .handling now handler) (he : e ≠ .handlerReturns) :
    (timeoutsStep s e).phase = .handling now handler := by
  cases e with
  | handlerReturns => exact absurd rfl he
  | reg pcbs => simp [timeoutsStep, hs, TimeoutsPhase.runsStack]
  | rmv pcbs => simp [timeoutsStep, hs, TimeoutsPhase.runsStack]
  | _ => simp [timeoutsStep, sysTimeoutsInit, hs]

/-- An iteration returns, or it calls a handler. -/
theorem loop_checking {now : UInt32} (hs : s.phase = .checking now) :
    (timeoutsStep s .loop).phase = .outside ∨
      exists handler, called s .loop = some handler ∧
        (timeoutsStep s .loop).phase = .handling now handler := by
  simp only [timeoutsStep, called, hs, sysCheckTimeouts]
  cases s.timeouts.nextTimeout with
  | nil => exact Or.inl rfl
  | cons t rest =>
      simp only
      split
      · exact Or.inl rfl
      · exact Or.inr ⟨t.h, rfl, rfl⟩

/-- Every turn that does not end the check calls one more handler. -/
theorem outside_or_called {es : List TimeoutsEvent} (hcheck : .check ∉ es) (n : Nat)
    (hturns : ((exists now, s.phase = .checking now) ∧ (turns n).Sublist es) ∨
      ((exists now handler, s.phase = .handling now handler) ∧
        (.handlerReturns :: turns n).Sublist es)) :
    (run timeoutsStep s es).phase = .outside ∨
      n <= (observed timeoutsStep called s es).length := by
  induction es generalizing s n with
  | nil =>
      rcases hturns with ⟨_, hsub⟩ | ⟨_, hsub⟩
      · cases n with
        | zero => exact Or.inr (Nat.zero_le _)
        | succ n => cases hsub
      · cases hsub
  | cons e es ih =>
      rw [List.mem_cons, not_or] at hcheck
      rw [run_cons, observed, List.length_append]
      have hlater : forall m, ((run timeoutsStep (timeoutsStep s e) es).phase = .outside ∨
          m <= (observed timeoutsStep called (timeoutsStep s e) es).length) ->
          ((run timeoutsStep (timeoutsStep s e) es).phase = .outside ∨
            m <= (called s e).toList.length +
              (observed timeoutsStep called (timeoutsStep s e) es).length) := by
        intro m hm
        exact hm.imp_right (fun hle => Nat.le_trans hle (Nat.le_add_left _ _))
      rcases hturns with ⟨⟨now, hs⟩, hsub⟩ | ⟨⟨now, handler, hs⟩, hsub⟩
      · cases n with
        | zero => exact Or.inr (Nat.zero_le _)
        | succ n =>
            rcases eq_or_ne e .loop with hloop | hother
            · subst hloop
              have hrest := List.cons_sublist_cons.mp hsub
              rcases loop_checking hs with hout | ⟨handler, hcalled, hphase⟩
              · exact Or.inl (run_outside hout hcheck.right)
              · rw [hcalled, Option.toList_some, List.length_singleton, Nat.add_comm 1]
                exact (ih hcheck.right n (Or.inr ⟨⟨now, handler, hphase⟩, hrest⟩)).imp_right
                  Nat.succ_le_succ
            · apply hlater
              apply ih hcheck.right (n + 1)
              exact Or.inl ⟨⟨now, step_checking hs hother⟩,
                List.Sublist.of_cons_of_ne (Ne.symm hother) hsub⟩
      · apply hlater
        apply ih hcheck.right n
        rcases eq_or_ne e .handlerReturns with hreturn | hother
        · subst hreturn
          have hphase : (timeoutsStep s .handlerReturns).phase = .checking now := by
            simp [timeoutsStep, hs]
          exact Or.inl ⟨⟨now, hphase⟩, List.cons_sublist_cons.mp hsub⟩
        · exact Or.inr ⟨⟨now, handler, step_handling hs hother⟩,
            List.Sublist.of_cons_of_ne (Ne.symm hother) hsub⟩

end Turns

/--
One call of `sys_check_timeouts` calls a cyclic timer at most twice and the TCP
timer at most once, so it makes at most nine calls, whatever the handlers register
and however long they take within the period of the clock.  So its loop ends: with
ten turns in it, whatever else happens between them, the check has returned.
-/
theorem sysCheckTimeouts_calls_bounded (ticks : Nat) (es fs : List TimeoutsEvent)
    (hpresent : AllSteps timeoutsStep Present (.start ticks) (es ++ .check :: fs))
    (houtside : (run timeoutsStep (.start ticks) es).phase = .outside)
    (hone : .check ∉ fs) :
    let s := run timeoutsStep (.start ticks) (es ++ [.check])
    (forall handler, (observed timeoutsStep called s fs).count handler <= callLimit handler) ∧
      (observed timeoutsStep called s fs).length <= 9 ∧
      ((turns 10).Sublist fs -> (run timeoutsStep s fs).phase = .outside) := by
  intro s
  rw [List.append_cons, allSteps_append] at hpresent
  have htracks := (run_tracks ticks hpresent.left).left
  have hpop := run_populated ticks (es ++ [.check])
  have hs : s.phase = .checking (run timeoutsStep (.start ticks) es).sysNow := by
    simp [s, run_concat, timeoutsStep, houtside]
  have hphase : (run deadlinesStep (.start ticks) (es ++ [.check])).phase =
      .checking s.checkStart := by
    rcases htracks.phase_cases with ⟨rest, hs', _⟩ | ⟨hs', _⟩ | ⟨now, _, ha, _⟩ |
      ⟨now, d, hs', _⟩
    · cases hs.symm.trans hs'
    · cases hs.symm.trans hs'
    · exact ha
    · cases hs.symm.trans hs'
  have hlimit : forall handler,
      (observed timeoutsStep called s fs).count handler <= callLimit handler := by
    intro handler
    have hbegin : InCheck handler s.checkStart 0 s
        (run deadlinesStep (.start ticks) (es ++ [.check])) := by
      constructor
      · rfl
      · exact Nat.zero_le _
      · intro d _ _
        exact Nat.zero_le _
      · intro now d hhandling
        cases hphase.symm.trans hhandling
    have hrun := hbegin.run htracks hpop hone hpresent.right
    lia
  have hcalls : (observed timeoutsStep called s fs).length <= 9 :=
    length_le_of_count_le (called_known hpop fs) hlimit
  refine ⟨hlimit, hcalls, ?_⟩
  intro hturns
  rcases outside_or_called hone 10 (Or.inl ⟨⟨_, hs⟩, hturns⟩) with hout | hmany
  · exact hout
  · exact absurd (Nat.le_trans hmany hcalls) (by decide)

/-- The check of the first half second calls the fine timer of DHCP and returns. -/
theorem sysCheckTimeouts_calls_bounded_firstHalfSecond :
    let s := run timeoutsStep (.start 0)
      (List.replicate 5 .init ++ List.replicate 50 .tick ++ [.check])
    (observed timeoutsStep called s (turns 10)).length <= 9 ∧
      (run timeoutsStep s (turns 10)).phase = .outside ∧
      observed timeoutsStep called s (turns 10) = [.lwipCyclicTimer ⟨500, .dhcpFineTmr⟩] := by
  intro s
  rcases sysCheckTimeouts_calls_bounded 0 (List.replicate 5 .init ++ List.replicate 50 .tick)
    (turns 10) (by decide +kernel) (by decide +kernel) (by decide) with ⟨_, hcalls, hreturns⟩
  exact ⟨hcalls, hreturns (List.Sublist.refl _), by decide +kernel⟩

end Net
end Ch579HttpLed
