import Ch579HttpLed.Foundation.Deadlines
import Ch579HttpLed.Net.TimeoutPool
import Mathlib.Data.List.Forall2

/-!
# The timeout list as a queue of true deadlines

The purpose of the timeout list is a queue of deadlines in true time, which
never wraps: a check serves the deadlines that have passed when it starts, the
earliest first, and leaves the others.  The 32-bit list refines this queue as
long as the foreground completes a check at least every half period of the
clock, less the longest interval.
-/

namespace Ch579HttpLed
namespace Net

open Foundation

/-!
# The abstract queue
-/

inductive DeadlinesPhase where
  | initialising (rest : List LwipCyclicTimer)
  | outside
  | checking (now : Nat)
  | handling (now : Nat) (d : Deadline SysTimeoutHandler)
deriving DecidableEq, Repr

structure Deadlines where
  ticks : Nat
  phase : DeadlinesPhase
  queue : List (Deadline SysTimeoutHandler)
  tcpActive : Bool
  tcpActivePcbs : Nat
  tcpTwPcbs : Nat
deriving DecidableEq, Repr

def Deadlines.start (ticks : Nat) : Deadlines where
  ticks := ticks
  phase := .initialising (lwipCyclicTimers.drop 1)
  queue := []
  tcpActive := false
  tcpActivePcbs := 0
  tcpTwPcbs := 0

/-- True milliseconds. -/
def Deadlines.now (a : Deadlines) : Nat :=
  10 * a.ticks

def Deadlines.armAt (due : Nat) (handler : SysTimeoutHandler) (a : Deadlines) : Deadlines :=
  { a with queue := enqueue ⟨due, handler⟩ a.queue }

/-- The next deadline of a cyclic timer: one interval on, or from now if that has passed. -/
def nextDeadline (due interval now : Nat) : Nat :=
  if due + interval < now then now + interval else due + interval

def Deadlines.pcbsLeft (a : Deadlines) : Bool :=
  a.tcpActivePcbs ≠ 0 || a.tcpTwPcbs ≠ 0

def Deadlines.finish (a : Deadlines) (d : Deadline SysTimeoutHandler) : Deadlines :=
  match d.job with
  | .lwipCyclicTimer cyclic =>
      a.armAt (nextDeadline d.due cyclic.intervalMs.toNat a.now) (.lwipCyclicTimer cyclic)
  | .tcpipTcpTimer =>
      if a.pcbsLeft then a.armAt (a.now + tcpTmrInterval.toNat) .tcpipTcpTimer
      else { a with tcpActive := false }

def Deadlines.push (a : Deadlines) : PcbList -> Deadlines
  | .bound => a
  | .listen => a
  | .active => { a with tcpActivePcbs := a.tcpActivePcbs + 1 }
  | .timeWait => { a with tcpTwPcbs := a.tcpTwPcbs + 1 }

def Deadlines.reg (a : Deadlines) (pcbs : PcbList) : Deadlines :=
  let a := a.push pcbs
  if !a.tcpActive && a.pcbsLeft then
    { a with tcpActive := true }.armAt (a.now + tcpTmrInterval.toNat) .tcpipTcpTimer
  else a

def Deadlines.rmv (a : Deadlines) : PcbList -> Deadlines
  | .bound => a
  | .listen => a
  | .active => { a with tcpActivePcbs := a.tcpActivePcbs - 1 }
  | .timeWait => { a with tcpTwPcbs := a.tcpTwPcbs - 1 }

def Deadlines.serve (now : Nat) (a : Deadlines) : Deadlines :=
  match a.queue with
  | [] => { a with phase := .outside }
  | d :: rest =>
      if now < d.due then { a with phase := .outside }
      else { a with phase := .handling now d, queue := rest }

def DeadlinesPhase.runsStack : DeadlinesPhase -> Bool
  | .outside => true
  | .handling _ _ => true
  | _ => false

def deadlinesStep (a : Deadlines) : TimeoutsEvent -> Deadlines
  | .tick => { a with ticks := a.ticks + 1 }
  | .init =>
      match a.phase with
      | .initialising (cyclic :: rest) =>
          { a with phase := .initialising rest }.armAt
            (a.now + cyclic.intervalMs.toNat) (.lwipCyclicTimer cyclic)
      | .initialising [] => { a with phase := .outside }
      | _ => a
  | .check =>
      match a.phase with
      | .outside => { a with phase := .checking a.now }
      | _ => a
  | .loop =>
      match a.phase with
      | .checking now => a.serve now
      | _ => a
  | .handlerReturns =>
      match a.phase with
      | .handling now d => { a with phase := .checking now }.finish d
      | _ => a
  | .reg pcbs => if a.phase.runsStack then a.reg pcbs else a
  | .rmv pcbs => if a.phase.runsStack then a.rmv pcbs else a

/-- The deadline that a step serves. -/
def served (a : Deadlines) : TimeoutsEvent -> Option (Deadline SysTimeoutHandler)
  | .loop =>
      match a.phase, a.queue with
      | .checking now, d :: _ => if now < d.due then none else some d
      | _, _ => none
  | _ => none

/-!
# Wrapped times
-/

/-- A 32-bit time shows a number of true milliseconds. -/
def Shows (t : UInt32) (ms : Nat) : Prop :=
  t.toNat = ms % 2 ^ 32

theorem Shows.add {t : UInt32} {ms : Nat} (h : Shows t ms) (interval : UInt32) :
    Shows (t + interval) (ms + interval.toNat) := by
  unfold Shows at *
  rw [UInt32.toNat_add, h, Nat.mod_add_mod]

/-- Times in one window of half a period are compared as in true time. -/
theorem Shows.timeLessThan_iff {t u : UInt32} {a b : Nat} (ht : Shows t a) (hu : Shows u b)
    (low : Nat) (hlow : low <= a ∧ low <= b)
    (hhigh : a <= low + 0x7fffffff ∧ b <= low + 0x7fffffff) :
    timeLessThan t u = true <-> a < b :=
  timeLessThan_iff_lt ht hu (by lia) (by lia)

/-- An element of the list stands for a deadline. -/
def Matches (t : SysTimeo) (d : Deadline SysTimeoutHandler) : Prop :=
  Shows t.time d.due ∧ t.h = d.job

theorem insertTimeout_matches {t : SysTimeo} {d : Deadline SysTimeoutHandler}
    (hmatch : Matches t d) (low : Nat)
    (hd : low <= d.due ∧ d.due <= low + 0x7fffffff)
    {queue : List SysTimeo} {deadlines : List (Deadline SysTimeoutHandler)}
    (hqueue : List.Forall₂ Matches queue deadlines)
    (hwindow : forall e, e ∈ deadlines -> low <= e.due ∧ e.due <= low + 0x7fffffff) :
    List.Forall₂ Matches (insertTimeout t queue) (enqueue d deadlines) := by
  induction hqueue with
  | nil =>
      exact List.Forall₂.cons hmatch List.Forall₂.nil
  | cons hhead htail ih =>
      rename_i u e queue deadlines
      have he := hwindow e List.mem_cons_self
      have hless := hmatch.left.timeLessThan_iff hhead.left low
        ⟨hd.left, he.left⟩ ⟨hd.right, he.right⟩
      rw [insertTimeout_cons, enqueue]
      rcases Nat.lt_or_ge d.due e.due with hlt | hge
      · rw [if_pos (hless.mpr hlt), if_pos hlt]
        exact List.Forall₂.cons hmatch (List.Forall₂.cons hhead htail)
      · rw [if_neg (fun h => Nat.not_lt.mpr hge (hless.mp h)), if_neg (Nat.not_lt.mpr hge)]
        apply List.Forall₂.cons hhead
        exact ih (fun f hf => hwindow f (List.mem_cons_of_mem _ hf))

/-!
# The window

All times in play lie between the start of the last check that returned and the
longest interval from now.
-/

def longestInterval : Nat := 60 * 1000

theorem interval_bounds : forall cyclic, cyclic ∈ lwipCyclicTimers ->
    0 < cyclic.intervalMs.toNat ∧ cyclic.intervalMs.toNat <= longestInterval := by
  decide

/-- A cyclic timer that is armed or served is one of the table. -/
theorem Populated.interval_bounds {s : TimeoutsMachine} (h : Populated s)
    {cyclic : LwipCyclicTimer} (hheld : .lwipCyclicTimer cyclic ∈ s.phase.held) :
    0 < cyclic.intervalMs.toNat ∧ cyclic.intervalMs.toNat <= longestInterval := by
  have hmem := h.handlers.mem_iff.mp (List.mem_append_right _ hheld)
  rcases List.mem_append.mp hmem with hstarted | hpart
  · rcases List.mem_map.mp hstarted with ⟨c, hc, hcyclic⟩
    cases hcyclic
    exact Net.interval_bounds _ (List.mem_of_mem_drop hc)
  · unfold tcpTimerPart at hpart
    split at hpart
    · cases List.mem_singleton.mp hpart
    · cases hpart

/-- The phases agree, with the times they hold inside the window. -/
inductive PhaseMatches (lastCheck checkStart nowMs : Nat) (due : UInt32) :
    TimeoutsPhase -> DeadlinesPhase -> Prop where
  | initialising (rest : List LwipCyclicTimer) (hidle : checkStart = lastCheck) :
      PhaseMatches lastCheck checkStart nowMs due (.initialising rest) (.initialising rest)
  | outside (hidle : checkStart = lastCheck) :
      PhaseMatches lastCheck checkStart nowMs due .outside .outside
  | checking {now : UInt32} (hshow : Shows now checkStart)
      (hstart : lastCheck <= checkStart ∧ checkStart <= nowMs) :
      PhaseMatches lastCheck checkStart nowMs due (.checking now) (.checking checkStart)
  | handling {now : UInt32} {d : Deadline SysTimeoutHandler} (hshow : Shows now checkStart)
      (hstart : lastCheck <= checkStart ∧ checkStart <= nowMs)
      (hdue : Shows due d.due) (hpassed : lastCheck < d.due ∧ d.due <= checkStart) :
      PhaseMatches lastCheck checkStart nowMs due (.handling now d.job)
        (.handling checkStart d)

structure Tracks (s : TimeoutsMachine) (a : Deadlines) : Prop where
  ticks : a.ticks = s.ticks
  phase : PhaseMatches s.lastCheck s.checkStart a.now s.timeouts.currentTimeoutDueTime
    s.phase a.phase
  queue : List.Forall₂ Matches s.timeouts.nextTimeout a.queue
  active : a.tcpActive = s.timeouts.tcpipTcpTimerActive
  activePcbs : a.tcpActivePcbs = s.timeouts.tcpActivePcbs
  twPcbs : a.tcpTwPcbs = s.timeouts.tcpTwPcbs
  inOrder : ByDue a.queue
  past : s.lastCheck <= a.now
  recent : a.now + longestInterval <= s.lastCheck + 0x7fffffff
  window : forall d, d ∈ a.queue -> s.lastCheck < d.due ∧ d.due <= a.now + longestInterval

theorem start_tracks (ticks : Nat) : Tracks (.start ticks) (.start ticks) where
  ticks := rfl
  phase := PhaseMatches.initialising _ rfl
  queue := List.Forall₂.nil
  active := rfl
  activePcbs := rfl
  twPcbs := rfl
  inOrder := List.Pairwise.nil
  past := Nat.le_refl _
  recent := by
    change 10 * ticks + 60 * 1000 <= 10 * ticks + 0x7fffffff
    lia
  window := by
    intro d hd
    cases hd

section Tracks

variable {s : TimeoutsMachine} {a : Deadlines}

theorem Tracks.sysNow (h : Tracks s a) : Shows s.sysNow a.now := by
  unfold Deadlines.now
  rw [h.ticks]
  exact sysNow_toNat s.ticks

theorem Tracks.pcbsLeft (h : Tracks s a) : a.pcbsLeft = tcpPcbsLeft s.timeouts := by
  unfold Deadlines.pcbsLeft tcpPcbsLeft
  rw [h.activePcbs, h.twPcbs]

theorem Tracks.withPhase (h : Tracks s a) {p : TimeoutsPhase} {q : DeadlinesPhase}
    (hphase : PhaseMatches s.lastCheck s.checkStart a.now s.timeouts.currentTimeoutDueTime p q) :
    Tracks { s with phase := p } { a with phase := q } :=
  { h with phase := hphase }

/-- Arming for a time inside the window keeps the list and the queue in step. -/
theorem Tracks.arm (h : Tracks s a) (hfree : s.timeouts.freeTimeouts ≠ 0)
    {absTime : UInt32} {due : Nat} (hshow : Shows absTime due)
    (hdue : s.lastCheck < due ∧ due <= a.now + longestInterval)
    (handler : SysTimeoutHandler) :
    Tracks { s with timeouts := sysTimeoutAbs absTime handler s.timeouts }
      (a.armAt due handler) := by
  rw [sysTimeoutAbs_eq absTime handler hfree]
  have hrecent := h.recent
  refine { h with queue := ?_, inOrder := ?_, window := ?_ }
  · apply insertTimeout_matches ⟨hshow, rfl⟩ s.lastCheck ⟨Nat.le_of_lt hdue.left, by
      change due <= _
      lia⟩ h.queue
    intro e he
    have hwindow := h.window e he
    lia
  · exact enqueue_byDue _ h.inOrder
  · intro d hd
    rcases mem_enqueue.mp hd with hnew | hold
    · rw [hnew]
      exact hdue
    · exact h.window d hold

end Tracks

/-!
# Steps in step
-/

/-- The foreground completes checks often enough for the clock. -/
def Present (s : TimeoutsMachine) (e : TimeoutsEvent) : Prop :=
  e = .tick -> 10 * (s.ticks + 1) + longestInterval <= s.lastCheck + 0x7fffffff

instance (s : TimeoutsMachine) (e : TimeoutsEvent) : Decidable (Present s e) :=
  inferInstanceAs (Decidable (_ -> _))

section Steps

variable {s : TimeoutsMachine} {a : Deadlines}

theorem PhaseMatches.later {lastCheck checkStart nowMs nowMs' : Nat} {due : UInt32}
    {p : TimeoutsPhase} {q : DeadlinesPhase} (hle : nowMs <= nowMs')
    (h : PhaseMatches lastCheck checkStart nowMs due p q) :
    PhaseMatches lastCheck checkStart nowMs' due p q := by
  cases h with
  | initialising rest hidle =>
      exact .initialising rest hidle
  | outside hidle =>
      exact .outside hidle
  | checking hshow hstart =>
      exact .checking hshow ⟨hstart.left, Nat.le_trans hstart.right hle⟩
  | handling hshow hstart hdue hpassed =>
      exact .handling hshow ⟨hstart.left, Nat.le_trans hstart.right hle⟩ hdue hpassed

theorem Tracks.tick (h : Tracks s a) (hpresent : Present s .tick) :
    Tracks (timeoutsStep s .tick) (deadlinesStep a .tick) := by
  have hlater : a.now <= (deadlinesStep a .tick).now := by
    simp only [Deadlines.now, deadlinesStep]
    lia
  have hpast := h.past
  refine { h with ticks := ?_, phase := ?_, past := ?_, recent := ?_, window := ?_ }
  · simp [timeoutsStep, deadlinesStep, h.ticks]
  · exact h.phase.later hlater
  · exact Nat.le_trans h.past hlater
  · have hroom := hpresent rfl
    simp only [Deadlines.now, deadlinesStep, h.ticks]
    exact hroom
  · intro d hd
    have hwindow := h.window d hd
    exact ⟨hwindow.left, by lia⟩

/-- The two machines are in the same phase. -/
theorem Tracks.phase_cases (h : Tracks s a) :
    (exists rest, s.phase = .initialising rest ∧ a.phase = .initialising rest ∧
      s.checkStart = s.lastCheck) ∨
    (s.phase = .outside ∧ a.phase = .outside ∧ s.checkStart = s.lastCheck) ∨
    (exists now, s.phase = .checking now ∧ a.phase = .checking s.checkStart ∧
      Shows now s.checkStart ∧ s.lastCheck <= s.checkStart ∧ s.checkStart <= a.now) ∨
    (exists now d, s.phase = .handling now d.job ∧ a.phase = .handling s.checkStart d ∧
      Shows now s.checkStart ∧ (s.lastCheck <= s.checkStart ∧ s.checkStart <= a.now) ∧
      Shows s.timeouts.currentTimeoutDueTime d.due ∧
      s.lastCheck < d.due ∧ d.due <= s.checkStart) := by
  have hmatch := h.phase
  revert hmatch
  generalize hp : s.phase = p
  generalize hq : a.phase = q
  intro hmatch
  cases hmatch with
  | initialising rest hidle =>
      exact Or.inl ⟨rest, rfl, rfl, hidle⟩
  | outside hidle =>
      exact Or.inr (Or.inl ⟨rfl, rfl, hidle⟩)
  | checking hshow hstart =>
      exact Or.inr (Or.inr (Or.inl ⟨_, rfl, rfl, hshow, hstart⟩))
  | handling hshow hstart hdue hpassed =>
      exact Or.inr (Or.inr (Or.inr ⟨_, _, rfl, rfl, hshow, hstart, hdue, hpassed⟩))

theorem Tracks.init (h : Tracks s a) (hpop : Populated s) :
    Tracks (timeoutsStep s .init) (deadlinesStep a .init) := by
  rcases h.phase_cases with ⟨rest, hs, ha, hidle⟩ | ⟨hs, ha, hidle⟩ |
    ⟨now, hs, ha, _⟩ | ⟨now, d, hs, ha, _⟩
  · cases rest with
    | nil =>
        simpa [timeoutsStep, sysTimeoutsInit, deadlinesStep, hs, ha] using
          h.withPhase (.outside hidle)
    | cons cyclic rest =>
        have hheld : .lwipCyclicTimer cyclic ∈ s.phase.held := by
          simp [hs, TimeoutsPhase.held]
        have hinterval := hpop.interval_bounds hheld
        have hfree := hpop.free (Or.inl (by simp [hs, TimeoutsPhase.held]))
        have harmed := (h.withPhase (.initialising rest hidle)).arm hfree
          (h.sysNow.add cyclic.intervalMs)
          ⟨Nat.lt_of_le_of_lt h.past (Nat.lt_add_of_pos_right hinterval.left),
            Nat.add_le_add_left hinterval.right _⟩
          (.lwipCyclicTimer cyclic)
        simpa [timeoutsStep, sysTimeoutsInit, deadlinesStep, hs, ha, sysTimeout,
          nextTimeoutTime] using harmed
  · simpa [timeoutsStep, sysTimeoutsInit, deadlinesStep, hs, ha] using h
  · simpa [timeoutsStep, sysTimeoutsInit, deadlinesStep, hs, ha] using h
  · simpa [timeoutsStep, sysTimeoutsInit, deadlinesStep, hs, ha] using h

theorem Tracks.check (h : Tracks s a) :
    Tracks (timeoutsStep s .check) (deadlinesStep a .check) := by
  rcases h.phase_cases with ⟨rest, hs, ha, hidle⟩ | ⟨hs, ha, hidle⟩ |
    ⟨now, hs, ha, _⟩ | ⟨now, d, hs, ha, _⟩
  · simpa [timeoutsStep, deadlinesStep, hs, ha] using h
  · have hnow : 10 * s.ticks = a.now := by
      unfold Deadlines.now
      rw [h.ticks]
    simp only [timeoutsStep, deadlinesStep, hs, ha, hnow]
    refine { h with phase := ?_ }
    exact .checking h.sysNow ⟨h.past, Nat.le_refl _⟩
  · simpa [timeoutsStep, deadlinesStep, hs, ha] using h
  · simpa [timeoutsStep, deadlinesStep, hs, ha] using h

/-- A check that returns leaves only deadlines after its start. -/
theorem Tracks.returns (h : Tracks s a)
    (hstart : s.lastCheck <= s.checkStart ∧ s.checkStart <= a.now)
    (hnone : forall d, d ∈ a.queue -> s.checkStart < d.due) :
    Tracks { s with phase := .outside, lastCheck := s.checkStart }
      { a with phase := .outside } := by
  have hrecent := h.recent
  refine { h with phase := .outside rfl, past := hstart.right, recent := ?_, window := ?_ }
  · change a.now + longestInterval <= s.checkStart + 0x7fffffff
    lia
  · intro d hd
    exact ⟨hnone d hd, (h.window d hd).right⟩

/-- An iteration of a check serves the earliest deadline, or finds none that has passed. -/
theorem Tracks.loop_cases (h : Tracks s a) {now : UInt32} (hs : s.phase = .checking now) :
    (exists t rest d deadlines, Matches t d ∧ d.due <= s.checkStart ∧
      s.timeouts.nextTimeout = t :: rest ∧ a.queue = d :: deadlines ∧
      called s .loop = some d.job ∧ served a .loop = some d ∧
      timeoutsStep s .loop =
        { s with
          phase := .handling now t.h
          timeouts := { s.timeouts with
            nextTimeout := rest
            currentTimeoutDueTime := t.time
            freeTimeouts := s.timeouts.freeTimeouts + 1 } } ∧
      deadlinesStep a .loop = { a with phase := .handling s.checkStart d, queue := deadlines }) ∨
    ((forall d, d ∈ a.queue -> s.checkStart < d.due) ∧
      called s .loop = none ∧ served a .loop = none ∧
      timeoutsStep s .loop = { s with phase := .outside, lastCheck := s.checkStart } ∧
      deadlinesStep a .loop = { a with phase := .outside }) := by
  rcases h.phase_cases with ⟨rest, hs', _⟩ | ⟨hs', _⟩ | ⟨now', hs', ha, hshow, hstart⟩ |
    ⟨now', d, hs', _⟩
  · cases hs.symm.trans hs'
  · cases hs.symm.trans hs'
  · cases hs.symm.trans hs'
    have hqueue := h.queue
    simp only [timeoutsStep, deadlinesStep, called, served, hs, ha, sysCheckTimeouts,
      Deadlines.serve]
    cases hsq : s.timeouts.nextTimeout with
    | nil =>
        rw [hsq] at hqueue
        have haq := List.forall₂_nil_left_iff.mp hqueue
        simp [haq]
    | cons t rest =>
        rw [hsq] at hqueue
        rcases List.forall₂_cons_left_iff.mp hqueue with ⟨d, deadlines, hmatch, hrest, haq⟩
        have hd := h.window d (by simp [haq])
        have hrecent := h.recent
        have hinOrder := h.inOrder
        rw [haq] at hinOrder
        have hless := hshow.timeLessThan_iff hmatch.left s.lastCheck
          ⟨hstart.left, Nat.le_of_lt hd.left⟩ ⟨by lia, by lia⟩
        rcases Nat.lt_or_ge s.checkStart d.due with hlt | hge
        · apply Or.inr
          refine ⟨by rw [haq]; exact hinOrder.none_due hlt, ?_⟩
          simp [haq, hless.mpr hlt, hlt]
        · apply Or.inl
          have hnot : ¬ timeLessThan now t.time = true :=
            fun hcontra => Nat.not_lt.mpr hge (hless.mp hcontra)
          simp only [haq, if_neg hnot, if_neg (Nat.not_lt.mpr hge)]
          exact ⟨t, rest, d, deadlines, hmatch, hge, rfl, rfl, by rw [hmatch.right], rfl,
            rfl, rfl⟩
  · cases hs.symm.trans hs'

/-- An iteration of the check serves the same timeout in both machines, or none. -/
theorem Tracks.loop (h : Tracks s a) :
    Tracks (timeoutsStep s .loop) (deadlinesStep a .loop) ∧
      called s .loop = (served a .loop).map Deadline.job := by
  rcases h.phase_cases with ⟨rest, hs, ha, hidle⟩ | ⟨hs, ha, hidle⟩ |
    ⟨now, hs, ha, hshow, hstart⟩ | ⟨now, d, hs, ha, _⟩
  · simpa [timeoutsStep, deadlinesStep, called, served, hs, ha] using h
  · simpa [timeoutsStep, deadlinesStep, called, served, hs, ha] using h
  · rcases h.loop_cases hs with
      ⟨t, rest, d, deadlines, hmatch, hpassed, hsq, haq, hcalled, hserved, hsstep, hastep⟩ |
      ⟨hnone, hcalled, hserved, hsstep, hastep⟩
    · have hd := h.window d (by simp [haq])
      have hqueue := h.queue
      have hinOrder := h.inOrder
      rw [hsq, haq] at hqueue
      rw [haq] at hinOrder
      rw [hsstep, hastep, hcalled, hserved]
      refine ⟨?_, rfl⟩
      refine { h with
        phase := ?_, queue := (List.forall₂_cons.mp hqueue).right, inOrder := hinOrder.tail,
        window := ?_ }
      · rw [hmatch.right]
        exact .handling hshow hstart hmatch.left ⟨hd.left, hpassed⟩
      · intro e he
        exact h.window e (by rw [haq]; exact List.mem_cons_of_mem _ he)
    · rw [hsstep, hastep, hcalled, hserved]
      exact ⟨h.returns hstart hnone, rfl⟩
  · simpa [timeoutsStep, deadlinesStep, called, served, hs, ha] using h

/-- The cyclic timer computes its next deadline. -/
theorem Tracks.cyclicNextTime (h : Tracks s a) {cyclic : LwipCyclicTimer} {due : Nat}
    (hinterval : cyclic.intervalMs.toNat <= longestInterval)
    (hdue : Shows s.timeouts.currentTimeoutDueTime due)
    (hpassed : s.lastCheck <= due ∧ due <= a.now) :
    Shows (Net.cyclicNextTime s.sysNow cyclic s.timeouts)
      (nextDeadline due cyclic.intervalMs.toNat a.now) := by
  have hrecent := h.recent
  have hpast := h.past
  have hless := (hdue.add cyclic.intervalMs).timeLessThan_iff h.sysNow s.lastCheck
    ⟨by lia, hpast⟩ ⟨by lia, by lia⟩
  unfold Net.cyclicNextTime nextDeadline
  rcases Nat.lt_or_ge (due + cyclic.intervalMs.toNat) a.now with hlt | hge
  · rw [if_pos (hless.mpr hlt), if_pos hlt]
    exact h.sysNow.add cyclic.intervalMs
  · rw [if_neg (fun hcontra => Nat.not_lt.mpr hge (hless.mp hcontra)),
      if_neg (Nat.not_lt.mpr hge)]
    exact hdue.add cyclic.intervalMs

theorem nextDeadline_bounds {due now : Nat} (interval : Nat) (hdue : due <= now) :
    due + interval <= nextDeadline due interval now ∧ now <= nextDeadline due interval now ∧
      nextDeadline due interval now <= now + interval := by
  unfold nextDeadline
  split <;> lia

/-- The TCP timer is armed one interval from now. -/
theorem Tracks.armTcp (h : Tracks s a) (hfree : s.timeouts.freeTimeouts ≠ 0) :
    Tracks { s with timeouts := sysTimeout s.sysNow tcpTmrInterval .tcpipTcpTimer s.timeouts }
      (a.armAt (a.now + tcpTmrInterval.toNat) .tcpipTcpTimer) := by
  have hinterval : 0 < tcpTmrInterval.toNat ∧ tcpTmrInterval.toNat <= longestInterval := by
    decide
  exact h.arm hfree (h.sysNow.add tcpTmrInterval)
    ⟨Nat.lt_of_le_of_lt h.past (Nat.lt_add_of_pos_right hinterval.left),
      Nat.add_le_add_left hinterval.right _⟩
    .tcpipTcpTimer

theorem Tracks.handlerReturns (h : Tracks s a) (hpop : Populated s) :
    Tracks (timeoutsStep s .handlerReturns) (deadlinesStep a .handlerReturns) := by
  rcases h.phase_cases with ⟨rest, hs, ha, hidle⟩ | ⟨hs, ha, hidle⟩ | ⟨now, hs, ha, _⟩ |
    ⟨now, d, hs, ha, hshow, hstart, hdue, hpassed⟩
  · simpa [timeoutsStep, deadlinesStep, hs, ha] using h
  · simpa [timeoutsStep, deadlinesStep, hs, ha] using h
  · simpa [timeoutsStep, deadlinesStep, hs, ha] using h
  · have hheld : d.job ∈ s.phase.held := by
      simp [hs, TimeoutsPhase.held]
    have hfree := hpop.free (Or.inl (List.ne_nil_of_mem hheld))
    have hchecking := h.withPhase (.checking hshow hstart)
    simp only [timeoutsStep, deadlinesStep, hs, ha]
    cases hjob : d.job with
    | lwipCyclicTimer cyclic =>
        rw [hjob] at hheld
        have hinterval := hpop.interval_bounds hheld
        have hnow : d.due <= a.now := Nat.le_trans hpassed.right hstart.right
        have hbounds := nextDeadline_bounds cyclic.intervalMs.toNat hnow
        simp only [Deadlines.finish, hjob, SysTimeoutHandler.finish, lwipCyclicTimer_eq]
        exact hchecking.arm hfree
          (h.cyclicNextTime hinterval.right hdue ⟨Nat.le_of_lt hpassed.left, hnow⟩)
          ⟨by lia, Nat.le_trans hbounds.right.right (Nat.add_le_add_left hinterval.right _)⟩ _
    | tcpipTcpTimer =>
        have hleft := hchecking.pcbsLeft
        simp only [Deadlines.finish, hjob, SysTimeoutHandler.finish, tcpipTcpTimer, hleft]
        split
        · exact hchecking.armTcp hfree
        · exact { hchecking with active := rfl }

theorem Tracks.reg (h : Tracks s a) (hpop : Populated s) (pcbs : PcbList) :
    Tracks { s with timeouts := tcpReg s.sysNow pcbs s.timeouts } (a.reg pcbs) := by
  have hpushed : Tracks { s with timeouts := pushPcb s.timeouts pcbs } (a.push pcbs) := by
    cases pcbs with
    | active =>
        exact { h with activePcbs := congrArg (· + 1) h.activePcbs }
    | timeWait =>
        exact { h with twPcbs := congrArg (· + 1) h.twPcbs }
    | _ =>
        exact h
  have hactive := hpushed.active
  have hleft := hpushed.pcbsLeft
  have hframe : (pushPcb s.timeouts pcbs).tcpipTcpTimerActive = s.timeouts.tcpipTcpTimerActive ∧
      (pushPcb s.timeouts pcbs).freeTimeouts = s.timeouts.freeTimeouts := by
    cases pcbs <;> exact ⟨rfl, rfl⟩
  simp only [tcpReg, tcpTimerNeeded, Deadlines.reg, hactive, hleft]
  split
  · next hneeded =>
      have hoff : s.timeouts.tcpipTcpTimerActive = false := by
        simp only [hframe.left, Bool.and_eq_true, Bool.not_eq_true'] at hneeded
        exact hneeded.left
      have hfree := hpop.free (Or.inr hoff)
      rw [← hframe.right] at hfree
      have hon : Tracks
          { s with timeouts := { pushPcb s.timeouts pcbs with tcpipTcpTimerActive := true } }
          { a.push pcbs with tcpActive := true } := { hpushed with active := rfl }
      exact hon.armTcp hfree
  · exact hpushed

theorem Tracks.rmv (h : Tracks s a) (pcbs : PcbList) :
    Tracks { s with timeouts := tcpRmv pcbs s.timeouts } (a.rmv pcbs) := by
  cases pcbs with
  | active =>
      exact { h with activePcbs := congrArg (· - 1) h.activePcbs }
  | timeWait =>
      exact { h with twPcbs := congrArg (· - 1) h.twPcbs }
  | _ =>
      exact h

theorem Tracks.runsStack (h : Tracks s a) : a.phase.runsStack = s.phase.runsStack := by
  rcases h.phase_cases with ⟨rest, hs, ha, hidle⟩ | ⟨hs, ha, hidle⟩ |
    ⟨now, hs, ha, _⟩ | ⟨now, d, hs, ha, _⟩ <;>
    rw [hs, ha] <;> rfl

theorem Tracks.step (h : Tracks s a) (hpop : Populated s) (e : TimeoutsEvent)
    (hpresent : Present s e) :
    Tracks (timeoutsStep s e) (deadlinesStep a e) ∧
      called s e = (served a e).map Deadline.job := by
  cases e with
  | loop =>
      exact h.loop
  | tick =>
      exact ⟨h.tick hpresent, rfl⟩
  | init =>
      exact ⟨h.init hpop, rfl⟩
  | check =>
      exact ⟨h.check, rfl⟩
  | handlerReturns =>
      exact ⟨h.handlerReturns hpop, rfl⟩
  | reg pcbs =>
      refine ⟨?_, rfl⟩
      simp only [timeoutsStep, deadlinesStep, h.runsStack]
      split
      · exact h.reg hpop pcbs
      · exact h
  | rmv pcbs =>
      refine ⟨?_, rfl⟩
      simp only [timeoutsStep, deadlinesStep, h.runsStack]
      split
      · exact h.rmv pcbs
      · exact h

end Steps

/-!
# Runs
-/

/-- Both machines stay in step and serve the same handlers. -/
theorem Tracks.run {s : TimeoutsMachine} {a : Deadlines} (h : Tracks s a)
    (hpop : Populated s) {es : List TimeoutsEvent}
    (hpresent : AllSteps timeoutsStep Present s es) :
    Tracks (Foundation.run timeoutsStep s es) (Foundation.run deadlinesStep a es) ∧
      observed timeoutsStep called s es =
        (observed deadlinesStep served a es).map Deadline.job := by
  induction es generalizing s a with
  | nil =>
      exact ⟨h, rfl⟩
  | cons e es ih =>
      have hstep := h.step hpop e hpresent.left
      have hrest := ih hstep.left (timeoutsStep_populated s e hpop) hpresent.right
      refine ⟨hrest.left, ?_⟩
      rw [observed, observed, hstep.right, hrest.right, List.map_append]
      cases served a e <;> rfl

theorem run_tracks (ticks : Nat) {es : List TimeoutsEvent}
    (hpresent : AllSteps timeoutsStep Present (.start ticks) es) :
    Tracks (run timeoutsStep (.start ticks) es) (run deadlinesStep (.start ticks) es) ∧
      observed timeoutsStep called (.start ticks) es =
        (observed deadlinesStep served (.start ticks) es).map Deadline.job :=
  (start_tracks ticks).run (start_populated ticks) hpresent

/--
In every run whose foreground completes checks often enough, `sys_check_timeouts`
calls the handlers of the true deadlines that the abstract queue serves, in that
order.  An iteration calls the handler of the earliest deadline, which has passed
when the check was started, or returns with no such deadline left.
-/
theorem sysCheckTimeouts_serves_deadlines (ticks : Nat) (es : List TimeoutsEvent)
    (hpresent : AllSteps timeoutsStep Present (.start ticks) es) :
    let s := run timeoutsStep (.start ticks) es
    let a := run deadlinesStep (.start ticks) es
    observed timeoutsStep called (.start ticks) es =
        (observed deadlinesStep served (.start ticks) es).map Deadline.job ∧
      ByDue a.queue ∧
      (forall now, s.phase = .checking now ->
        (exists d rest, a.queue = d :: rest ∧ d.due <= s.checkStart ∧
          called s .loop = some d.job) ∨
        (called s .loop = none ∧ (timeoutsStep s .loop).phase = .outside ∧
          forall d, d ∈ a.queue -> s.checkStart < d.due)) := by
  intro s a
  have htracks := run_tracks ticks hpresent
  refine ⟨htracks.right, htracks.left.inOrder, ?_⟩
  intro now hnow
  rcases htracks.left.loop_cases hnow with
    ⟨t, rest, d, deadlines, _, hpassed, _, hqueue, hcalled, _⟩ |
    ⟨hnone, hcalled, _, hstep, _⟩
  · exact Or.inl ⟨d, deadlines, hqueue, hpassed, hcalled⟩
  · exact Or.inr ⟨hcalled, congrArg TimeoutsMachine.phase hstep, hnone⟩

/-- Start-up and the first half second, with the check that serves the fine timer of DHCP. -/
def firstHalfSecond : List TimeoutsEvent :=
  List.replicate 5 .init ++ List.replicate 50 .tick ++ [.check, .loop, .handlerReturns, .loop]

theorem sysCheckTimeouts_serves_deadlines_firstHalfSecond :
    observed timeoutsStep called (.start 0) firstHalfSecond =
        (observed deadlinesStep served (.start 0) firstHalfSecond).map Deadline.job ∧
      observed deadlinesStep served (.start 0) firstHalfSecond =
        [⟨500, .lwipCyclicTimer ⟨500, .dhcpFineTmr⟩⟩] :=
  ⟨(sysCheckTimeouts_serves_deadlines 0 firstHalfSecond (by decide)).left, by decide⟩

end Net
end Ch579HttpLed
