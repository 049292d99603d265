import Ch579HttpLed.App.UriParams
import Ch579HttpLed.Foundation.Runs
import Ch579HttpLed.Foundation.Wrap
import Ch579HttpLed.Net.Timer0

/-!
# The main loop

Model of the loop of `main`, which turns a reboot request into a delayed reset.
Timer ticks and requests are events of their own, so they fall between any two
blocks of an iteration.  `reset_delay` is a stack variable without an
initialiser and the wait on it is polled in every iteration.
-/

namespace Ch579HttpLed
namespace App

open Driver Foundation Net

/-!
# States and steps

`consume` tests `action_reboot`, `check` polls the wait, `network` stands for
the rest of an iteration.  `NVIC_SystemReset` does not return.  The last three
fields observe the run: the ticks so far, the tick at which an iteration last
consumed a request, and whether a reboot was ever requested.
-/

inductive MainPc where
  | consume
  | check
  | network
  | reset
deriving DecidableEq, Repr

structure MainState where
  pc : MainPc
  actions : Actions
  resetDelay : Timer0Delay
  time10ms : UInt32
  ticks : Nat
  consumedAt : Option Nat
  requested : Bool

inductive MainEvent where
  | tick
  | request (uri : List UInt8)
  | exec

def resetDelay10ms : UInt32 := 200

/-- The next block of the loop. -/
def execMain (s : MainState) : MainState :=
  match s.pc with
  | .consume =>
      if s.actions.actionReboot then
        { s with
          pc := .check
          actions := { s.actions with actionReboot := false }
          resetDelay := timer0InitWait10ms s.time10ms s.resetDelay resetDelay10ms
          consumedAt := some s.ticks }
      else { s with pc := .check }
  | .check =>
      match timer0CheckWait s.time10ms s.resetDelay with
      | (true, delay) => { s with pc := .reset, resetDelay := delay }
      | (false, delay) => { s with pc := .network, resetDelay := delay }
  | .network => { s with pc := .consume }
  | .reset => s

def mainStep (s : MainState) (e : MainEvent) : MainState :=
  if s.pc = .reset then s
  else
    match e with
    | .tick => { s with time10ms := tmr0IRQHandler s.time10ms, ticks := s.ticks + 1 }
    | .request uri =>
        { s with
          actions := httpdGETUriParamsParse uri s.actions
          requested := s.requested || decide (uriParams uri = some rebootParams) }
    | .exec => execMain s

/-- Entry of the loop with arbitrary stack contents and tick count. -/
def mainStart (delay : Timer0Delay) (time10ms : UInt32) (gpio : GpioB) : MainState where
  pc := .consume
  actions := ⟨false, gpio⟩
  resetDelay := delay
  time10ms := time10ms
  ticks := 0
  consumedAt := none
  requested := false

/-!
# Resets
-/

/-- The step calls `NVIC_SystemReset`. -/
def Resets (s : MainState) (e : MainEvent) : Prop :=
  s.pc ≠ .reset ∧ (mainStep s e).pc = .reset

/-- Only a poll that finds the wait over resets. -/
theorem resets_iff (s : MainState) (e : MainEvent) :
    Resets s e <->
      e = .exec ∧ s.pc = .check ∧ (timer0CheckWait s.time10ms s.resetDelay).1 = true := by
  unfold Resets mainStep
  by_cases hreset : s.pc = .reset
  · simp [hreset]
  · rw [if_neg hreset]
    cases e with
    | tick => simp [hreset]
    | request uri => simp [hreset]
    | exec =>
        unfold execMain
        cases hpc : s.pc with
        | consume => cases hflag : s.actions.actionReboot <;> simp
        | check =>
            cases hwait : timer0CheckWait s.time10ms s.resetDelay with
            | mk elapsed delay => cases elapsed <;> simp
        | network => simp
        | reset => exact absurd hpc hreset

/-- A reset follows a request, at least 200 ticks after the request was consumed. -/
def ResetJustified (s : MainState) (e : MainEvent) : Prop :=
  Resets s e -> s.requested = true ∧
    exists c, s.consumedAt = some c ∧ c + 200 <= s.ticks

/--
Polls that do not reset by accident: before the first consumed request the
counter is below the finish time found on the stack; within the 200 ticks after
a consumed request at true tick `c` the finish time has not wrapped ahead of the
counter.
-/
def PollSafe (delay : Timer0Delay) (time : UInt32) (s : MainState) (e : MainEvent) :
    Prop :=
  e = .exec -> s.pc = .check ->
    (s.consumedAt = none -> s.time10ms < delay.started + delay.delay10ms) ∧
      forall c, s.consumedAt = some c -> s.ticks < c + 200 ->
        (time.toNat + s.ticks) / 2 ^ 32 = (time.toNat + c + 200) / 2 ^ 32

/-!
# The invariant
-/

structure MainInv (delay : Timer0Delay) (time : UInt32) (s : MainState) : Prop where
  time_eq : s.time10ms.toNat = (time.toNat + s.ticks) % 2 ^ 32
  flag : s.actions.actionReboot = true -> s.requested = true
  untouched : s.consumedAt = none -> s.pc ≠ .reset -> s.resetDelay = delay
  consumed : forall c, s.consumedAt = some c -> s.requested = true ∧ c <= s.ticks ∧
    (s.pc ≠ .reset -> s.resetDelay.delay10ms = resetDelay10ms ∧
      s.resetDelay.started.toNat = (time.toNat + c) % 2 ^ 32)

theorem mainStart_inv (delay : Timer0Delay) (time : UInt32) (gpio : GpioB) :
    MainInv delay time (mainStart delay time gpio) where
  time_eq := by
    show time.toNat = (time.toNat + 0) % 2 ^ 32
    rw [Nat.add_zero, Nat.mod_eq_of_lt time.toNat_lt]
  flag := nofun
  untouched := fun _ _ => rfl
  consumed := nofun

/-- A step that only moves the loop on keeps the invariant. -/
theorem MainInv.move {delay : Timer0Delay} {time : UInt32} {s : MainState}
    (h : MainInv delay time s) (hrunning : s.pc ≠ .reset) (pc : MainPc) :
    MainInv delay time { s with pc := pc } := by
  refine ⟨h.time_eq, h.flag, ?_, ?_⟩
  · intro hnone _
    exact h.untouched hnone hrunning
  · intro c hc
    rcases h.consumed c hc with ⟨hreq, hle, hdelay⟩
    exact ⟨hreq, hle, fun _ => hdelay hrunning⟩

theorem execMain_inv {delay : Timer0Delay} {time : UInt32} {s : MainState}
    (h : MainInv delay time s) : MainInv delay time (execMain s) := by
  rcases s with ⟨pc, actions, resetDelay, time10ms, ticks, consumedAt, requested⟩
  cases pc with
  | consume =>
      cases hflag : actions.actionReboot with
      | true =>
          simp only [execMain, hflag, if_true]
          refine ⟨h.time_eq, nofun, nofun, ?_⟩
          intro c hc
          cases hc
          exact ⟨h.flag hflag, Nat.le_refl _, fun _ => ⟨rfl, h.time_eq⟩⟩
      | false =>
          simp only [execMain, hflag]
          exact h.move nofun .check
  | check =>
      unfold execMain timer0CheckWait
      by_cases hover : resetDelay.started + resetDelay.delay10ms <= time10ms
      · -- The check rewrites the delay, but after a reset nothing reads it.
        simp only [if_pos hover]
        refine ⟨h.time_eq, h.flag, fun _ hpc => absurd rfl hpc, ?_⟩
        intro c hc
        rcases h.consumed c hc with ⟨hreq, hle, -⟩
        exact ⟨hreq, hle, fun hpc => absurd rfl hpc⟩
      · simp only [if_neg hover]
        exact h.move nofun .network
  | network => exact h.move nofun .consume
  | reset => exact h

theorem mainStep_inv {delay : Timer0Delay} {time : UInt32} (s : MainState)
    (e : MainEvent) (h : MainInv delay time s) :
    MainInv delay time (mainStep s e) := by
  unfold mainStep
  by_cases hreset : s.pc = .reset
  · rw [if_pos hreset]
    exact h
  · rw [if_neg hreset]
    cases e with
    | tick =>
        refine ⟨?_, h.flag, h.untouched, ?_⟩
        · show (s.time10ms + 1).toNat = (time.toNat + (s.ticks + 1)) % 2 ^ 32
          rw [UInt32.toNat_add, h.time_eq, ← Nat.add_assoc]
          simp
        · intro c hc
          rcases h.consumed c hc with ⟨hreq, hle, hdelay⟩
          exact ⟨hreq, Nat.le_succ_of_le hle, hdelay⟩
    | request uri =>
        refine ⟨h.time_eq, ?_, h.untouched, ?_⟩
        · intro hflag
          change (httpdGETUriParamsParse uri s.actions).actionReboot = true at hflag
          rw [httpdGETUriParamsParse_actionReboot, Bool.or_eq_true] at hflag
          show (s.requested || decide (uriParams uri = some rebootParams)) = true
          rcases hflag with hold | hnew
          · rw [h.flag hold, Bool.true_or]
          · rw [hnew, Bool.or_true]
        · intro c hc
          rcases h.consumed c hc with ⟨hreq, hle, hdelay⟩
          refine ⟨?_, hle, hdelay⟩
          show (s.requested || _) = true
          rw [hreq, Bool.true_or]
    | exec => exact execMain_inv h

/-!
# Wrap-around of the counter

Within 200 ticks after the start, the 32-bit comparison is right exactly if the
finish time lies in the same turn of the counter as the current time.
-/

theorem wrapped_lt_iff {start now : Nat} (hle : start <= now) (hlt : now < start + 200) :
    now % 2 ^ 32 < (start % 2 ^ 32 + 200) % 2 ^ 32 <->
      now / 2 ^ 32 = (start + 200) / 2 ^ 32 := by
  have hright : (((start + 200) % 2 ^ 32 <= now % 2 ^ 32) <-> start + 200 <= now) <->
      (start + 200) / 2 ^ 32 = now / 2 ^ 32 :=
    mod_le_mod_right_iff (by omega) (by omega)
  have hearly : ¬ start + 200 <= now := by
    lia
  rw [iff_false_right hearly, Nat.not_le] at hright
  rw [Nat.mod_add_mod, hright]
  exact eq_comm

theorem resetJustified_iff_pollSafe {delay : Timer0Delay} {time : UInt32}
    (s : MainState) (e : MainEvent) (h : MainInv delay time s) :
    ResetJustified s e <-> PollSafe delay time s e := by
  unfold ResetJustified PollSafe
  rw [resets_iff, and_imp, and_imp]
  refine imp_congr_right (fun he => imp_congr_right (fun hpc => ?_))
  have hrunning : s.pc ≠ .reset := by
    rw [hpc]
    nofun
  rw [timer0CheckWait_iff]
  cases hconsumed : s.consumedAt with
  | none =>
      rw [h.untouched hconsumed hrunning]
      simp
  | some c =>
      rcases h.consumed c hconsumed with ⟨hreq, hle, hdelay⟩
      rcases hdelay hrunning with ⟨hdelay10ms, hstarted⟩
      have hwrap : s.ticks < c + 200 ->
          (s.time10ms < s.resetDelay.started + s.resetDelay.delay10ms <->
            (time.toNat + s.ticks) / 2 ^ 32 = (time.toNat + c + 200) / 2 ^ 32) := by
        intro hearly
        rw [← wrapped_lt_iff (by lia) (by lia), UInt32.lt_iff_toNat_lt,
          UInt32.toNat_add, h.time_eq, hstarted, hdelay10ms]
        rfl
      simp only [hreq, Option.some.injEq, true_and, exists_eq_left', reduceCtorEq,
        false_implies, forall_eq']
      constructor
      · intro hjust hearly
        rw [← hwrap hearly]
        by_contra hover
        have hlate := hjust hover
        lia
      · intro hsafe hover
        by_contra hearly
        exact hover ((hwrap (by lia)).mpr (hsafe (by lia)))

/--
For every stack content and tick count at the entry of the loop and every run:
all resets of the run are justified exactly if all its polls are safe.
-/
theorem main_resets_justified_iff (delay : Timer0Delay) (time : UInt32) (gpio : GpioB)
    (es : List MainEvent) :
    AllSteps mainStep ResetJustified (mainStart delay time gpio) es <->
      AllSteps mainStep (PollSafe delay time) (mainStart delay time gpio) es :=
  allSteps_congr (fun s e h _ => mainStep_inv s e h) resetJustified_iff_pollSafe
    (mainStart_inv delay time gpio) es

/-- With zeros on the stack the first iteration resets although nothing was requested. -/
theorem main_resets_unrequested :
    let start := mainStart ⟨0, 0⟩ 0 GpioB.reset
    (run mainStep start [.exec, .exec]).pc = .reset ∧
      ¬ AllSteps mainStep ResetJustified start [.exec, .exec] := by
  intro start
  refine ⟨rfl, ?_⟩
  intro hall
  have hreset : Resets (mainStep start .exec) .exec := ⟨nofun, rfl⟩
  have hreq := (hall.right.left hreset).left
  cases hreq

end App
end Ch579HttpLed
