import Ch579HttpLed.Foundation.Runs
import Ch579HttpLed.Foundation.Wrap
import Ch579HttpLed.Net.Timer0

/-!
# Delays measured in true time

A delay started at a true tick should end with the first check that comes at
least that many ticks later, and the check that ends it starts it again.
`timer0_check_wait` compares two wrapped values, so a check is right exactly if
its tick and the finish tick lie in the same turn of the counter: before the
wrap of the counter it fires early, after a finish before the wrap it never sees
the expiry.
-/

namespace Ch579HttpLed
namespace Net

open Foundation

/-!
# Checks of a delay at true ticks
-/

/-- The delay, and the tick of its start or of the last check that returned true. -/
structure WaitState where
  delay : Timer0Delay
  armedAt : Nat

/-- `timer0_init_wait_10ms` on arbitrary contents of the delay. -/
def waitStart (delay : Timer0Delay) (tick : Nat) (delay10ms : UInt32) : WaitState where
  delay := timer0InitWait10ms (time10msAt tick) delay delay10ms
  armedAt := tick

/-- `timer0_check_wait` at a tick. -/
def waitStep (s : WaitState) (tick : Nat) : WaitState :=
  match timer0CheckWait (time10msAt tick) s.delay with
  | (true, delay) => ⟨delay, tick⟩
  | (false, delay) => ⟨delay, s.armedAt⟩

/-- The check returns true exactly if the delay has elapsed since it was armed. -/
def CheckExact (delay10ms : UInt32) (s : WaitState) (tick : Nat) : Prop :=
  (timer0CheckWait (time10msAt tick) s.delay).1 = true <->
    s.armedAt + delay10ms.toNat <= tick

/-- Checks at non-decreasing ticks, less than half a turn apart. -/
def Spaced (ticks : List Nat) : Prop :=
  List.IsChain (fun a b => a <= b ∧ b < a + 2 ^ 31) ticks

/-!
# The intended delay

The intended delay knows true time only, so it says when a delay is armed
without looking at the counter.
-/

def exactStep (delay10ms : Nat) (armedAt tick : Nat) : Nat :=
  if armedAt + delay10ms <= tick then tick else armedAt

/-- The tick of the check and the finish tick lie in one turn of the counter. -/
def SameTurn (delay10ms : Nat) (armedAt tick : Nat) : Prop :=
  (armedAt + delay10ms) / 2 ^ 32 = tick / 2 ^ 32

/-!
# One check
-/

/-- What the fields of a delay say about true time, and how far the last check is away. -/
structure WaitInv (delay10ms : UInt32) (lastTick : Nat) (s : WaitState) : Prop where
  delay_eq : s.delay = ⟨time10msAt s.armedAt, delay10ms⟩
  armed_le : s.armedAt <= lastTick
  unexpired : lastTick = s.armedAt ∨ lastTick < s.armedAt + delay10ms.toNat

theorem waitStart_inv (delay : Timer0Delay) (tick : Nat) (delay10ms : UInt32) :
    WaitInv delay10ms tick (waitStart delay tick delay10ms) where
  delay_eq := rfl
  armed_le := Nat.le_refl _
  unexpired := Or.inl rfl

section Check

variable {delay10ms : UInt32} {lastTick tick : Nat} {s : WaitState}

theorem checkWait_iff_wrapped (h : WaitInv delay10ms lastTick s) (tick : Nat) :
    (timer0CheckWait (time10msAt tick) s.delay).1 = true <->
      (s.armedAt + delay10ms.toNat) % 2 ^ 32 <= tick % 2 ^ 32 := by
  rw [timer0CheckWait_iff, h.delay_eq, UInt32.not_lt, UInt32.le_iff_toNat_le,
    UInt32.toNat_add, time10msAt_toNat, time10msAt_toNat, Nat.mod_add_mod]

/-- A check close enough to the last one is exact only within one turn. -/
theorem checkExact_iff_sameTurn (h : WaitInv delay10ms lastTick s)
    (hdelay : delay10ms.toNat < 2 ^ 31) (hle : lastTick <= tick)
    (hlt : tick < lastTick + 2 ^ 31) :
    CheckExact delay10ms s tick <-> SameTurn delay10ms.toNat s.armedAt tick := by
  have harmed := h.armed_le
  have hclose : tick < s.armedAt + delay10ms.toNat + 2 ^ 31 := by
    rcases h.unexpired with hlast | hlast
    · omega
    · omega
  unfold CheckExact SameTurn
  rw [checkWait_iff_wrapped h tick]
  exact mod_le_mod_right_iff (by omega) (by omega)

theorem waitStep_of_exact (h : WaitInv delay10ms lastTick s)
    (hexact : CheckExact delay10ms s tick) (hle : lastTick <= tick) :
    (waitStep s tick).armedAt = exactStep delay10ms.toNat s.armedAt tick ∧
      WaitInv delay10ms tick (waitStep s tick) := by
  have harmed := h.armed_le
  unfold CheckExact at hexact
  unfold waitStep exactStep
  cases hcheck : timer0CheckWait (time10msAt tick) s.delay with
  | mk fired delay =>
      rw [hcheck] at hexact
      cases fired with
      | true =>
          have hover := hexact.mp rfl
          rw [if_pos hover]
          refine ⟨rfl, ?_, Nat.le_refl _, Or.inl rfl⟩
          rw [timer0CheckWait_rearms hcheck, h.delay_eq]
      | false =>
          have hrunning : ¬ s.armedAt + delay10ms.toNat <= tick := by
            intro hover
            cases hexact.mpr hover
          rw [if_neg hrunning]
          refine ⟨rfl, ?_, Nat.le_trans harmed hle, Or.inr (Nat.lt_of_not_le hrunning)⟩
          rw [timer0CheckWait_keeps hcheck]
          exact h.delay_eq

end Check

/-!
# Runs of checks
-/

/-- All checks are exact exactly if each lies in the turn of the intended finish tick. -/
theorem allSteps_checkExact_iff {delay10ms : UInt32} (hdelay : delay10ms.toNat < 2 ^ 31)
    {lastTick : Nat} {s : WaitState} (h : WaitInv delay10ms lastTick s)
    {ticks : List Nat} (hspaced : Spaced (lastTick :: ticks)) :
    AllSteps waitStep (CheckExact delay10ms) s ticks <->
      AllSteps (exactStep delay10ms.toNat) (SameTurn delay10ms.toNat) s.armedAt ticks := by
  induction ticks generalizing lastTick s with
  | nil => exact Iff.rfl
  | cons tick ticks ih =>
      rcases List.isChain_cons_cons.mp hspaced with ⟨⟨hle, hlt⟩, hrest⟩
      have hiff := checkExact_iff_sameTurn h hdelay hle hlt
      rw [AllSteps, AllSteps, ← hiff]
      apply and_congr_right
      intro hexact
      rcases waitStep_of_exact h hexact hle with ⟨harmed, hinv⟩
      rw [← harmed]
      exact ih hinv hrest

/--
For every start tick, every delay below half a turn and every spaced sequence of
checks: each check returns true exactly if the delay has elapsed since the start
or the last check that returned true, if and only if each check comes in the
same turn of the counter as the finish tick it waits for.
-/
theorem timer0Delay_exact_iff (delay : Timer0Delay) (start : Nat) (delay10ms : UInt32)
    (ticks : List Nat) (hdelay : delay10ms.toNat < 2 ^ 31)
    (hspaced : Spaced (start :: ticks)) :
    AllSteps waitStep (CheckExact delay10ms) (waitStart delay start delay10ms) ticks <->
      AllSteps (exactStep delay10ms.toNat) (SameTurn delay10ms.toNat) start ticks :=
  allSteps_checkExact_iff hdelay (waitStart_inv delay start delay10ms) hspaced

/-- A delay of two seconds, checked before, at and after its end, and once more. -/
theorem timer0Delay_exact_iff_at_sample :
    let ticks := [100, 300, 350, 500]
    Spaced (100 :: ticks) ∧
      (AllSteps waitStep (CheckExact 200) (waitStart ⟨0, 0⟩ 100 200) ticks <->
        AllSteps (exactStep 200) (SameTurn 200) 100 ticks) := by
  intro ticks
  have hspaced : Spaced (100 :: ticks) := by
    simp [Spaced, ticks]
  exact ⟨hspaced, timer0Delay_exact_iff ⟨0, 0⟩ 100 200 ticks (by decide) hspaced⟩

/-- Ten ticks before the wrap a delay of a hundred ticks is over at once. -/
theorem timer0Delay_fires_early :
    let start := 2 ^ 32 - 10
    Spaced [start, start] ∧
      (timer0CheckWait (time10msAt start) (waitStart ⟨0, 0⟩ start 100).delay).1 = true ∧
      ¬ AllSteps waitStep (CheckExact 100) (waitStart ⟨0, 0⟩ start 100) [start] := by
  intro start
  have hspaced : Spaced [start, start] := by
    simp [Spaced]
  have hfires : (timer0CheckWait (time10msAt start)
      (waitStart ⟨0, 0⟩ start 100).delay).1 = true := by
    rw [checkWait_iff_wrapped (waitStart_inv ⟨0, 0⟩ start 100) start]
    decide
  refine ⟨hspaced, hfires, ?_⟩
  intro hall
  have hover := hall.left.mp hfires
  change start + 100 <= start at hover
  omega

end Net
end Ch579HttpLed
