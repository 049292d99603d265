import Mathlib.Algebra.GroupWithZero.Nat
import Mathlib.Data.Nat.Basic

/-!
# The tick counter and waiting on it

Model of `Net/src/timer0.c`.  The counter `time_10ms` is a 32-bit word that the
timer interrupt increments, so it wraps around; it is passed to the functions
that read it.
-/

namespace Ch579HttpLed
namespace Net

structure Timer0Delay where
  started : UInt32
  delay10ms : UInt32
deriving DecidableEq, Repr

def timer0InitWait10ms (time10ms : UInt32) (delay : Timer0Delay)
    (delay10ms : UInt32) : Timer0Delay :=
  let delay := { delay with delay10ms := delay10ms }
  { delay with started := time10ms }

/-- The wait is over when the counter has reached the finish time, wrapped like it. -/
def timer0CheckWait (time10ms : UInt32) (delay : Timer0Delay) : Bool × Timer0Delay :=
  let finishTime := delay.started + delay.delay10ms
  if finishTime <= time10ms then (true, { delay with started := time10ms })
  else (false, delay)

theorem timer0CheckWait_iff (time10ms : UInt32) (delay : Timer0Delay) :
    (timer0CheckWait time10ms delay).1 = true <->
      ¬ time10ms < delay.started + delay.delay10ms := by
  simp only [timer0CheckWait]
  split
  · next hover =>
      constructor
      · intro _
        exact UInt32.not_lt.mpr hover
      · intro _
        rfl
  · next hrunning =>
      constructor
      · intro htrue
        cases htrue
      · intro hover
        exact absurd (UInt32.not_lt.mp hover) hrunning

/-- A check that ends the wait starts it again from the time it has read. -/
theorem timer0CheckWait_rearms {time10ms : UInt32} {delay delay' : Timer0Delay}
    (h : timer0CheckWait time10ms delay = (true, delay')) :
    delay' = { delay with started := time10ms } := by
  simp only [timer0CheckWait] at h
  split at h
  · cases h
    rfl
  · cases h

theorem timer0CheckWait_keeps {time10ms : UInt32} {delay delay' : Timer0Delay}
    (h : timer0CheckWait time10ms delay = (false, delay')) : delay' = delay := by
  simp only [timer0CheckWait] at h
  split at h
  · cases h
  · cases h
    rfl

def tmr0IRQHandler (time10ms : UInt32) : UInt32 :=
  time10ms + 1

/-- Milliseconds for lwIP, in 32-bit arithmetic. -/
def sysNow (time10ms : UInt32) : UInt32 :=
  time10ms * 10

/-!
# The counter and true time

The counter is zero at power-on, and every tick is one run of the interrupt
handler.
-/

/-- `time_10ms` after a true number of ticks. -/
def time10msAt : Nat -> UInt32
  | 0 => 0
  | ticks + 1 => tmr0IRQHandler (time10msAt ticks)

theorem time10msAt_eq (ticks : Nat) : time10msAt ticks = UInt32.ofNat ticks := by
  induction ticks with
  | zero => rfl
  | succ ticks ih =>
      rw [time10msAt, ih, tmr0IRQHandler, UInt32.ofNat_add]
      rfl

theorem time10msAt_toNat (ticks : Nat) : (time10msAt ticks).toNat = ticks % 2 ^ 32 := by
  rw [time10msAt_eq]
  exact UInt32.toNat_ofNat'

end Net
end Ch579HttpLed
