import Ch579HttpLed.Foundation.Wrap
import Ch579HttpLed.Net.Timer0

/-!
# The clock of the lwIP timeouts

lwIP keeps a timeout as the 32-bit millisecond at which it is due and compares
it with `sys_now` through a wrapped difference.  `sys_now` is ten times the tick
counter, so it wraps ten times in a turn of the counter, and a turn of the
counter is a whole number of its own periods.  The comparison therefore only
depends on true time.
-/

namespace Ch579HttpLed
namespace Net

open Foundation

def lwipMaxTimeout : UInt32 := 0x7fffffff

/-- `TIME_LESS_THAN` of `core/timeouts.c`. -/
def timeLessThan (t compareTo : UInt32) : Bool :=
  lwipMaxTimeout < t - compareTo

/-- The due time that `sys_timeout` stores. -/
def nextTimeoutTime (now msecs : UInt32) : UInt32 :=
  now + msecs

/-!
# Wrapped milliseconds
-/

theorem sysNow_toNat (ticks : Nat) :
    (sysNow (time10msAt ticks)).toNat = (10 * ticks) % 2 ^ 32 := by
  unfold sysNow
  rw [UInt32.toNat_mul, time10msAt_toNat]
  change ticks % 2 ^ 32 * 10 % 2 ^ 32 = _
  rw [Nat.mod_mul_mod, Nat.mul_comm]

theorem nextTimeoutTime_toNat (ticks : Nat) (msecs : UInt32) :
    (nextTimeoutTime (sysNow (time10msAt ticks)) msecs).toNat =
      (10 * ticks + msecs.toNat) % 2 ^ 32 := by
  unfold nextTimeoutTime
  rw [UInt32.toNat_add, sysNow_toNat, Nat.mod_add_mod]

/-- Two values of wrapped true milliseconds are compared through their wrapped difference. -/
theorem timeLessThan_iff {t compareTo : UInt32} {now due : Nat}
    (ht : t.toNat = now % 2 ^ 32) (hdue : compareTo.toNat = due % 2 ^ 32) :
    timeLessThan t compareTo = true <->
      0x7fffffff < (2 ^ 32 - due % 2 ^ 32 + now % 2 ^ 32) % 2 ^ 32 := by
  unfold timeLessThan
  rw [decide_eq_true_iff, UInt32.lt_iff_toNat_lt, UInt32.toNat_sub, ht, hdue]
  exact Iff.rfl

/-- Within half a period of the due time the comparison is that of true time. -/
theorem timeLessThan_iff_lt {t compareTo : UInt32} {now due : Nat}
    (ht : t.toNat = now % 2 ^ 32) (hdue : compareTo.toNat = due % 2 ^ 32)
    (hlate : now <= due + 0x7fffffff) (hearly : due <= now + 2 ^ 31) :
    timeLessThan t compareTo = true <-> now < due := by
  rw [timeLessThan_iff ht hdue]
  rcases Nat.lt_or_ge now due with hlt | hge
  · rw [wrapped_sub_of_lt hlt (by omega)]
    constructor
    · intro _
      exact hlt
    · intro _
      omega
  · rw [wrapped_sub_of_le hge (by omega)]
    constructor
    · intro hover
      omega
    · intro hlt
      omega

/--
A timeout of at most a quarter of the 32-bit range, armed at any tick, is found
expired at a later tick exactly if its milliseconds have passed.
-/
theorem sysNow_timeout_exact (ticks k : Nat) (msecs : UInt32)
    (hmsecs : msecs.toNat <= 2 ^ 32 / 4) (hk : 10 * k <= msecs.toNat + 0x7fffffff) :
    timeLessThan (sysNow (time10msAt (ticks + k)))
        (nextTimeoutTime (sysNow (time10msAt ticks)) msecs) = false <->
      msecs.toNat <= 10 * k := by
  have hiff : timeLessThan (sysNow (time10msAt (ticks + k)))
        (nextTimeoutTime (sysNow (time10msAt ticks)) msecs) = true <->
      10 * (ticks + k) < 10 * ticks + msecs.toNat := by
    apply timeLessThan_iff_lt (sysNow_toNat _) (nextTimeoutTime_toNat _ _)
    · omega
    · omega
  rw [← Bool.not_eq_true, hiff]
  omega

/-- A second armed one tick before the counter wraps, looked at when it is over. -/
theorem sysNow_timeout_exact_at_wrap :
    (1000 : UInt32).toNat <= 2 ^ 32 / 4 ∧
      (timeLessThan (sysNow (time10msAt (2 ^ 32 - 1 + 100)))
          (nextTimeoutTime (sysNow (time10msAt (2 ^ 32 - 1))) 1000) = false <->
        (1000 : UInt32).toNat <= 10 * 100) :=
  ⟨by decide, sysNow_timeout_exact (2 ^ 32 - 1) 100 1000 (by decide) (by decide)⟩

end Net
end Ch579HttpLed
