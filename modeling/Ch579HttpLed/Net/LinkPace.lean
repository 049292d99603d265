import Mathlib.Data.List.Chain
import Ch579HttpLed.Net.LinkState
import Ch579HttpLed.Net.Timer0

/-!
# The pace of the link polls

`lwip_periodic_handle` should poll the PHY every half second.  It keeps the
counter value of its last poll, and a call that finds the counter below that
value forgets it and returns.  The module follows the stored value through true
time: between two polls it is either the wrapped tick of the earlier poll, or
zero in a later turn of the counter.
-/

namespace Ch579HttpLed
namespace Net

open Driver Foundation

/-!
# Calls at true ticks
-/

/-- A call at a true tick with the register it would read. -/
structure TimedCall where
  tick : Nat
  phyReg : UInt16

def timedStep (s : LwipComm) (c : TimedCall) : LwipComm :=
  (lwipPeriodicHandle (time10msAt c.tick) c.phyReg s).2

/-- The tick of a call that reaches `GetPhyLinkState`. -/
def pollTick (s : LwipComm) (c : TimedCall) : Option Nat :=
  (lwipPeriodicHandle (time10msAt c.tick) c.phyReg s).1.map (fun _ => c.tick)

theorem pollTick_eq (s : LwipComm) (c : TimedCall) :
    pollTick s c = if Polls (time10msAt c.tick) s then some c.tick else none := by
  unfold pollTick
  rw [lwipPeriodicHandle_reading]
  split
  · rfl
  · rfl

def pollTicks : LwipComm -> List TimedCall -> List Nat :=
  observed timedStep pollTick

/-- Calls in the order of true time. -/
def InOrder (ticks : List Nat) : Prop :=
  List.IsChain (fun a b => a <= b) ticks

/-- Calls in order that leave out no tick. -/
def EveryTick (ticks : List Nat) : Prop :=
  List.IsChain (fun a b => a <= b ∧ b <= a + 1) ticks

/-!
# What a call does to the stored timestamp
-/

section Call

variable {s : LwipComm} {c : TimedCall}

theorem polls_iff (s : LwipComm) (c : TimedCall) :
    Polls (time10msAt c.tick) s <->
      s.lastTimestamp.toNat + 50 <= c.tick % 2 ^ 32 := by
  have hlast := s.lastTimestamp.toNat_lt
  have hcur := time10msAt_toNat c.tick
  have hmod := Nat.mod_lt c.tick (show 0 < 2 ^ 32 by decide)
  rw [polls_iff_tests, UInt32.not_lt, UInt32.not_lt, UInt32.le_iff_toNat_le, UInt32.le_iff_toNat_le,
    UInt32.toNat_sub, hcur]
  change _ ∧ 50 <= _ <-> _
  constructor
  · intro h
    omega
  · intro h
    omega

theorem timedStep_polls (h : Polls (time10msAt c.tick) s) :
    (timedStep s c).lastTimestamp.toNat = c.tick % 2 ^ 32 := by
  rw [← time10msAt_toNat]
  unfold timedStep
  rw [lwipPeriodicHandle_polls_lastTimestamp h]

/-- A call that does not poll keeps the timestamp, or forgets it when the counter went back. -/
theorem timedStep_quiet (h : ¬ Polls (time10msAt c.tick) s) :
    (timedStep s c).lastTimestamp.toNat =
      if c.tick % 2 ^ 32 < s.lastTimestamp.toNat then 0 else s.lastTimestamp.toNat := by
  unfold timedStep
  rw [lwipPeriodicHandle_quiet_eq h]
  simp only [apply_ite UInt32.toNat, UInt32.lt_iff_toNat_lt, time10msAt_toNat]
  rfl

end Call

/-!
# At least half a second

`poll` is the tick of the last poll and `now` that of the last call.
-/

structure PaceInv (poll now : Nat) (s : LwipComm) : Prop where
  poll_le : poll <= now
  stamp : s.lastTimestamp.toNat = poll % 2 ^ 32 ∨
    s.lastTimestamp.toNat = 0 ∧ poll / 2 ^ 32 < now / 2 ^ 32

section Pace

variable {poll now : Nat} {s : LwipComm} {c : TimedCall}

theorem paceInv_of_polls (h : Polls (time10msAt c.tick) s) :
    PaceInv c.tick c.tick (timedStep s c) where
  poll_le := Nat.le_refl _
  stamp := Or.inl (timedStep_polls h)

theorem paceInv_of_quiet (hinv : PaceInv poll now s) (hle : now <= c.tick)
    (h : ¬ Polls (time10msAt c.tick) s) : PaceInv poll c.tick (timedStep s c) := by
  have hpoll := hinv.poll_le
  refine ⟨Nat.le_trans hpoll hle, ?_⟩
  rw [timedStep_quiet h]
  rcases hinv.stamp with hstamp | ⟨hzero, hturn⟩
  · rw [hstamp]
    split
    · next hback =>
        -- The counter shows less than at the poll, so a later turn has begun.
        apply Or.inr
        constructor
        · rfl
        · omega
    · exact Or.inl rfl
  · rw [hzero]
    apply Or.inr
    constructor
    · exact ite_self 0
    · omega

theorem poll_add_le (hinv : PaceInv poll now s) (hle : now <= c.tick)
    (h : Polls (time10msAt c.tick) s) : poll + 50 <= c.tick := by
  have hpoll := hinv.poll_le
  rw [polls_iff] at h
  rcases hinv.stamp with hstamp | ⟨hzero, hturn⟩
  · omega
  · omega

end Pace

/-!
# At most a second

With a call at every tick the timestamp is forgotten at the first tick of a
turn, at most fifty ticks after the poll, and the next poll follows fifty ticks
later.
-/

structure DenseInv (poll now : Nat) (s : LwipComm) : Prop where
  poll_le : poll <= now
  poll_mod : 50 <= poll % 2 ^ 32
  stamp : s.lastTimestamp.toNat = poll % 2 ^ 32 ∧ now < poll + 50 ∧
      now / 2 ^ 32 = poll / 2 ^ 32 ∨
    s.lastTimestamp.toNat = 0 ∧ now / 2 ^ 32 = poll / 2 ^ 32 + 1 ∧
      now % 2 ^ 32 < 50 ∧ now <= poll + 50 + now % 2 ^ 32

section Dense

variable {poll now : Nat} {s : LwipComm} {c : TimedCall}

theorem denseInv_of_polls (h : Polls (time10msAt c.tick) s) :
    DenseInv c.tick c.tick (timedStep s c) where
  poll_le := Nat.le_refl _
  poll_mod := by
    rw [polls_iff] at h
    omega
  stamp := Or.inl ⟨timedStep_polls h, by omega, rfl⟩

theorem denseInv_of_quiet (hinv : DenseInv poll now s) (hle : now <= c.tick)
    (hnext : c.tick <= now + 1) (h : ¬ Polls (time10msAt c.tick) s) :
    DenseInv poll c.tick (timedStep s c) := by
  have hpoll := hinv.poll_le
  have hmod := hinv.poll_mod
  refine ⟨Nat.le_trans hpoll hle, hmod, ?_⟩
  rw [polls_iff] at h
  rw [timedStep_quiet (by rw [polls_iff]; exact h)]
  rcases hinv.stamp with ⟨hstamp, hnear, hturn⟩ | ⟨hzero, hturn, hlow, hfar⟩
  · rw [hstamp] at h ⊢
    split
    · next hback =>
        apply Or.inr
        refine ⟨rfl, ?_, ?_, ?_⟩
        · omega
        · omega
        · omega
    · next hkept =>
        apply Or.inl
        refine ⟨rfl, ?_, ?_⟩
        · omega
        · omega
  · rw [hzero] at h ⊢
    apply Or.inr
    refine ⟨ite_self 0, ?_, ?_, ?_⟩
    · omega
    · omega
    · omega

theorem tick_le_poll_add (hinv : DenseInv poll now s) (hnext : c.tick <= now + 1) :
    c.tick <= poll + 100 := by
  rcases hinv.stamp with ⟨hstamp, hnear, hturn⟩ | ⟨hzero, hturn, hlow, hfar⟩
  · omega
  · omega

end Dense

/-!
# Runs
-/

theorem pollTicks_cons_of_polls {s : LwipComm} {c : TimedCall}
    (h : Polls (time10msAt c.tick) s) (calls : List TimedCall) :
    pollTicks s (c :: calls) = c.tick :: pollTicks (timedStep s c) calls := by
  unfold pollTicks
  rw [observed, pollTick_eq, if_pos h]
  rfl

theorem pollTicks_cons_of_quiet {s : LwipComm} {c : TimedCall}
    (h : ¬ Polls (time10msAt c.tick) s) (calls : List TimedCall) :
    pollTicks s (c :: calls) = pollTicks (timedStep s c) calls := by
  unfold pollTicks
  rw [observed, pollTick_eq, if_neg h]
  rfl

/-- After a poll every next one comes at least fifty ticks later. -/
theorem isChain_pollTicks {poll now : Nat} {s : LwipComm} (hinv : PaceInv poll now s)
    {calls : List TimedCall} (horder : InOrder (now :: calls.map TimedCall.tick)) :
    List.IsChain (fun a b => a + 50 <= b) (poll :: pollTicks s calls) := by
  induction calls generalizing poll now s with
  | nil => exact List.IsChain.singleton _
  | cons c calls ih =>
      rcases List.isChain_cons_cons.mp horder with ⟨hle, hrest⟩
      rcases Decidable.em (Polls (time10msAt c.tick) s) with hpolls | hquiet
      · rw [pollTicks_cons_of_polls hpolls]
        apply List.isChain_cons_cons.mpr
        constructor
        · exact poll_add_le hinv hle hpolls
        · exact ih (paceInv_of_polls hpolls) hrest
      · rw [pollTicks_cons_of_quiet hquiet]
        exact ih (paceInv_of_quiet hinv hle hquiet) hrest

/-- With a call at every tick the next poll, and the end of the run, are near. -/
theorem isChain_pollTicks_dense {poll now : Nat} {s : LwipComm}
    (hinv : DenseInv poll now s) {calls : List TimedCall}
    (hdense : EveryTick (now :: calls.map TimedCall.tick)) :
    List.IsChain (fun a b => b <= a + 100) (poll :: pollTicks s calls) ∧
      (calls.map TimedCall.tick).getLastD now <= (pollTicks s calls).getLastD poll + 100 := by
  induction calls generalizing poll now s with
  | nil =>
      constructor
      · exact List.IsChain.singleton _
      · have hnow : now <= poll + 100 := @tick_le_poll_add poll now s ⟨now, 0⟩ hinv (by simp)
        exact hnow
  | cons c calls ih =>
      rcases List.isChain_cons_cons.mp hdense with ⟨⟨hle, hnext⟩, hrest⟩
      rw [List.map_cons, List.getLastD_cons]
      rcases Decidable.em (Polls (time10msAt c.tick) s) with hpolls | hquiet
      · rcases ih (denseInv_of_polls hpolls) hrest with ⟨hchain, hend⟩
        rw [pollTicks_cons_of_polls hpolls, List.getLastD_cons]
        constructor
        · apply List.isChain_cons_cons.mpr
          exact ⟨tick_le_poll_add hinv hnext, hchain⟩
        · exact hend
      · rw [pollTicks_cons_of_quiet hquiet]
        exact ih (denseInv_of_quiet hinv hle hnext hquiet) hrest

/-- The part of a run that follows its first poll, if there is one. -/
theorem pollTicks_cases (s : LwipComm) (calls : List TimedCall) :
    pollTicks s calls = [] ∨
      exists pre c post, calls = pre ++ c :: post ∧
        Polls (time10msAt c.tick) (run timedStep s pre) ∧
        pollTicks s calls =
          c.tick :: pollTicks (timedStep (run timedStep s pre) c) post := by
  induction calls generalizing s with
  | nil => exact Or.inl rfl
  | cons c calls ih =>
      rcases Decidable.em (Polls (time10msAt c.tick) s) with hpolls | hquiet
      · apply Or.inr
        exact ⟨[], c, calls, rfl, hpolls, pollTicks_cons_of_polls hpolls calls⟩
      · rw [pollTicks_cons_of_quiet hquiet]
        rcases ih (timedStep s c) with hnone | ⟨pre, d, post, hsplit, hpolls, hticks⟩
        · exact Or.inl hnone
        · apply Or.inr
          exact ⟨c :: pre, d, post, by rw [hsplit]; rfl, hpolls, hticks⟩

/--
From any state and for calls in the order of true time, across any number of
wraps: two consecutive polls are at least fifty ticks apart.  With a call at
every tick they are at most a hundred ticks apart, and a run never goes on for
more than a hundred ticks after its last poll.
-/
theorem linkPoll_pace (s : LwipComm) (calls : List TimedCall)
    (horder : InOrder (calls.map TimedCall.tick)) :
    List.IsChain (fun a b => a + 50 <= b) (pollTicks s calls) ∧
      (EveryTick (calls.map TimedCall.tick) ->
        List.IsChain (fun a b => b <= a + 100) (pollTicks s calls) ∧
          forall p now, (pollTicks s calls).getLast? = some p ->
            (calls.map TimedCall.tick).getLast? = some now -> now <= p + 100) := by
  rcases pollTicks_cases s calls with hnone | ⟨pre, c, post, hsplit, hpolls, hticks⟩
  · rw [hnone]
    constructor
    · exact List.IsChain.nil
    · intro _
      exact ⟨List.IsChain.nil, nofun⟩
  · rw [hticks]
    rw [hsplit, List.map_append, List.map_cons] at horder ⊢
    constructor
    · exact isChain_pollTicks (paceInv_of_polls hpolls) horder.right_of_append
    · intro hdense
      rcases isChain_pollTicks_dense (denseInv_of_polls hpolls)
        hdense.right_of_append with ⟨hchain, hend⟩
      refine ⟨hchain, ?_⟩
      intro p now hlast hnow
      rw [List.getLast?_cons, ← List.getLastD_eq_getLast?] at hlast
      rw [List.getLast?_append, List.getLast?_cons, ← List.getLastD_eq_getLast?,
        Option.some_or] at hnow
      cases hlast
      cases hnow
      exact hend

/-- Three calls after the initialisation, of which two poll. -/
theorem linkPoll_pace_at_sample :
    let calls : List TimedCall := [⟨50, 4⟩, ⟨99, 4⟩, ⟨100, 0⟩]
    InOrder (calls.map TimedCall.tick) ∧
      pollTicks (commStart GpioB.reset) calls = [50, 100] ∧
      List.IsChain (fun a b => a + 50 <= b) (pollTicks (commStart GpioB.reset) calls) := by
  intro calls
  have horder : InOrder (calls.map TimedCall.tick) := by
    simp [InOrder, calls]
  exact ⟨horder, by decide, (linkPoll_pace (commStart GpioB.reset) calls horder).left⟩

end Net
end Ch579HttpLed
