import Mathlib.Data.List.Basic

/-!
# Circular buffers and bounded queues

A circular buffer of `n` slots stores a queue in the slots that follow a head
index.  What a slot holds is an arbitrary relation between slot numbers and
queue elements, so the same rules serve a buffer whose slots are spread over
several arrays and a memory block.

The bounded queue is the purpose such a buffer serves: it accepts at most
`cap` undelivered elements and delivers the oldest one first.
-/

namespace Ch579HttpLed
namespace Foundation

/-!
# Slot arithmetic
-/

/-- Slot that lies `k` places after `head` in a ring of `n` slots. -/
def ringSlot (n head k : Nat) : Nat :=
  (head + k) % n

theorem ringSlot_lt {n : Nat} (hn : 0 < n) (head k : Nat) :
    ringSlot n head k < n :=
  Nat.mod_lt _ hn

theorem ringSlot_zero {n head : Nat} (h : head < n) : ringSlot n head 0 = head := by
  simp [ringSlot, Nat.mod_eq_of_lt h]

theorem ringSlot_add (n head j k : Nat) :
    ringSlot n (ringSlot n head j) k = ringSlot n head (j + k) := by
  simp [ringSlot, Nat.add_assoc]

/-- Slots at different distances below `n` are different. -/
theorem ringSlot_ne {n head j k : Nat} (hjk : j < k) (hk : k < n) :
    ringSlot n head j ≠ ringSlot n head k := by
  intro h
  have hmod : (head + j) % n = (head + k) % n := h
  have hdvd : n ∣ (head + k) - (head + j) :=
    Nat.dvd_of_mod_eq_zero (Nat.sub_mod_eq_zero_of_mod_eq hmod.symm)
  have hle : n <= (head + k) - (head + j) := Nat.le_of_dvd (by omega) hdvd
  omega

/-- The usual compare-and-reset increment of an index is the ring successor. -/
theorem ringSlot_one_of_lt {n i : Nat} (h : i < n) :
    ringSlot n i 1 = if n <= i + 1 then 0 else i + 1 := by
  unfold ringSlot
  split
  · next hwrap =>
      have hlast : i + 1 = n := by omega
      rw [hlast, Nat.mod_self]
  · next hwrap =>
      exact Nat.mod_eq_of_lt (by omega)

/-!
# Queues stored in a ring
-/

section Holds

variable {elem : Type*}

/-- The slots after `head` hold the elements of the queue `q`, oldest first. -/
def RingHolds (Slot : Nat -> elem -> Prop) (n head : Nat) (q : List elem) : Prop :=
  forall k x, q[k]? = some x -> Slot (ringSlot n head k) x

theorem ringHolds_nil (Slot : Nat -> elem -> Prop) (n head : Nat) :
    RingHolds Slot n head [] := by
  intro k x h
  simp at h

/-- Filling the slot behind the queue appends to it, if no pending slot changed. -/
theorem ringHolds_push {Slot Slot' : Nat -> elem -> Prop} {n head : Nat}
    {q : List elem} {x : elem} (hq : RingHolds Slot n head q)
    (hspace : q.length < n)
    (hkeep : forall i y, i ≠ ringSlot n head q.length -> Slot i y -> Slot' i y)
    (hnew : Slot' (ringSlot n head q.length) x) :
    RingHolds Slot' n head (q ++ [x]) := by
  intro k y hk
  by_cases hlt : k < q.length
  · rw [List.getElem?_append_left hlt] at hk
    exact hkeep _ y (ringSlot_ne hlt hspace) (hq k y hk)
  · have hlen : k < (q ++ [x]).length := (List.getElem?_eq_some_iff.mp hk).1
    have hkeq : k = q.length := by simp at hlen; omega
    subst hkeq
    have hxy : x = y := by simpa using hk
    rw [← hxy]
    exact hnew

/-- A change outside the pending slots is not noticed by the queue. -/
theorem ringHolds_frame {Slot Slot' : Nat -> elem -> Prop} {n head : Nat}
    {q : List elem} (hq : RingHolds Slot n head q) (hspace : q.length < n)
    (hkeep : forall i y, i ≠ ringSlot n head q.length -> Slot i y -> Slot' i y) :
    RingHolds Slot' n head q := by
  intro k y hk
  have hlt : k < q.length := (List.getElem?_eq_some_iff.mp hk).1
  exact hkeep _ y (ringSlot_ne hlt hspace) (hq k y hk)

/-- Advancing the head drops the oldest element. -/
theorem ringHolds_pop {Slot : Nat -> elem -> Prop} {n head : Nat} {x : elem}
    {q : List elem} (hq : RingHolds Slot n head (x :: q)) :
    RingHolds Slot n (ringSlot n head 1) q := by
  intro k y hk
  rw [ringSlot_add, Nat.add_comm 1 k]
  exact hq (k + 1) y (by simpa using hk)

theorem ringHolds_head {Slot : Nat -> elem -> Prop} {n head : Nat} {x : elem}
    {q : List elem} (hhead : head < n) (hq : RingHolds Slot n head (x :: q)) :
    Slot head x := by
  have h := hq 0 x rfl
  rwa [ringSlot_zero hhead] at h

end Holds

/-!
# Bounded queues
-/

section Fifo

variable {elem : Type*}

/-- A bounded queue accepts an element only while fewer than `cap` are undelivered. -/
def fifoPush (cap : Nat) (q : List elem) (x : elem) : Bool × List elem :=
  if q.length < cap then (true, q ++ [x]) else (false, q)

/-- A bounded queue delivers its oldest undelivered element. -/
def fifoPop : List elem -> Option elem × List elem
  | [] => (none, [])
  | x :: q => (some x, q)

end Fifo

end Foundation
end Ch579HttpLed
