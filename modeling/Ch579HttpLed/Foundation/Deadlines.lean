import Mathlib.Algebra.GroupWithZero.Nat
import Mathlib.Data.List.Basic

/-!
# Queues of deadlines

A job waits in a queue with the time at which it is due.  The queue is kept in
the order of the due times, and a job is inserted behind all jobs that are due
no later, so jobs that are due together leave in the order in which they came.
The last sections count the deadlines of a periodic job and a list by kinds.
-/

namespace Ch579HttpLed
namespace Foundation

structure Deadline (job : Type*) where
  due : Nat
  job : job
deriving DecidableEq, Repr

section Queue

variable {job : Type*}

/-- Inserts a deadline behind all that are due no later. -/
def enqueue (d : Deadline job) : List (Deadline job) -> List (Deadline job)
  | [] => [d]
  | e :: queue => if d.due < e.due then d :: e :: queue else e :: enqueue d queue

def ByDue (queue : List (Deadline job)) : Prop :=
  queue.Pairwise (fun d e => d.due <= e.due)

theorem enqueue_perm (d : Deadline job) (queue : List (Deadline job)) :
    (enqueue d queue).Perm (d :: queue) := by
  induction queue with
  | nil =>
      exact List.Perm.refl _
  | cons e queue ih =>
      rw [enqueue]
      split
      · exact List.Perm.refl _
      · exact (ih.cons e).trans (List.Perm.swap d e queue)

@[simp] theorem mem_enqueue {d e : Deadline job} {queue : List (Deadline job)} :
    e ∈ enqueue d queue <-> e = d ∨ e ∈ queue := by
  rw [(enqueue_perm d queue).mem_iff, List.mem_cons]

theorem enqueue_byDue (d : Deadline job) {queue : List (Deadline job)}
    (h : ByDue queue) : ByDue (enqueue d queue) := by
  induction queue with
  | nil =>
      exact List.pairwise_singleton _ d
  | cons e queue ih =>
      have hcons := List.pairwise_cons.mp h
      rw [enqueue]
      split
      · next hlt =>
          apply List.pairwise_cons.mpr
          constructor
          · intro f hf
            rcases List.mem_cons.mp hf with hfe | hfq
            · rw [hfe]
              exact Nat.le_of_lt hlt
            · exact Nat.le_trans (Nat.le_of_lt hlt) (hcons.left f hfq)
          · exact h
      · next hge =>
          apply List.pairwise_cons.mpr
          constructor
          · intro f hf
            rcases mem_enqueue.mp hf with hfd | hfq
            · rw [hfd]
              exact Nat.le_of_not_lt hge
            · exact hcons.left f hfq
          · exact ih hcons.right

theorem ByDue.tail {d : Deadline job} {queue : List (Deadline job)}
    (h : ByDue (d :: queue)) : ByDue queue :=
  (List.pairwise_cons.mp h).right

theorem ByDue.head_le {d : Deadline job} {queue : List (Deadline job)}
    (h : ByDue (d :: queue)) : forall e, e ∈ queue -> d.due <= e.due :=
  (List.pairwise_cons.mp h).left

/-- If the head is not due yet, nothing is. -/
theorem ByDue.none_due {d : Deadline job} {queue : List (Deadline job)}
    (h : ByDue (d :: queue)) {now : Nat} (hnow : now < d.due) :
    forall e, e ∈ d :: queue -> now < e.due := by
  intro e he
  rcases List.mem_cons.mp he with hed | heq
  · rw [hed]
    exact hnow
  · exact Nat.lt_of_lt_of_le hnow (h.head_le e heq)

end Queue

/-!
# Counting the deadlines of a periodic job
-/

/--
If the job is armed once and then every period, `n` of its deadlines have been
served, the last of these has passed and the next has not, then `n` is the number
of whole periods since it was armed.
-/
theorem periods_passed {armed period now n : Nat} (hperiod : 0 < period)
    (hserved : 0 < n -> armed + n * period <= now)
    (hnext : now < armed + (n + 1) * period) :
    n = (now - armed) / period := by
  rw [Nat.add_mul, Nat.one_mul] at hnext
  symm
  apply (Nat.div_eq_iff hperiod).mpr
  rcases Nat.eq_zero_or_pos n with hzero | hpos
  · subst hzero
    lia
  · have hlast := hserved hpos
    lia

/-!
# Counting by kinds
-/

section Kinds

variable {kind : Type*} [DecidableEq kind]

theorem sum_count_cons (kinds : List kind) (x : kind) (xs : List kind) :
    (kinds.map (fun k => (x :: xs).count k)).sum =
      (kinds.map (fun k => xs.count k)).sum + kinds.count x := by
  induction kinds with
  | nil => rfl
  | cons k kinds ih =>
      rw [List.map_cons, List.map_cons, List.sum_cons, List.sum_cons, ih]
      rcases eq_or_ne x k with heq | hne
      · rw [heq, List.count_cons_self, List.count_cons_self]
        lia
      · rw [List.count_cons_of_ne hne, List.count_cons_of_ne hne.symm]
        lia

/-- A list of known kinds is no longer than the counts of the kinds together. -/
theorem length_le_sum_count {kinds xs : List kind} (hknown : forall x, x ∈ xs -> x ∈ kinds) :
    xs.length <= (kinds.map (fun k => xs.count k)).sum := by
  induction xs with
  | nil =>
      exact Nat.zero_le _
  | cons x xs ih =>
      have hpos : 0 < kinds.count x := List.count_pos_iff.mpr (hknown x List.mem_cons_self)
      have hrest := ih (fun y hy => hknown y (List.mem_cons_of_mem _ hy))
      rw [sum_count_cons, List.length_cons]
      lia

/-- With a limit for each kind the whole list is limited. -/
theorem length_le_of_count_le {kinds xs : List kind} {limit : kind -> Nat}
    (hknown : forall x, x ∈ xs -> x ∈ kinds) (hlimit : forall k, xs.count k <= limit k) :
    xs.length <= (kinds.map limit).sum := by
  apply Nat.le_trans (length_le_sum_count hknown)
  clear hknown
  induction kinds with
  | nil =>
      exact Nat.le_refl _
  | cons k kinds ih =>
      rw [List.map_cons, List.map_cons, List.sum_cons, List.sum_cons]
      exact Nat.add_le_add (hlimit k) ih

end Kinds

end Foundation
end Ch579HttpLed
