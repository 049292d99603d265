import Ch579HttpLed.Net.RxRing

/-!
# The receive ring is a bounded queue

Frame arrivals and calls of `ETHRecX`, taken as whole steps, make the driver a
queue of `RX_QUEUE_NUM - 1` frames.  The abstract machine below is stated in
terms of the queue alone; the simulation relation ties it to the counters, the
per-slot lengths, the slot contents and the DMA start register.
-/

namespace Ch579HttpLed
namespace Net

open Foundation

/-!
# The two machines

An operation is a frame arrival or a call of `ETHRecX`.  An arrival answers
whether the frame was taken over, a call answers its return value and the
caller's buffer.
-/

inductive RxOp where
  | arrive (f : Frame)
  | recv (buf : List UInt8) (size : UInt16)

inductive RxAnswer where
  | stored (accepted : Bool)
  | copied (recvLen : Nat) (buf : List UInt8)
deriving DecidableEq, Repr

/-- One step of the driver; the handler has accepted a frame iff it advanced `RecvIndex`. -/
def rxStep (s : EthMac) : RxOp -> RxAnswer × EthMac
  | .arrive f =>
      (.stored (decide ((frameArrival f s).para.recvIndex ≠ s.para.recvIndex)),
        frameArrival f s)
  | .recv buf size =>
      (.copied (ethRecX buf size s).recvLen.toNat (ethRecX buf size s).buf,
        (ethRecX buf size s).mac)

/-- What a delivery of `f` into a buffer of `size` bytes answers. -/
def deliver (f : Frame) (buf : List UInt8) (size : UInt16) : RxAnswer :=
  .copied (min f.bytes.length size.toNat)
    (overwrite buf (f.bytes.take (min f.bytes.length size.toNat)))

def fifoStep (cap : Nat) (q : List Frame) : RxOp -> RxAnswer × List Frame
  | .arrive f => (.stored (fifoPush cap q f).1, (fifoPush cap q f).2)
  | .recv buf size =>
      match fifoPop q with
      | (none, q') => (.copied 0 buf, q')
      | (some f, q') => (deliver f buf size, q')

/-!
# Conservation in the abstract queue

The frames the queue accepted along a run are the frames it delivered followed
by the frames it still holds, in the same order.
-/

def fifoAccepted (cap : Nat) : List Frame -> List RxOp -> List Frame
  | _, [] => []
  | q, .arrive f :: ops =>
      if q.length < cap then f :: fifoAccepted cap (q ++ [f]) ops
      else fifoAccepted cap q ops
  | q, .recv _ _ :: ops => fifoAccepted cap (fifoPop q).2 ops

def fifoDelivered (cap : Nat) : List Frame -> List RxOp -> List Frame
  | _, [] => []
  | q, .arrive f :: ops => fifoDelivered cap (fifoPush cap q f).2 ops
  | q, .recv _ _ :: ops =>
      (fifoPop q).1.toList ++ fifoDelivered cap (fifoPop q).2 ops

theorem fifoStep_recv_state (cap : Nat) (q : List Frame) (buf : List UInt8)
    (size : UInt16) : (fifoStep cap q (.recv buf size)).2 = (fifoPop q).2 := by
  cases q <;> rfl

theorem fifo_conservation (cap : Nat) (q : List Frame) (ops : List RxOp) :
    q ++ fifoAccepted cap q ops =
      fifoDelivered cap q ops ++ answeringRun (fifoStep cap) q ops := by
  induction ops generalizing q with
  | nil =>
      simp [fifoAccepted, fifoDelivered, answeringRun]
  | cons op ops ih =>
      cases op with
      | arrive f =>
          by_cases hroom : q.length < cap
          · have h := ih (q ++ [f])
            simpa [fifoAccepted, fifoDelivered, fifoStep, fifoPush, hroom] using h
          · have h := ih q
            simpa [fifoAccepted, fifoDelivered, fifoStep, fifoPush, hroom] using h
      | recv buf size =>
          rw [answeringRun_cons, fifoStep_recv_state]
          cases q with
          | nil =>
              simpa [fifoAccepted, fifoDelivered, fifoPop] using ih []
          | cons f q =>
              simpa [fifoAccepted, fifoDelivered, fifoPop] using ih q

/-!
# The simulation relation
-/

/-- Slot `i` still has the length and the original bytes of `f`. -/
def SlotHolds (L : EthLayout) (s : EthMac) (i : Nat) (f : Frame) : Prop :=
  s.para.rxBufLen i = f.len ∧
    readBytes s.mem (L.slotAddr i) f.bytes.length = f.bytes

structure RxRepresents (L : EthLayout) (s : EthMac) (q : List Frame) : Prop where
  indices : RxIndices L s
  count : s.para.remainCout = q.length
  slots : RingHolds (SlotHolds L s) rxQueueNum s.para.readIndex q

theorem Frame.len_toNat (f : Frame) : f.len.toNat = f.bytes.length := by
  have h := f.length_le
  unfold rxBufSize at h
  unfold Frame.len
  rw [UInt16.toNat_ofNat']
  lia

theorem ethStart_represents (L : EthLayout) (s : EthMac) :
    RxRepresents L (ethStart L s) [] where
  indices := ethStart_rxIndices L s
  count := rfl
  slots := ringHolds_nil _ _ _

theorem RxRepresents.recvIndex_eq {L : EthLayout} {s : EthMac} {q : List Frame}
    (h : RxRepresents L s q) :
    s.para.recvIndex = ringSlot rxQueueNum s.para.readIndex q.length := by
  rw [← h.count]
  exact h.indices.recv_eq

/-!
# Arrivals

The DMA writes into the slot behind the pending ones, so a pending slot keeps
its length and its bytes whether the frame is accepted or dropped.
-/

section Arrival

variable {L : EthLayout} {s : EthMac} {q : List Frame}

theorem frameArrival_slotHolds_other (h : RxRepresents L s q) (f : Frame)
    {i : Nat} {g : Frame} (hi : i ≠ ringSlot rxQueueNum s.para.readIndex q.length)
    (hold : SlotHolds L s i g) : SlotHolds L (frameArrival f s) i g := by
  have hne : i ≠ s.para.recvIndex := by
    rw [h.recvIndex_eq]
    exact hi
  unfold SlotHolds frameArrival
  rw [arrival_rxBufLen, arrival_mem, h.indices.erxst_eq,
    L.ramBase_add_low16 h.indices.recv_lt]
  constructor
  · rw [Function.update_of_ne hne]
    exact hold.left
  · rw [readBytes_writeBytes_disjoint]
    · exact hold.right
    · exact L.slotAddr_disjoint hne g.length_le f.length_le

theorem frameArrival_slotHolds_new (h : RxRepresents L s q) (f : Frame) :
    SlotHolds L (frameArrival f s)
      (ringSlot rxQueueNum s.para.readIndex q.length) f := by
  rw [← h.recvIndex_eq]
  unfold SlotHolds frameArrival
  rw [arrival_rxBufLen, arrival_mem, h.indices.erxst_eq,
    L.ramBase_add_low16 h.indices.recv_lt]
  exact ⟨Function.update_self _ _ _, readBytes_writeBytes_same _ _ _⟩

theorem frameArrival_simulates_push (h : RxRepresents L s q) (f : Frame) :
    RxRepresents L (frameArrival f s) (fifoPush (rxQueueNum - 1) q f).2 := by
  have hindices : RxIndices L (frameArrival f s) :=
    arrival_rxIndices h.indices f.bytes f.len
  have hspace : q.length < rxQueueNum := by
    rw [← h.count]
    exact h.indices.remain_lt
  have hkeep : forall i g, i ≠ ringSlot rxQueueNum s.para.readIndex q.length ->
      SlotHolds L s i g -> SlotHolds L (frameArrival f s) i g := by
    intro i g hi hold
    exact frameArrival_slotHolds_other h f hi hold
  have hread : (frameArrival f s).para.readIndex = s.para.readIndex :=
    arrival_readIndex f.bytes f.len s
  have hremain : (frameArrival f s).para.remainCout =
      if q.length < rxQueueNum - 1 then q.length + 1 else q.length := by
    rw [← h.count]
    exact arrival_remainCout f.bytes f.len s
  unfold fifoPush
  split
  · next hroom =>
      rw [if_pos hroom] at hremain
      refine ⟨hindices, ?_, ?_⟩
      · rw [hremain, List.length_append, List.length_singleton]
      · rw [hread]
        exact ringHolds_push h.slots hspace hkeep (frameArrival_slotHolds_new h f)
  · next hfull =>
      rw [if_neg hfull] at hremain
      refine ⟨hindices, hremain, ?_⟩
      rw [hread]
      exact ringHolds_frame h.slots hspace hkeep

/-- The handler advances `RecvIndex` exactly when the abstract queue has room. -/
theorem frameArrival_accepts (h : RxRepresents L s q) (f : Frame) :
    decide ((frameArrival f s).para.recvIndex ≠ s.para.recvIndex) =
      (fifoPush (rxQueueNum - 1) q f).1 := by
  have hdiff : ringSlot rxQueueNum s.para.recvIndex 1 ≠ s.para.recvIndex := by
    have hne : ringSlot rxQueueNum s.para.recvIndex 0 ≠
        ringSlot rxQueueNum s.para.recvIndex 1 := ringSlot_ne (by decide) (by decide)
    rw [ringSlot_zero h.indices.recv_lt] at hne
    exact hne.symm
  have hindex : (frameArrival f s).para.recvIndex =
      if q.length < rxQueueNum - 1 then ringSlot rxQueueNum s.para.recvIndex 1
      else s.para.recvIndex := by
    rw [← h.count]
    exact arrival_recvIndex f.bytes f.len h.indices.recv_lt
  rw [hindex]
  unfold fifoPush
  split
  · simp [hdiff]
  · simp

end Arrival

/-!
# Deliveries
-/

section Delivery

variable {L : EthLayout} {s : EthMac}

theorem ethRecX_simulates_pop {f : Frame} {q : List Frame}
    (h : RxRepresents L s (f :: q)) (buf : List UInt8) (size : UInt16) :
    RxAnswer.copied (ethRecX buf size s).recvLen.toNat (ethRecX buf size s).buf =
        deliver f buf size ∧
      RxRepresents L (ethRecX buf size s).mac q := by
  have hne : s.para.remainCout ≠ 0 := by
    rw [h.count]
    simp
  rcases ethRecX_nonempty h.indices hne buf size with
    ⟨hindices, hremain, hread, hlen, hbuf⟩
  have hhead : SlotHolds L s s.para.readIndex f :=
    ringHolds_head h.indices.read_lt h.slots
  have hmin : (ethRecX buf size s).recvLen.toNat =
      min f.bytes.length size.toNat := by
    rw [hlen, hhead.left, f.len_toNat]
  constructor
  · rw [hbuf, hmin]
    unfold deliver
    congr 2
    rw [← take_readBytes _ _ f.bytes.length _ (Nat.min_le_left _ _), hhead.right]
  · refine ⟨hindices, ?_, ?_⟩
    · have hcount := h.count
      simp at hcount
      lia
    · rw [hread]
      intro k g hk
      have hslot := ringHolds_pop h.slots k g hk
      unfold SlotHolds at *
      rw [ethRecX_rxBufLen, ethRecX_mem]
      exact hslot

end Delivery

/-!
# Refinement
-/

theorem rxStep_simulates (L : EthLayout) (s : EthMac) (q : List Frame) (op : RxOp)
    (h : RxRepresents L s q) :
    (rxStep s op).1 = (fifoStep (rxQueueNum - 1) q op).1 ∧
      RxRepresents L (rxStep s op).2 (fifoStep (rxQueueNum - 1) q op).2 := by
  cases op with
  | arrive f =>
      constructor
      · exact congrArg RxAnswer.stored (frameArrival_accepts h f)
      · exact frameArrival_simulates_push h f
  | recv buf size =>
      cases q with
      | nil =>
          have hrec : ethRecX buf size s =
              { recvLen := 0, buf := buf, mac := s } :=
            ethRecX_empty buf size h.count
          simp only [rxStep, hrec]
          exact ⟨rfl, h⟩
      | cons f q =>
          exact ethRecX_simulates_pop h buf size

/-- The frames undelivered after a run, according to the abstract queue. -/
def undelivered (ops : List RxOp) : List Frame :=
  answeringRun (fifoStep (rxQueueNum - 1)) [] ops

theorem rxRun_represents (L : EthLayout) (s : EthMac) (ops : List RxOp) :
    answers rxStep (ethStart L s) ops =
        answers (fifoStep (rxQueueNum - 1)) [] ops ∧
      RxRepresents L (answeringRun rxStep (ethStart L s) ops) (undelivered ops) :=
  answers_eq_of_simulation (rxStep_simulates L) (ethStart_represents L s) ops

/-- A call that returns 0 and changes nothing found no undelivered frame. -/
theorem ethRecX_unchanged_iff {L : EthLayout} {s : EthMac} {q : List Frame}
    (h : RxRepresents L s q) (buf : List UInt8) (size : UInt16) :
    ((ethRecX buf size s).recvLen = 0 ∧ (ethRecX buf size s).buf = buf ∧
        (ethRecX buf size s).mac = s) <-> q = [] := by
  constructor
  · intro hsame
    cases q with
    | nil => rfl
    | cons f q =>
        have hne : s.para.remainCout ≠ 0 := by
          rw [h.count]
          simp
        have hremain := (ethRecX_nonempty h.indices hne buf size).right.left
        rw [hsame.right.right] at hremain
        lia
  · intro hq
    subst hq
    rw [ethRecX_empty buf size h.count]
    exact ⟨rfl, rfl, rfl⟩

/--
Along every run from the initialisers the driver answers as the queue of
capacity `RX_QUEUE_NUM - 1` does, a call answers 0 and changes nothing exactly
when no frame is undelivered, and the accepted frames are the delivered ones
followed by the undelivered ones.
-/
theorem rxRing_refines_fifo (L : EthLayout) (s : EthMac) (ops : List RxOp) :
    answers rxStep (ethStart L s) ops =
        answers (fifoStep (rxQueueNum - 1)) [] ops ∧
      (forall buf size,
        let t := answeringRun rxStep (ethStart L s) ops
        let r := ethRecX buf size t
        (r.recvLen = 0 ∧ r.buf = buf ∧ r.mac = t) <-> undelivered ops = []) ∧
      fifoAccepted (rxQueueNum - 1) [] ops =
        fifoDelivered (rxQueueNum - 1) [] ops ++ undelivered ops := by
  have hrun := rxRun_represents L s ops
  refine ⟨hrun.left, ?_, ?_⟩
  · intro buf size
    exact ethRecX_unchanged_iff hrun.right buf size
  · exact fifo_conservation (rxQueueNum - 1) [] ops

-- The first frame is cut to the caller's size, the rest of whose buffer stays as it was.
example :
    answers rxStep (ethStart EthLayout.lowest EthMac.blank)
      [.arrive ⟨[1, 2, 3], by decide⟩, .arrive ⟨[4], by decide⟩,
        .recv [9, 9, 9, 9] 2, .recv [9, 9, 9, 9] 4, .recv [9, 9, 9, 9] 4] =
      [.stored true, .stored true, .copied 2 [1, 2, 9, 9], .copied 1 [4, 9, 9, 9],
        .copied 0 [9, 9, 9, 9]] := by
  decide +kernel

end Net
end Ch579HttpLed
