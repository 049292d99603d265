import Ch579HttpLed.Net.RxRing

/-!
# The receive ring under preemption

`ETHRecX` runs in the foreground with interrupts enabled.  Here it is the
sequence of its single loads and stores of `ETHRxMagPara`, and a frame arrival
with a complete run of `ETH_IRQHandler` may fall between any two of them.  The
decrement of `RemainCout` is a load and a later store, so an arrival accepted
between the two is forgotten by the store.

The module follows the ring through such runs.  The ghost counters record how
many frames the handler accepted, how many `ETHRecX` gave up, and how many
accepted frames were forgotten.
-/

namespace Ch579HttpLed
namespace Net

open Foundation

/-!
# Loads and stores of `ETHRecX`

The constructors are named after the access that runs next.  `copy` is the
`memcpy`, which touches no field of `ETHRxMagPara`.
-/

inductive EthRecXPc where
  | outside
  | testRemain
  | loadAddrIndex
  | loadAddr
  | loadLenIndex
  | testLen
  | loadLenIndexAgain
  | loadLen
  | copy
  | loadStauIndex
  | storeStau
  | loadReadIndex
  | storeReadIndex
  | testReadIndex
  | resetReadIndex
  | loadRemain
  | storeRemain
deriving DecidableEq, Repr

/-- Arguments, variables and the register of a running `ETHRecX`. -/
structure EthRecXLocals where
  pRecvBuf : List UInt8
  recvBufSize : UInt16
  pRxBuf : Nat
  recvLen : UInt16
  reg : Nat

structure RxPreempt where
  mac : EthMac
  pc : EthRecXPc
  loc : EthRecXLocals
  accepted : Nat
  consumed : Nat
  lost : Nat

inductive RxPreemptEvent where
  | call (pRecvBuf : List UInt8) (recvBufSize : UInt16)
  | exec
  | irq (bytes : List UInt8) (len : UInt16)

/-- The next load or store of `ETHRecX`. -/
def ethRecXAccess (s : RxPreempt) : RxPreempt :=
  let p := s.mac.para
  let load pc v := { s with pc := pc, loc := { s.loc with reg := v } }
  let store pc p := { s with pc := pc, mac := { s.mac with para := p } }
  match s.pc with
  | .outside => s
  | .testRemain =>
      if p.remainCout = 0 then
        { s with pc := .outside, loc := { s.loc with recvLen := 0 } }
      else { s with pc := .loadAddrIndex }
  | .loadAddrIndex => load .loadAddr p.readIndex
  | .loadAddr =>
      { s with pc := .loadLenIndex, loc := { s.loc with pRxBuf := p.rxBufAddr s.loc.reg } }
  | .loadLenIndex => load .testLen p.readIndex
  | .testLen =>
      if p.rxBufLen s.loc.reg < s.loc.recvBufSize then { s with pc := .loadLenIndexAgain }
      else { s with pc := .copy, loc := { s.loc with recvLen := s.loc.recvBufSize } }
  | .loadLenIndexAgain => load .loadLen p.readIndex
  | .loadLen =>
      { s with pc := .copy, loc := { s.loc with recvLen := p.rxBufLen s.loc.reg } }
  | .copy =>
      { s with
        pc := .loadStauIndex
        loc := { s.loc with
          pRecvBuf := overwrite s.loc.pRecvBuf
            (readBytes s.mac.mem s.loc.pRxBuf s.loc.recvLen.toNat) } }
  | .loadStauIndex => load .storeStau p.readIndex
  | .storeStau =>
      store .loadReadIndex
        { p with rxBufStau := Function.update p.rxBufStau s.loc.reg 0 }
  | .loadReadIndex => load .storeReadIndex p.readIndex
  | .storeReadIndex =>
      store .testReadIndex { p with readIndex := (s.loc.reg + 1) % 256 }
  | .testReadIndex =>
      if rxQueueNum <= p.readIndex then { s with pc := .resetReadIndex }
      else { s with pc := .loadRemain }
  | .resetReadIndex => store .loadRemain { p with readIndex := 0 }
  | .loadRemain => load .storeRemain p.remainCout
  | .storeRemain =>
      { store .outside { p with remainCout := (s.loc.reg + 255) % 256 } with
        consumed := s.consumed + 1 }

/-- The handler would accept a frame now: its test of `RemainCout` succeeds. -/
def Accepting (s : RxPreempt) : Prop :=
  s.mac.para.remainCout < rxQueueNum - 1

instance (s : RxPreempt) : Decidable (Accepting s) :=
  inferInstanceAs (Decidable (s.mac.para.remainCout < rxQueueNum - 1))

def rxPreemptStep (s : RxPreempt) : RxPreemptEvent -> RxPreempt
  | .call pRecvBuf recvBufSize =>
      if s.pc = .outside then
        { s with
          pc := .testRemain
          loc := { s.loc with pRecvBuf := pRecvBuf, recvBufSize := recvBufSize } }
      else s
  | .exec => ethRecXAccess s
  | .irq bytes len =>
      { s with
        mac := ethIRQHandler (macReceive bytes len s.mac)
        accepted := if Accepting s then s.accepted + 1 else s.accepted
        lost := if Accepting s ∧ s.pc = .storeRemain then s.lost + 1 else s.lost }

def rxPreemptStart (L : EthLayout) (mac : EthMac) : RxPreempt where
  mac := ethStart L mac
  pc := .outside
  loc := ⟨[], 0, 0, 0, 0⟩
  accepted := 0
  consumed := 0
  lost := 0

/-!
# Agreement with the whole call

Without an interrupt the accesses add up to the call: sixteen of them are
always enough, and the foreground stays outside afterwards.
-/

theorem rxPreempt_call_agrees (s : RxPreempt) (h : s.pc = .outside)
    (buf : List UInt8) (size : UInt16) :
    let t := run rxPreemptStep s
      (.call buf size :: List.replicate 16 RxPreemptEvent.exec)
    t.pc = .outside ∧ t.mac = (ethRecX buf size s.mac).mac ∧
      t.loc.recvLen = (ethRecX buf size s.mac).recvLen ∧
      t.loc.pRecvBuf = (ethRecX buf size s.mac).buf := by
  rcases s with ⟨mac, pc, loc, accepted, consumed, lost⟩
  subst h
  by_cases hzero : mac.para.remainCout = 0
  · simp [List.replicate, rxPreemptStep, ethRecXAccess, ethRecX, hzero]
  · by_cases hlen : mac.para.rxBufLen mac.para.readIndex < size <;>
      by_cases hwrap : rxQueueNum <= (mac.para.readIndex + 1) % 256 <;>
      simp [List.replicate, rxPreemptStep, ethRecXAccess, ethRecX, nextIndex,
        hzero, hlen, hwrap]

/-!
# The invariant

`pending` is the number of entries the ring owes: `RemainCout`, except that
between the load and the store of the decrement it is the loaded value.  Once
`ReadIndex` was stored, it is ahead of the entries by one slot, which modulo
`RX_QUEUE_NUM` is the same as two slots behind.
-/

def pending (s : RxPreempt) : Nat :=
  if s.pc = .storeRemain then s.loc.reg else s.mac.para.remainCout

def readOffset : EthRecXPc -> Nat
  | .testReadIndex => 2
  | .resetReadIndex => 2
  | .loadRemain => 2
  | .storeRemain => 2
  | _ => 0

/-- What the accesses still to come rely on. -/
def PcFacts (s : RxPreempt) : Prop :=
  let p := s.mac.para
  match s.pc with
  | .outside => p.readIndex < rxQueueNum
  | .testRemain => p.readIndex < rxQueueNum
  | .storeReadIndex =>
      p.readIndex < rxQueueNum ∧ 0 < p.remainCout ∧ s.loc.reg = p.readIndex
  | .testReadIndex => p.readIndex <= rxQueueNum ∧ 0 < p.remainCout
  | .resetReadIndex => p.readIndex = rxQueueNum ∧ 0 < p.remainCout
  | .storeRemain =>
      p.readIndex < rxQueueNum ∧ 0 < s.loc.reg ∧ s.loc.reg <= p.remainCout
  | _ => p.readIndex < rxQueueNum ∧ 0 < p.remainCout

structure PreemptInv (L : EthLayout) (s : RxPreempt) : Prop where
  addr : forall i, i < rxQueueNum -> s.mac.para.rxBufAddr i = L.slotAddr i
  erxst_eq : s.mac.erxst = low16 (L.slotAddr s.mac.para.recvIndex)
  remain_lt : s.mac.para.remainCout < rxQueueNum
  balance : s.accepted = s.consumed + pending s + s.lost
  recv_eq : s.mac.para.recvIndex =
    (s.mac.para.readIndex + readOffset s.pc + pending s + s.lost) % rxQueueNum
  facts : PcFacts s

theorem rxPreemptStart_inv (L : EthLayout) (mac : EthMac) :
    PreemptInv L (rxPreemptStart L mac) := by
  have h := ethStart_rxIndices L mac
  exact ⟨h.addr, h.erxst_eq, h.remain_lt, rfl, rfl, h.read_lt⟩

/-!
# Steps of the foreground

A load changes only the register and the position.  The stores of `ReadIndex`
move the offset, and the store of `RemainCout` gives up one entry.
-/

theorem ethRecXAccess_inv {L : EthLayout} {s : RxPreempt} (h : PreemptInv L s) :
    PreemptInv L (ethRecXAccess s) := by
  rcases s with ⟨mac, pc, loc, accepted, consumed, lost⟩
  cases pc with
  | testRemain =>
      by_cases hzero : mac.para.remainCout = 0
      · simp only [ethRecXAccess, if_pos hzero]
        exact ⟨h.addr, h.erxst_eq, h.remain_lt, h.balance, h.recv_eq, h.facts⟩
      · simp only [ethRecXAccess, if_neg hzero]
        exact ⟨h.addr, h.erxst_eq, h.remain_lt, h.balance, h.recv_eq,
          h.facts, Nat.pos_of_ne_zero hzero⟩
  | testLen =>
      by_cases hlen : mac.para.rxBufLen loc.reg < loc.recvBufSize
      · simp only [ethRecXAccess, if_pos hlen]
        exact ⟨h.addr, h.erxst_eq, h.remain_lt, h.balance, h.recv_eq, h.facts⟩
      · simp only [ethRecXAccess, if_neg hlen]
        exact ⟨h.addr, h.erxst_eq, h.remain_lt, h.balance, h.recv_eq, h.facts⟩
  | loadReadIndex =>
      exact ⟨h.addr, h.erxst_eq, h.remain_lt, h.balance, h.recv_eq,
        h.facts.left, h.facts.right, rfl⟩
  | storeReadIndex =>
      rcases h.facts with ⟨hread, hpos, hreg⟩
      have hrecv := h.recv_eq
      have hnext : (loc.reg + 1) % 256 = mac.para.readIndex + 1 := by
        unfold rxQueueNum at hread
        lia
      refine ⟨h.addr, h.erxst_eq, h.remain_lt, h.balance, ?_, ?_⟩
      · simp only [ethRecXAccess, hnext]
        simp [readOffset, pending, rxQueueNum] at hrecv ⊢
        lia
      · simp only [ethRecXAccess, hnext]
        exact ⟨hread, hpos⟩
  | testReadIndex =>
      by_cases hwrap : rxQueueNum <= mac.para.readIndex
      · simp only [ethRecXAccess, if_pos hwrap]
        exact ⟨h.addr, h.erxst_eq, h.remain_lt, h.balance, h.recv_eq,
          Nat.le_antisymm h.facts.left hwrap, h.facts.right⟩
      · simp only [ethRecXAccess, if_neg hwrap]
        exact ⟨h.addr, h.erxst_eq, h.remain_lt, h.balance, h.recv_eq,
          Nat.lt_of_not_le hwrap, h.facts.right⟩
  | resetReadIndex =>
      have hrecv := h.recv_eq
      have hread : mac.para.readIndex = 3 := h.facts.left
      refine ⟨h.addr, h.erxst_eq, h.remain_lt, h.balance, ?_, ?_⟩
      · simp only [ethRecXAccess]
        simp [readOffset, pending, rxQueueNum, hread] at hrecv ⊢
        lia
      · exact ⟨rxQueueNum_pos, h.facts.right⟩
  | loadRemain =>
      exact ⟨h.addr, h.erxst_eq, h.remain_lt, h.balance, h.recv_eq,
        h.facts.left, h.facts.right, Nat.le_refl _⟩
  | storeRemain =>
      rcases h.facts with ⟨hread, hpos, hle⟩
      have hremain := h.remain_lt
      have hbalance := h.balance
      have hrecv := h.recv_eq
      simp only [rxQueueNum] at hremain hpos hle
      have hdec : (loc.reg + 255) % 256 = loc.reg - 1 := by
        lia
      refine ⟨h.addr, h.erxst_eq, ?_, ?_, ?_, hread⟩
      · simp only [ethRecXAccess, hdec, rxQueueNum]
        lia
      · simp only [ethRecXAccess, hdec]
        simp [pending] at hbalance ⊢
        lia
      · simp only [ethRecXAccess, hdec]
        simp [readOffset, pending, rxQueueNum] at hrecv ⊢
        lia
  | _ =>
      exact ⟨h.addr, h.erxst_eq, h.remain_lt, h.balance, h.recv_eq, h.facts⟩

/-!
# Steps of the handler

An accepted frame is owed from then on.  The only exception is the window
between the load and the store of the decrement: there the frame is counted as
lost, because the store writes a value that does not include it.
-/

theorem pcFacts_of_remain_le {s : RxPreempt} {mac : EthMac}
    (hread : mac.para.readIndex = s.mac.para.readIndex)
    (hle : s.mac.para.remainCout <= mac.para.remainCout) (h : PcFacts s) :
    PcFacts { s with mac := mac } := by
  rcases s with ⟨mac', pc, loc, accepted, consumed, lost⟩
  cases pc <;> simp [PcFacts, hread] at h hle ⊢ <;> lia

theorem irq_inv {L : EthLayout} {s : RxPreempt} (h : PreemptInv L s)
    (bytes : List UInt8) (len : UInt16) :
    PreemptInv L (rxPreemptStep s (.irq bytes len)) := by
  have hlt : s.mac.para.recvIndex < rxQueueNum := by
    rw [h.recv_eq]
    exact Nat.mod_lt _ rxQueueNum_pos
  rcases arrival_addresses bytes len h.addr hlt h.erxst_eq with ⟨haddr, herxst⟩
  have hremain := arrival_remainCout bytes len s.mac
  have hrecv := arrival_recvIndex bytes len hlt
  have hread := arrival_readIndex bytes len s.mac
  have hbalance := h.balance
  have hslot := h.recv_eq
  have hbound := h.remain_lt
  refine ⟨haddr, herxst, ?_, ?_, ?_, ?_⟩
  · show (ethIRQHandler (macReceive bytes len s.mac)).para.remainCout < rxQueueNum
    rw [hremain]
    split <;> lia
  · simp only [rxPreemptStep, pending, Accepting, hremain]
    simp only [pending] at hbalance
    split at hbalance <;> split <;> simp_all <;> lia
  · simp only [rxPreemptStep, pending, Accepting, hremain, hrecv, hread]
    simp only [pending] at hslot
    simp only [ringSlot, rxQueueNum] at *
    split at hslot <;> split <;> simp_all <;> lia
  · apply pcFacts_of_remain_le hread _ h.facts
    rw [hremain]
    split <;> lia

theorem rxPreemptStep_inv {L : EthLayout} (s : RxPreempt) (e : RxPreemptEvent)
    (h : PreemptInv L s) : PreemptInv L (rxPreemptStep s e) := by
  cases e with
  | call buf size =>
      rcases s with ⟨mac, pc, loc, accepted, consumed, lost⟩
      by_cases hpc : pc = .outside
      · subst hpc
        exact ⟨h.addr, h.erxst_eq, h.remain_lt, h.balance, h.recv_eq, h.facts⟩
      · simp only [rxPreemptStep, if_neg hpc]
        exact h
  | exec => exact ethRecXAccess_inv h
  | irq bytes len => exact irq_inv h bytes len

/-!
# Lost updates
-/

/-- The event is an arrival that the handler accepts inside the decrement. -/
def LosesUpdate (s : RxPreempt) : RxPreemptEvent -> Prop
  | .irq _ _ => Accepting s ∧ s.pc = .storeRemain
  | _ => False

theorem rxPreemptStep_lost (s : RxPreempt) (e : RxPreemptEvent) :
    (LosesUpdate s e -> (rxPreemptStep s e).lost = s.lost + 1) ∧
      (¬ LosesUpdate s e -> (rxPreemptStep s e).lost = s.lost) := by
  cases e with
  | call buf size =>
      by_cases hpc : s.pc = .outside <;> simp [LosesUpdate, rxPreemptStep, hpc]
  | exec =>
      rcases s with ⟨mac, pc, loc, accepted, consumed, lost⟩
      cases pc <;> simp [LosesUpdate, rxPreemptStep, ethRecXAccess] <;>
        split <;> simp
  | irq bytes len =>
      constructor
      · intro h
        exact if_pos h
      · intro h
        exact if_neg h

theorem run_lost_ge (s : RxPreempt) (es : List RxPreemptEvent) :
    s.lost <= (run rxPreemptStep s es).lost := by
  have hstep : forall t e, s.lost <= t.lost -> s.lost <= (rxPreemptStep t e).lost := by
    intro t e ht
    rcases Classical.em (LosesUpdate t e) with h | h
    · rw [(rxPreemptStep_lost t e).left h]
      lia
    · rw [(rxPreemptStep_lost t e).right h]
      exact ht
  exact run_invariant hstep (Nat.le_refl _) es

/-- The loss counter stays where it was exactly if no step of the run loses an update. -/
theorem run_lost_eq_iff (s : RxPreempt) (es : List RxPreemptEvent) :
    (run rxPreemptStep s es).lost = s.lost <->
      AllSteps rxPreemptStep (fun t e => ¬ LosesUpdate t e) s es := by
  induction es generalizing s with
  | nil =>
      simp [AllSteps]
  | cons e es ih =>
      rw [run_cons, AllSteps]
      have hge := run_lost_ge (rxPreemptStep s e) es
      rcases Classical.em (LosesUpdate s e) with h | h
      · rw [(rxPreemptStep_lost s e).left h] at hge
        constructor
        · intro heq
          lia
        · intro hok
          exact absurd h hok.left
      · have hstep := (rxPreemptStep_lost s e).right h
        rw [← hstep, ih (rxPreemptStep s e)]
        constructor
        · intro hok
          exact ⟨h, hok⟩
        · intro hok
          exact hok.right

/-- Counters, indices and DMA start agree with the frames accepted and consumed. -/
def RingConsistent (L : EthLayout) (s : RxPreempt) : Prop :=
  let p := s.mac.para
  p.remainCout + s.consumed = s.accepted ∧
    p.recvIndex = (p.readIndex + p.remainCout) % rxQueueNum ∧
    forall k, k < p.remainCout ->
      s.mac.erxst ≠ low16 (L.slotAddr ((p.readIndex + k) % rxQueueNum))

theorem ringConsistent_iff_lost_eq_zero {L : EthLayout} {s : RxPreempt}
    (h : PreemptInv L s) (hpc : s.pc = .outside) :
    RingConsistent L s <-> s.lost = 0 := by
  have hpending : pending s = s.mac.para.remainCout := by
    simp [pending, hpc]
  have hbalance := h.balance
  have hrecv := h.recv_eq
  rw [hpending] at hbalance hrecv
  rw [hpc] at hrecv
  constructor
  · intro hcons
    have hcount := hcons.left
    lia
  · intro hlost
    rw [hlost] at hbalance hrecv
    have hslot : s.mac.para.recvIndex =
        (s.mac.para.readIndex + s.mac.para.remainCout) % rxQueueNum := hrecv
    refine ⟨by lia, hslot, ?_⟩
    intro k hk
    rw [h.erxst_eq, hslot]
    apply L.low16_slotAddr_ne (ringSlot_lt rxQueueNum_pos _ _)
      (ringSlot_lt rxQueueNum_pos _ _)
    exact (ringSlot_ne hk h.remain_lt).symm

/--
In every run from the initialisers that ends outside `ETHRecX`, the ring is
consistent exactly if no frame was accepted between a load and the matching
store of the decrement of `RemainCout`.
-/
theorem rxPreempt_consistent_iff (L : EthLayout) (mac : EthMac)
    (es : List RxPreemptEvent)
    (hpc : (run rxPreemptStep (rxPreemptStart L mac) es).pc = .outside) :
    RingConsistent L (run rxPreemptStep (rxPreemptStart L mac) es) <->
      AllSteps rxPreemptStep (fun s e => ¬ LosesUpdate s e)
        (rxPreemptStart L mac) es := by
  have hinv : PreemptInv L (run rxPreemptStep (rxPreemptStart L mac) es) :=
    run_invariant rxPreemptStep_inv (rxPreemptStart_inv L mac) es
  rw [ringConsistent_iff_lost_eq_zero hinv hpc]
  exact run_lost_eq_iff (rxPreemptStart L mac) es

/-- One frame is accepted and a call of `ETHRecX` has loaded its count. -/
def insideDecrement : List RxPreemptEvent :=
  .irq (List.replicate 60 0) 60 :: .call (List.replicate 60 0) 60 ::
    List.replicate 12 .exec

theorem rxPreempt_consistent_iff_at_sample :
    RingConsistent EthLayout.lowest
        (run rxPreemptStep (rxPreemptStart EthLayout.lowest EthMac.blank)
          (insideDecrement ++ [.exec])) <->
      AllSteps rxPreemptStep (fun s e => ¬ LosesUpdate s e)
        (rxPreemptStart EthLayout.lowest EthMac.blank) (insideDecrement ++ [.exec]) :=
  rxPreempt_consistent_iff EthLayout.lowest EthMac.blank _ rfl

/-- An arrival inside the decrement leaves two accepted frames and an empty count. -/
theorem rxPreempt_loses_frame :
    let s := run rxPreemptStep (rxPreemptStart EthLayout.lowest EthMac.blank)
      (insideDecrement ++ [.irq (List.replicate 60 0) 60, .exec])
    s.pc = .outside ∧ s.accepted = 2 ∧ s.consumed = 1 ∧
      s.mac.para.remainCout = 0 ∧ ¬ RingConsistent EthLayout.lowest s := by
  have hpc : (run rxPreemptStep (rxPreemptStart EthLayout.lowest EthMac.blank)
      (insideDecrement ++ [.irq (List.replicate 60 0) 60, .exec])).pc = .outside := rfl
  refine ⟨hpc, rfl, rfl, rfl, ?_⟩
  intro hcons
  exact absurd hcons.left (by decide)

end Net
end Ch579HttpLed
