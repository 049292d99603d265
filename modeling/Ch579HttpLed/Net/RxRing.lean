import Ch579HttpLed.Net.EthMac

/-!
# The receive ring

The three counters of `ETHRxMagPara`, the slot addresses and the DMA start
register agree with each other in every state between two calls.  This module
states that agreement once, as `RxIndices`, and says what the receive branch of
the handler and a call of `ETHRecX` do to it.
-/

namespace Ch579HttpLed
namespace Net

open Foundation

/-!
# Slot addresses

A slot address survives the sixteen-bit cast of the DMA start register, and
different slots keep different start registers and disjoint bytes.
-/

theorem EthLayout.ramBase_add_low16 (L : EthLayout) {i : Nat}
    (h : i < rxQueueNum) : ramBase + low16 (L.slotAddr i) = L.slotAddr i := by
  have hlow := L.ramBase_le_macRxBuf
  have hhigh := L.macRxBuf_end_le
  unfold rxQueueNum at h hhigh
  unfold EthLayout.slotAddr low16
  unfold ramBase at *
  unfold ramSize rxBufSize at *
  lia

theorem EthLayout.slotAddr_disjoint (L : EthLayout) {i j m n : Nat}
    (hij : i ≠ j) (hm : m <= rxBufSize) (hn : n <= rxBufSize) :
    L.slotAddr i + m <= L.slotAddr j ∨ L.slotAddr j + n <= L.slotAddr i := by
  unfold EthLayout.slotAddr
  unfold rxBufSize at *
  rcases Nat.lt_or_gt_of_ne hij with hlt | hgt
  · apply Or.inl
    lia
  · apply Or.inr
    lia

theorem EthLayout.low16_slotAddr_ne (L : EthLayout) {i j : Nat}
    (hi : i < rxQueueNum) (hj : j < rxQueueNum) (hij : i ≠ j) :
    low16 (L.slotAddr i) ≠ low16 (L.slotAddr j) := by
  intro h
  have haddr : L.slotAddr i = L.slotAddr j := by
    rw [← L.ramBase_add_low16 hi, ← L.ramBase_add_low16 hj, h]
  unfold EthLayout.slotAddr rxBufSize at haddr
  lia

/-!
# Agreement of the counters
-/

theorem rxQueueNum_pos : 0 < rxQueueNum := by
  decide

structure RxIndices (L : EthLayout) (s : EthMac) : Prop where
  addr : forall i, i < rxQueueNum -> s.para.rxBufAddr i = L.slotAddr i
  read_lt : s.para.readIndex < rxQueueNum
  remain_lt : s.para.remainCout < rxQueueNum
  recv_eq : s.para.recvIndex =
    ringSlot rxQueueNum s.para.readIndex s.para.remainCout
  erxst_eq : s.erxst = low16 (L.slotAddr s.para.recvIndex)

theorem RxIndices.recv_lt {L : EthLayout} {s : EthMac} (h : RxIndices L s) :
    s.para.recvIndex < rxQueueNum := by
  rw [h.recv_eq]
  exact ringSlot_lt rxQueueNum_pos _ _

/-- The initialisers leave an empty ring whose DMA points at slot 0. -/
theorem ethStart_rxIndices (L : EthLayout) (s : EthMac) :
    RxIndices L (ethStart L s) where
  addr := by
    intro i hi
    show (if i < rxQueueNum then L.slotAddr i else 0) = L.slotAddr i
    rw [if_pos hi]
  read_lt := by simp [ethStart, ethInitX, phyTxInit, ethParaInitX, rxQueueNum]
  remain_lt := by simp [ethStart, ethInitX, phyTxInit, ethParaInitX, rxQueueNum]
  recv_eq := rfl
  erxst_eq := rfl

/-!
# The receive branch
-/

theorem nextIndex_eq {i : Nat} (h : i < rxQueueNum) :
    nextIndex i = ringSlot rxQueueNum i 1 := by
  have hindex : (i + 1) % 256 = i + 1 := by
    unfold rxQueueNum at h
    lia
  rw [ringSlot_one_of_lt h, nextIndex, hindex]

@[simp] theorem recvFrame_mem (s : EthMac) : (recvFrame s).mem = s.mem := by
  simp only [recvFrame]
  split <;> rfl

@[simp] theorem recvFrame_readIndex (s : EthMac) :
    (recvFrame s).para.readIndex = s.para.readIndex := by
  simp only [recvFrame]
  split <;> rfl

@[simp] theorem recvFrame_rxBufAddr (s : EthMac) :
    (recvFrame s).para.rxBufAddr = s.para.rxBufAddr := by
  simp only [recvFrame]
  split <;> rfl

/-- Both branches store the reported length in the slot the DMA has filled. -/
@[simp] theorem recvFrame_rxBufLen (s : EthMac) :
    (recvFrame s).para.rxBufLen =
      Function.update s.para.rxBufLen s.para.recvIndex s.erxln := by
  simp only [recvFrame]
  split <;> rfl

theorem recvFrame_remainCout {s : EthMac} :
    (recvFrame s).para.remainCout =
      if s.para.remainCout < rxQueueNum - 1 then s.para.remainCout + 1
      else s.para.remainCout := by
  by_cases h : s.para.remainCout < rxQueueNum - 1
  · simp only [recvFrame, if_pos h]
    unfold rxQueueNum at h
    lia
  · simp only [recvFrame, if_neg h]

theorem recvFrame_recvIndex {s : EthMac} (hrecv : s.para.recvIndex < rxQueueNum) :
    (recvFrame s).para.recvIndex =
      if s.para.remainCout < rxQueueNum - 1 then
        ringSlot rxQueueNum s.para.recvIndex 1
      else s.para.recvIndex := by
  rw [← nextIndex_eq hrecv]
  by_cases h : s.para.remainCout < rxQueueNum - 1
  · simp only [recvFrame, if_pos h]
  · simp only [recvFrame, if_neg h]

/-- The DMA start register keeps naming the slot at `RecvIndex`. -/
theorem recvFrame_erxst {L : EthLayout} {s : EthMac}
    (haddr : forall i, i < rxQueueNum -> s.para.rxBufAddr i = L.slotAddr i)
    (hrecv : s.para.recvIndex < rxQueueNum)
    (herxst : s.erxst = low16 (L.slotAddr s.para.recvIndex)) :
    (recvFrame s).erxst = low16 (L.slotAddr (recvFrame s).para.recvIndex) := by
  have hindex := recvFrame_recvIndex hrecv
  by_cases h : s.para.remainCout < rxQueueNum - 1
  · rw [if_pos h] at hindex
    have hlt : (recvFrame s).para.recvIndex < rxQueueNum := by
      rw [hindex]
      exact ringSlot_lt rxQueueNum_pos _ _
    rw [← haddr _ hlt]
    simp only [recvFrame, if_pos h]
  · rw [if_neg h] at hindex
    rw [hindex, ← herxst]
    simp only [recvFrame, if_neg h]

theorem macReceive_rxif (bytes : List UInt8) (len : UInt16) (s : EthMac) :
    (macReceive bytes len s).eir.rxif = true := by
  simp [macReceive, Eir.raise, Eir.rx]

/-!
# Arrivals

An arrival of any reported length, served by the handler at once.  The handler
does to the ring what its receive branch does, so each field follows from the
lemma on that branch.
-/

section Arrival

variable (bytes : List UInt8) (len : UInt16) (s : EthMac)

theorem arrival_sameRing :
    SameRing (recvFrame (macReceive bytes len s))
      (ethIRQHandler (macReceive bytes len s)) :=
  ethIRQHandler_sameRing_recvFrame _ (macReceive_rxif bytes len s)

theorem arrival_mem :
    (ethIRQHandler (macReceive bytes len s)).mem =
      writeBytes s.mem (ramBase + s.erxst) bytes := by
  rw [(arrival_sameRing bytes len s).mem, recvFrame_mem]
  rfl

theorem arrival_readIndex :
    (ethIRQHandler (macReceive bytes len s)).para.readIndex = s.para.readIndex := by
  rw [(arrival_sameRing bytes len s).para, recvFrame_readIndex]
  rfl

theorem arrival_rxBufLen :
    (ethIRQHandler (macReceive bytes len s)).para.rxBufLen =
      Function.update s.para.rxBufLen s.para.recvIndex len := by
  rw [(arrival_sameRing bytes len s).para, recvFrame_rxBufLen]
  rfl

theorem arrival_remainCout :
    (ethIRQHandler (macReceive bytes len s)).para.remainCout =
      if s.para.remainCout < rxQueueNum - 1 then s.para.remainCout + 1
      else s.para.remainCout := by
  rw [(arrival_sameRing bytes len s).para, recvFrame_remainCout]
  rfl

theorem arrival_recvIndex {s : EthMac} (hrecv : s.para.recvIndex < rxQueueNum) :
    (ethIRQHandler (macReceive bytes len s)).para.recvIndex =
      if s.para.remainCout < rxQueueNum - 1 then
        ringSlot rxQueueNum s.para.recvIndex 1
      else s.para.recvIndex := by
  have hsame : (macReceive bytes len s).para.recvIndex < rxQueueNum := hrecv
  rw [(arrival_sameRing bytes len s).para, recvFrame_recvIndex hsame]
  rfl

/-- The slot addresses and the DMA start register keep naming the slots. -/
theorem arrival_addresses {L : EthLayout} {s : EthMac}
    (haddr : forall i, i < rxQueueNum -> s.para.rxBufAddr i = L.slotAddr i)
    (hrecv : s.para.recvIndex < rxQueueNum)
    (herxst : s.erxst = low16 (L.slotAddr s.para.recvIndex)) :
    let t := ethIRQHandler (macReceive bytes len s)
    (forall i, i < rxQueueNum -> t.para.rxBufAddr i = L.slotAddr i) ∧
      t.erxst = low16 (L.slotAddr t.para.recvIndex) := by
  intro t
  have hsame := arrival_sameRing bytes len s
  constructor
  · rw [hsame.para, recvFrame_rxBufAddr]
    exact haddr
  · rw [hsame.erxst, hsame.para]
    exact recvFrame_erxst (s := macReceive bytes len s) haddr hrecv herxst

end Arrival

/-- An arrival keeps the counters in agreement, whether it is accepted or dropped. -/
theorem arrival_rxIndices {L : EthLayout} {s : EthMac} (h : RxIndices L s)
    (bytes : List UInt8) (len : UInt16) :
    RxIndices L (ethIRQHandler (macReceive bytes len s)) := by
  rcases arrival_addresses bytes len h.addr h.recv_lt h.erxst_eq with
    ⟨haddr, herxst⟩
  refine ⟨haddr, ?_, ?_, ?_, herxst⟩
  · rw [arrival_readIndex]
    exact h.read_lt
  · have hlt := h.remain_lt
    rw [arrival_remainCout]
    split <;> lia
  · rw [arrival_recvIndex bytes len h.recv_lt, arrival_remainCout, arrival_readIndex]
    split
    · rw [h.recv_eq, ringSlot_add]
    · exact h.recv_eq

/-!
# Calls of `ETHRecX`
-/

theorem ethRecX_empty (buf : List UInt8) (size : UInt16) {s : EthMac}
    (h : s.para.remainCout = 0) :
    ethRecX buf size s = { recvLen := 0, buf := buf, mac := s } := by
  simp [ethRecX, h]

@[simp] theorem ethRecX_mem (buf : List UInt8) (size : UInt16) (s : EthMac) :
    (ethRecX buf size s).mac.mem = s.mem := by
  simp only [ethRecX]
  split <;> rfl

@[simp] theorem ethRecX_erxst (buf : List UInt8) (size : UInt16) (s : EthMac) :
    (ethRecX buf size s).mac.erxst = s.erxst := by
  simp only [ethRecX]
  split <;> rfl

@[simp] theorem ethRecX_recvIndex (buf : List UInt8) (size : UInt16)
    (s : EthMac) : (ethRecX buf size s).mac.para.recvIndex = s.para.recvIndex := by
  simp only [ethRecX]
  split <;> rfl

@[simp] theorem ethRecX_rxBufLen (buf : List UInt8) (size : UInt16)
    (s : EthMac) : (ethRecX buf size s).mac.para.rxBufLen = s.para.rxBufLen := by
  simp only [ethRecX]
  split <;> rfl

@[simp] theorem ethRecX_rxBufAddr (buf : List UInt8) (size : UInt16)
    (s : EthMac) : (ethRecX buf size s).mac.para.rxBufAddr = s.para.rxBufAddr := by
  simp only [ethRecX]
  split <;> rfl

theorem toNat_ite_lt (a b : UInt16) :
    (if a < b then a else b).toNat = min a.toNat b.toNat := by
  by_cases h : a < b
  · have hlt : a.toNat < b.toNat := h
    rw [if_pos h, Nat.min_eq_left (Nat.le_of_lt hlt)]
  · have hle : b.toNat <= a.toNat := Nat.le_of_not_lt h
    rw [if_neg h, Nat.min_eq_right hle]

/-- On a nonempty ring the head entry is copied out and given up. -/
theorem ethRecX_nonempty {L : EthLayout} {s : EthMac} (h : RxIndices L s)
    (hne : s.para.remainCout ≠ 0) (buf : List UInt8) (size : UInt16) :
    RxIndices L (ethRecX buf size s).mac ∧
      (ethRecX buf size s).mac.para.remainCout + 1 = s.para.remainCout ∧
      (ethRecX buf size s).mac.para.readIndex =
        ringSlot rxQueueNum s.para.readIndex 1 ∧
      (ethRecX buf size s).recvLen.toNat =
        min (s.para.rxBufLen s.para.readIndex).toNat size.toNat ∧
      (ethRecX buf size s).buf =
        overwrite buf
          (readBytes s.mem (L.slotAddr s.para.readIndex)
            (ethRecX buf size s).recvLen.toNat) := by
  have hremain : (ethRecX buf size s).mac.para.remainCout + 1 =
      s.para.remainCout := by
    have hcount := h.remain_lt
    simp only [ethRecX, if_neg hne]
    unfold rxQueueNum at hcount
    lia
  have hslot : (ethRecX buf size s).mac.para.readIndex =
      ringSlot rxQueueNum s.para.readIndex 1 := by
    rw [← nextIndex_eq h.read_lt]
    simp only [ethRecX, if_neg hne]
  have hlen : (ethRecX buf size s).recvLen =
      if s.para.rxBufLen s.para.readIndex < size then
        s.para.rxBufLen s.para.readIndex
      else size := by
    simp only [ethRecX, if_neg hne]
  have hbuf : (ethRecX buf size s).buf =
      overwrite buf
        (readBytes s.mem (s.para.rxBufAddr s.para.readIndex)
          (ethRecX buf size s).recvLen.toNat) := by
    rw [hlen]
    simp only [ethRecX, if_neg hne]
  refine ⟨?_, hremain, hslot, ?_, ?_⟩
  · refine
      { addr := by rw [ethRecX_rxBufAddr]; exact h.addr
        read_lt := by rw [hslot]; exact ringSlot_lt rxQueueNum_pos _ _
        remain_lt := Nat.lt_of_le_of_lt (Nat.le.intro hremain) h.remain_lt
        recv_eq := ?_
        erxst_eq := by rw [ethRecX_erxst, ethRecX_recvIndex]; exact h.erxst_eq }
    rw [ethRecX_recvIndex, hslot, ringSlot_add, h.recv_eq, ← hremain,
      Nat.add_comm]
  · rw [hlen, toNat_ite_lt]
  · rw [hbuf, h.addr _ h.read_lt]

end Net
end Ch579HttpLed
