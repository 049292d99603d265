import Ch579HttpLed.Net.InputChain

/-!
# Progress of the receive path

`GetRecvMacDataLen` answers zero for an empty ring and for a head entry of
length zero alike, and `low_level_input` takes nothing from the ring when the
answer is zero.  The handler stores whatever length the MAC reports.  The module
shows that a head entry is removed exactly if its stored length is not zero, and
that an entry of length zero stays at the head for good.
-/

namespace Ch579HttpLed
namespace Net

open Driver Foundation

/-!
# Runs of the handler and of `low_level_input`
-/

inductive InputOp where
  | irq (bytes : List UInt8) (len : UInt16)
  | input (pbufAlloc : UInt16 -> Option PbufChain)

def inputStep (s : EthIf) : InputOp -> EthIf
  | .irq bytes len => { s with mac := ethIRQHandler (macReceive bytes len s.mac) }
  | .input pbufAlloc => (lowLevelInput pbufAlloc s).2

def inputStart (L : EthLayout) (mac : EthMac) (gpio : GpioB) (ledCount : UInt8) :
    EthIf :=
  ⟨ethStart L mac, gpio, ledCount⟩

/-- The handler runs of the event store a length other than zero. -/
def StoresLength : InputOp -> Prop
  | .irq _ len => len ≠ 0
  | .input _ => True

/-- Stored length of the head entry. -/
def headLen (s : EthIf) : UInt16 :=
  s.mac.para.rxBufLen s.mac.para.readIndex

/-- Between `s` and `t` the head entry left the ring, and `ReadIndex` moved with it. -/
def RemovesHead (s t : EthIf) : Prop :=
  t.mac.para.remainCout < s.mac.para.remainCout ∧
    t.mac.para.readIndex =
      ringSlot rxQueueNum s.mac.para.readIndex
        (s.mac.para.remainCout - t.mac.para.remainCout)

/-- A call either leaves the driver as it was or runs the copy loop over a chain. -/
theorem lowLevelInput_mac_cases (pbufAlloc : UInt16 -> Option PbufChain)
    (s : EthIf) :
    (lowLevelInput pbufAlloc s).2.mac = s.mac ∨
      exists p : PbufChain,
        (lowLevelInput pbufAlloc s).2.mac = (fillChain s.mac p.payloads).2 := by
  by_cases hzero : getRecvMacDataLen s.mac = 0
  · apply Or.inl
    rw [lowLevelInput_of_len_eq_zero pbufAlloc hzero]
  · cases halloc : pbufAlloc (getRecvMacDataLen s.mac) with
    | none => exact Or.inl (lowLevelInput_of_no_alloc halloc)
    | some p => exact Or.inr ⟨p, (lowLevelInput_of_alloc hzero halloc).right⟩

theorem inputStep_rxIndices {L : EthLayout} (s : EthIf) (op : InputOp)
    (h : RxIndices L s.mac) : RxIndices L (inputStep s op).mac := by
  cases op with
  | irq bytes len => exact arrival_rxIndices h bytes len
  | input pbufAlloc =>
      show RxIndices L (lowLevelInput pbufAlloc s).2.mac
      rcases lowLevelInput_mac_cases pbufAlloc s with hsame | ⟨p, hfill⟩
      · rw [hsame]
        exact h
      · rw [hfill]
        exact (fillChain_counts h p.payloads).left

theorem inputRun_rxIndices (L : EthLayout) (mac : EthMac) (gpio : GpioB)
    (ledCount : UInt8) (ops : List InputOp) :
    RxIndices L (run inputStep (inputStart L mac gpio ledCount) ops).mac := by
  have hstep : forall (s : EthIf) (op : InputOp), RxIndices L s.mac ->
      RxIndices L (inputStep s op).mac := inputStep_rxIndices
  have hstart : RxIndices L (inputStart L mac gpio ledCount).mac :=
    ethStart_rxIndices L mac
  exact run_invariant hstep hstart ops

/-!
# One call
-/

theorem getRecvMacDataLen_eq_headLen {s : EthIf} (h : s.mac.para.remainCout ≠ 0) :
    getRecvMacDataLen s.mac = headLen s :=
  if_neg h

theorem removesHead_iff_headLen_ne_zero {L : EthLayout} {s : EthIf}
    (h : RxIndices L s.mac) (hne : s.mac.para.remainCout ≠ 0)
    {pbufAlloc : UInt16 -> Option PbufChain} {p : PbufChain}
    (halloc : pbufAlloc (getRecvMacDataLen s.mac) = some p) :
    RemovesHead s (lowLevelInput pbufAlloc s).2 <-> headLen s ≠ 0 := by
  constructor
  · intro hremoves hzero
    rw [← getRecvMacDataLen_eq_headLen hne] at hzero
    have hlt := hremoves.left
    rw [lowLevelInput_of_len_eq_zero pbufAlloc hzero] at hlt
    exact Nat.lt_irrefl _ hlt
  · intro hlen
    rw [← getRecvMacDataLen_eq_headLen hne] at hlen
    rcases fillChain_counts h p.payloads with ⟨-, hcount, hslot⟩
    have hlong : 0 < p.payloads.length := List.length_pos_of_ne_nil p.nonempty
    unfold RemovesHead
    rw [(lowLevelInput_of_alloc hlen halloc).right, hcount, hslot]
    constructor
    · lia
    · congr 1
      lia

/-!
# Arrivals and the head entry

The slot an arrival writes lies behind the pending entries.
-/

section Arrival

variable {L : EthLayout} {s : EthIf}

theorem inputStep_irq_mac (bytes : List UInt8) (len : UInt16) :
    (inputStep s (.irq bytes len)).mac = ethIRQHandler (macReceive bytes len s.mac) := rfl

/-- An arrival leaves the stored lengths of pending entries alone. -/
theorem arrival_rxBufLen_pending (h : RxIndices L s.mac) (bytes : List UInt8)
    (len : UInt16) {k : Nat} (hk : k < s.mac.para.remainCout) :
    (ethIRQHandler (macReceive bytes len s.mac)).para.rxBufLen
        (ringSlot rxQueueNum s.mac.para.readIndex k) =
      s.mac.para.rxBufLen (ringSlot rxQueueNum s.mac.para.readIndex k) := by
  rw [arrival_rxBufLen, h.recv_eq]
  exact Function.update_of_ne (ringSlot_ne hk h.remain_lt) _ _

end Arrival

/-!
# Runs that never store a length of zero
-/

/-- Every pending entry has a stored length other than zero. -/
def PendingLens (s : EthIf) : Prop :=
  forall k, k < s.mac.para.remainCout ->
    s.mac.para.rxBufLen (ringSlot rxQueueNum s.mac.para.readIndex k) ≠ 0

theorem irq_pendingLens {L : EthLayout} {s : EthIf} (h : RxIndices L s.mac)
    (hlens : PendingLens s) (bytes : List UInt8) {len : UInt16} (hlen : len ≠ 0) :
    PendingLens (inputStep s (.irq bytes len)) := by
  intro k hk
  rw [inputStep_irq_mac, arrival_readIndex]
  rw [inputStep_irq_mac, arrival_remainCout] at hk
  by_cases hold : k < s.mac.para.remainCout
  · rw [arrival_rxBufLen_pending h bytes len hold]
    exact hlens k hold
  · have hkeq : k = s.mac.para.remainCout := by
      split at hk <;> lia
    rw [arrival_rxBufLen, hkeq, ← h.recv_eq, Function.update_self]
    exact hlen

theorem input_pendingLens {L : EthLayout} {s : EthIf} (h : RxIndices L s.mac)
    (hlens : PendingLens s) (pbufAlloc : UInt16 -> Option PbufChain) :
    PendingLens (inputStep s (.input pbufAlloc)) := by
  unfold PendingLens inputStep
  rcases lowLevelInput_mac_cases pbufAlloc s with hsame | ⟨p, hfill⟩
  · rw [hsame]
    exact hlens
  · rcases fillChain_counts h p.payloads with ⟨-, hcount, hslot⟩
    rw [hfill, fillChain_rxBufLen, hcount, hslot]
    intro k hk
    rw [ringSlot_add]
    exact hlens _ (by lia)

theorem inputRun_pendingLens (L : EthLayout) (mac : EthMac) (gpio : GpioB)
    (ledCount : UInt8) {ops : List InputOp}
    (hops : forall op, op ∈ ops -> StoresLength op) :
    PendingLens (run inputStep (inputStart L mac gpio ledCount) ops) := by
  have hstep : forall s op, RxIndices L s.mac ∧ PendingLens s -> StoresLength op ->
      RxIndices L (inputStep s op).mac ∧ PendingLens (inputStep s op) := by
    intro s op h hop
    refine ⟨inputStep_rxIndices s op h.left, ?_⟩
    cases op with
    | irq bytes len => exact irq_pendingLens h.left h.right bytes hop
    | input pbufAlloc => exact input_pendingLens h.left h.right pbufAlloc
  have hstart : RxIndices L (inputStart L mac gpio ledCount).mac ∧
      PendingLens (inputStart L mac gpio ledCount) := by
    refine ⟨ethStart_rxIndices L mac, ?_⟩
    intro k hk
    exact absurd hk (Nat.not_lt_zero k)
  exact (run_invariant_of_allSteps hstep hstart
    (allSteps_of_forall_mem _ hops)).right

/-!
# An entry of length zero
-/

/-- Slot `i` is the head of a nonempty ring and has the stored length zero. -/
def BlockedAt (i : Nat) (s : EthIf) : Prop :=
  s.mac.para.readIndex = i ∧ s.mac.para.remainCout ≠ 0 ∧ headLen s = 0

theorem inputStep_blockedAt {L : EthLayout} {i : Nat} {s : EthIf}
    (h : RxIndices L s.mac) (hblocked : BlockedAt i s) (op : InputOp) :
    BlockedAt i (inputStep s op) := by
  rcases hblocked with ⟨hread, hne, hzero⟩
  cases op with
  | irq bytes len =>
      have hhead := arrival_rxBufLen_pending h bytes len (Nat.pos_of_ne_zero hne)
      rw [ringSlot_zero h.read_lt] at hhead
      refine ⟨?_, ?_, ?_⟩
      · rw [inputStep_irq_mac, arrival_readIndex]
        exact hread
      · rw [inputStep_irq_mac, arrival_remainCout]
        split <;> lia
      · unfold headLen
        rw [inputStep_irq_mac, arrival_readIndex, hhead]
        exact hzero
  | input pbufAlloc =>
      have hlen : getRecvMacDataLen s.mac = 0 := by
        rw [getRecvMacDataLen_eq_headLen hne]
        exact hzero
      show BlockedAt i (lowLevelInput pbufAlloc s).2
      rw [lowLevelInput_of_len_eq_zero pbufAlloc hlen]
      exact ⟨hread, hne, hzero⟩

/-- Nothing removes an entry of length zero from the head. -/
theorem inputRun_blockedAt {L : EthLayout} {i : Nat} {s : EthIf}
    (h : RxIndices L s.mac) (hblocked : BlockedAt i s) (later : List InputOp) :
    BlockedAt i (run inputStep s later) := by
  have hstep : forall t op, RxIndices L t.mac ∧ BlockedAt i t ->
      RxIndices L (inputStep t op).mac ∧ BlockedAt i (inputStep t op) := by
    intro t op ht
    exact ⟨inputStep_rxIndices t op ht.left, inputStep_blockedAt ht.left ht.right op⟩
  exact (run_invariant hstep ⟨h, hblocked⟩ later).right

/--
In every reachable state with a pending entry, a call whose allocation succeeds
removes the head exactly if its stored length is not zero.  Runs that store no
length of zero always progress; an entry of length zero blocks every later run.
-/
theorem lowLevelInput_removesHead_iff (L : EthLayout) (mac : EthMac) (gpio : GpioB)
    (ledCount : UInt8) (ops : List InputOp)
    (hne : (run inputStep (inputStart L mac gpio ledCount) ops).mac.para.remainCout ≠ 0) :
    let s := run inputStep (inputStart L mac gpio ledCount) ops
    (forall pbufAlloc (p : PbufChain), pbufAlloc (getRecvMacDataLen s.mac) = some p ->
        (RemovesHead s (lowLevelInput pbufAlloc s).2 <-> headLen s ≠ 0)) ∧
      ((forall op, op ∈ ops -> StoresLength op) -> headLen s ≠ 0) ∧
      (headLen s = 0 -> forall later,
        BlockedAt s.mac.para.readIndex (run inputStep s later)) := by
  intro s
  have hindices : RxIndices L s.mac := inputRun_rxIndices L mac gpio ledCount ops
  refine ⟨?_, ?_, ?_⟩
  · intro pbufAlloc p halloc
    exact removesHead_iff_headLen_ne_zero hindices hne halloc
  · intro hops
    have hhead := inputRun_pendingLens L mac gpio ledCount hops 0
      (Nat.pos_of_ne_zero hne)
    rw [ringSlot_zero hindices.read_lt] at hhead
    exact hhead
  · intro hzero later
    exact inputRun_blockedAt hindices ⟨rfl, hne, hzero⟩ later

theorem lowLevelInput_removesHead_iff_at_sample :
    let s := run inputStep (inputStart EthLayout.lowest EthMac.blank GpioB.reset 0)
      [.irq [] 60]
    let p := constantChain 0 [60] (by decide) (by decide)
    s.mac.para.remainCout ≠ 0 ∧
      (RemovesHead s (lowLevelInput (fun _ => some p) s).2 <-> headLen s ≠ 0) :=
  ⟨by decide, (lowLevelInput_removesHead_iff EthLayout.lowest EthMac.blank GpioB.reset
    0 [.irq [] 60] (by decide)).left _ _ rfl⟩

/-- A reported length of zero leaves an entry that a call with memory at hand does not remove. -/
theorem lowLevelInput_keeps_zero_length_head :
    let s := run inputStep (inputStart EthLayout.lowest EthMac.blank GpioB.reset 0)
      [.irq [] 0]
    let p := constantChain 0 [60] (by decide) (by decide)
    0 < s.mac.para.remainCout ∧
      (lowLevelInput (fun _ => some p) s).2.mac.para.remainCout =
        s.mac.para.remainCout ∧
      ¬ RemovesHead s (lowLevelInput (fun _ => some p) s).2 := by
  intro s p
  have hsame : (lowLevelInput (fun _ => some p) s).2.mac.para.remainCout =
      s.mac.para.remainCout := rfl
  refine ⟨by decide, hsame, ?_⟩
  intro hremoves
  exact absurd hremoves.left (by rw [hsame]; exact Nat.lt_irrefl _)

end Net
end Ch579HttpLed
