import Ch579HttpLed.Net.Pbuf
import Ch579HttpLed.Net.RxFifo
import Ch579HttpLed.Net.StatusLed

/-!
# Receiving a frame into a pbuf chain

Model of `low_level_input` in `Net/src/ethernetif.c`.  The call asks the ring
for the length of its head entry, toggles the amber LED, allocates a chain and
calls `ETHRecX` once for every pbuf of the chain.  Each of those calls gives up
a ring entry, so the number of entries taken is the length of the chain and not
one.
-/

namespace Ch579HttpLed
namespace Net

open Driver Foundation

/-- What `low_level_input` reads and writes: the driver, port B and `led_count`. -/
structure EthIf where
  mac : EthMac
  gpio : GpioB
  ledCount : UInt8

/-!
# The copy loop
-/

def fillChain : EthMac -> List (List UInt8) -> List (List UInt8) × EthMac
  | s, [] => ([], s)
  | s, q :: next =>
      let r := ethRecX q (UInt16.ofNat q.length) s
      let filled := fillChain r.mac next
      (r.buf :: filled.1, filled.2)

theorem ethRecX_buf_length {q : List UInt8} (hq : q.length < 65536) (s : EthMac) :
    (ethRecX q (UInt16.ofNat q.length) s).buf.length = q.length := by
  have hsize : (UInt16.ofNat q.length).toNat = q.length := by
    rw [UInt16.toNat_ofNat']
    lia
  by_cases hzero : s.para.remainCout = 0
  · rw [ethRecX_empty _ _ hzero]
  · simp only [ethRecX, if_neg hzero, overwrite, List.length_append,
      readBytes_length, List.length_drop, toNat_ite_lt, hsize]
    lia

theorem fillChain_lens {ps : List (List UInt8)}
    (h : forall q, q ∈ ps -> q.length < 65536) (s : EthMac) :
    (fillChain s ps).1.map List.length = ps.map List.length := by
  induction ps generalizing s with
  | nil => rfl
  | cons q next ih =>
      have hnext := ih (fun q' hq' => h q' (List.mem_cons_of_mem _ hq'))
        (ethRecX q (UInt16.ofNat q.length) s).mac
      rw [fillChain, List.map_cons, List.map_cons, hnext,
        ethRecX_buf_length (h q (by simp))]

/-!
# The call
-/

/-- The amber LED follows every second of ten counted frames. -/
def countFrame (s : EthIf) : EthIf :=
  let s :=
    if s.ledCount % 2 = 0 then { s with gpio := ethAmberLedOn s.gpio }
    else { s with gpio := ethAmberLedOff s.gpio }
  let s := { s with ledCount := s.ledCount + 1 }
  if s.ledCount = 10 then { s with ledCount := 0 } else s

/-- The parameter is the outcome of `pbuf_alloc(PBUF_RAW, len, PBUF_POOL)`. -/
def lowLevelInput (pbufAlloc : UInt16 -> Option PbufChain) (s : EthIf) :
    Option PbufChain × EthIf :=
  let len := getRecvMacDataLen s.mac
  let s := if 0 < len then countFrame s else s
  if len = 0 then (none, s)
  else
    match pbufAlloc len with
    | none => (none, s)
    | some p =>
        (some (p.refill (fillChain s.mac p.payloads).1
            (fillChain_lens (fun _ hq => p.payload_length_lt hq) s.mac)),
          { s with mac := (fillChain s.mac p.payloads).2 })

@[simp] theorem countFrame_mac (s : EthIf) : (countFrame s).mac = s.mac := by
  simp only [countFrame]
  split <;> split <;> rfl

theorem lowLevelInput_of_len_eq_zero (pbufAlloc : UInt16 -> Option PbufChain)
    {s : EthIf} (h : getRecvMacDataLen s.mac = 0) :
    lowLevelInput pbufAlloc s = (none, s) := by
  simp [lowLevelInput, h]

/-- With a chain at hand the ring is read through the copy loop. -/
theorem lowLevelInput_of_alloc {s : EthIf} (h : getRecvMacDataLen s.mac ≠ 0)
    {pbufAlloc : UInt16 -> Option PbufChain} {p : PbufChain}
    (halloc : pbufAlloc (getRecvMacDataLen s.mac) = some p) :
    (lowLevelInput pbufAlloc s).1.map PbufChain.payloads =
        some (fillChain s.mac p.payloads).1 ∧
      (lowLevelInput pbufAlloc s).2.mac = (fillChain s.mac p.payloads).2 := by
  have hpos : 0 < getRecvMacDataLen s.mac := UInt16.pos_iff_ne_zero.mpr h
  simp [lowLevelInput, h, hpos, halloc, PbufChain.refill]

theorem lowLevelInput_of_no_alloc {s : EthIf}
    {pbufAlloc : UInt16 -> Option PbufChain}
    (halloc : pbufAlloc (getRecvMacDataLen s.mac) = none) :
    (lowLevelInput pbufAlloc s).2.mac = s.mac := by
  by_cases h : getRecvMacDataLen s.mac = 0
  · rw [lowLevelInput_of_len_eq_zero pbufAlloc h]
  · have hpos : 0 < getRecvMacDataLen s.mac := UInt16.pos_iff_ne_zero.mpr h
    simp [lowLevelInput, h, hpos, halloc]

/-- The LED and its counter change exactly when the head entry has a length. -/
theorem lowLevelInput_led (pbufAlloc : UInt16 -> Option PbufChain) (s : EthIf) :
    (lowLevelInput pbufAlloc s).2.gpio =
        (if getRecvMacDataLen s.mac = 0 then s.gpio else (countFrame s).gpio) ∧
      (lowLevelInput pbufAlloc s).2.ledCount =
        (if getRecvMacDataLen s.mac = 0 then s.ledCount else (countFrame s).ledCount) := by
  by_cases h : getRecvMacDataLen s.mac = 0
  · rw [lowLevelInput_of_len_eq_zero pbufAlloc h, if_pos h, if_pos h]
    exact ⟨rfl, rfl⟩
  · have hpos : 0 < getRecvMacDataLen s.mac := UInt16.pos_iff_ne_zero.mpr h
    cases halloc : pbufAlloc (getRecvMacDataLen s.mac) <;>
      simp [lowLevelInput, h, hpos, halloc]

/-!
# What the copy loop takes from the ring
-/

theorem fillChain_empty {s : EthMac} (h : s.para.remainCout = 0)
    (ps : List (List UInt8)) : fillChain s ps = (ps, s) := by
  induction ps with
  | nil => rfl
  | cons q next ih =>
      rw [fillChain, ethRecX_empty _ _ h]
      simp [ih]

theorem fillChain_rxBufLen (s : EthMac) (ps : List (List UInt8)) :
    (fillChain s ps).2.para.rxBufLen = s.para.rxBufLen := by
  induction ps generalizing s with
  | nil => rfl
  | cons q next ih =>
      rw [fillChain]
      exact (ih _).trans (ethRecX_rxBufLen _ _ s)

/-- The loop gives up one entry for each pbuf until the ring is empty. -/
theorem fillChain_counts {L : EthLayout} {s : EthMac} (h : RxIndices L s)
    (ps : List (List UInt8)) :
    RxIndices L (fillChain s ps).2 ∧
      (fillChain s ps).2.para.remainCout = s.para.remainCout - ps.length ∧
      (fillChain s ps).2.para.readIndex =
        ringSlot rxQueueNum s.para.readIndex (min s.para.remainCout ps.length) := by
  induction ps generalizing s with
  | nil =>
      refine ⟨h, rfl, ?_⟩
      rw [List.length_nil, Nat.min_zero, ringSlot_zero h.read_lt]
      rfl
  | cons q next ih =>
      by_cases hzero : s.para.remainCout = 0
      · rw [fillChain_empty hzero, hzero, Nat.zero_min, ringSlot_zero h.read_lt]
        exact ⟨h, by lia, rfl⟩
      · rcases ethRecX_nonempty h hzero q (UInt16.ofNat q.length) with
          ⟨hindices, hremain, hread, -, -⟩
        rcases ih hindices with ⟨hinv, hcount, hslot⟩
        refine ⟨hinv, ?_, ?_⟩
        · rw [fillChain, hcount, List.length_cons]
          lia
        · rw [fillChain, hslot, hread, ringSlot_add, List.length_cons]
          congr 1
          lia

end Net
end Ch579HttpLed
