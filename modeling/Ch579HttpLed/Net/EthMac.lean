import Mathlib.Logic.Function.Basic
import Ch579HttpLed.Foundation.Memory
import Ch579HttpLed.Foundation.Ring
import Ch579HttpLed.Foundation.Runs

/-!
# The Ethernet MAC driver

Model of `Net/src/eth_mac.c`: the receive ring `ETHRxMagPara` with its DMA
slots, the transmit buffer with its completion flag, and the interrupt handler
that serves both.  The registers of the MAC that the driver reads or writes are
fields of the same state, because the MAC and the driver meet only there.

The handler is a list of statements chosen by its single read of `R8_ETH_EIR`.
Running the list at once gives the handler as a function; running it one
statement at a time lets hardware events fall in between.
-/

namespace Ch579HttpLed
namespace Net

open Foundation

/-!
# Sizes and placement

The constants are `RX_QUEUE_NUM`, `RX_BUF_SIZE` and `phy_tx_buffer_len_macro`
of `eth_mac.h` and the RAM region of the linker script.  The linker places the
two DMA buffers somewhere in that region; the start registers of the DMA keep
only the low sixteen bits of an address.
-/

def rxQueueNum : Nat := 3

def rxBufSize : Nat := 1064

def phyTxBufferLenMacro : Nat := 1500 + 2 + 6 + 6

def ramBase : Nat := 0x20000000

def ramSize : Nat := 0x8000

/-- Addresses the linker gave to the DMA buffers `MACRxBuf` and `phy_tx_buf`. -/
structure EthLayout where
  macRxBuf : Nat
  phyTxBuf : Nat
  ramBase_le_macRxBuf : ramBase <= macRxBuf
  macRxBuf_end_le : macRxBuf + rxQueueNum * rxBufSize <= ramBase + ramSize

/-- Both buffers at the start of RAM. -/
def EthLayout.lowest : EthLayout where
  macRxBuf := ramBase
  phyTxBuf := ramBase + rxQueueNum * rxBufSize
  ramBase_le_macRxBuf := Nat.le_refl _
  macRxBuf_end_le := by decide

def EthLayout.slotAddr (L : EthLayout) (i : Nat) : Nat :=
  L.macRxBuf + i * rxBufSize

def low16 (addr : Nat) : Nat :=
  addr % 65536

/-!
# Registers and state

`Eir` holds the five flags of `R8_ETH_EIR` that the driver knows and serves as
a mask for them as well.  Writing a mask to the register clears the flags it
names; the MAC raises flags.
-/

structure Eir where
  rxif : Bool
  linkif : Bool
  txif : Bool
  txerif : Bool
  rxerif : Bool
deriving DecidableEq, Repr

namespace Eir

def none : Eir := ⟨false, false, false, false, false⟩

def all : Eir := ⟨true, true, true, true, true⟩

def rx : Eir := { none with rxif := true }

def link : Eir := { none with linkif := true }

def tx : Eir := { none with txif := true }

def err : Eir := { none with txerif := true, rxerif := true }

def ack (r mask : Eir) : Eir where
  rxif := r.rxif && !mask.rxif
  linkif := r.linkif && !mask.linkif
  txif := r.txif && !mask.txif
  txerif := r.txerif && !mask.txerif
  rxerif := r.rxerif && !mask.rxerif

def raise (r mask : Eir) : Eir where
  rxif := r.rxif || mask.rxif
  linkif := r.linkif || mask.linkif
  txif := r.txif || mask.txif
  txerif := r.txerif || mask.txerif
  rxerif := r.rxerif || mask.rxerif

def any (r : Eir) : Bool :=
  r.rxif || r.linkif || r.txif || r.txerif || r.rxerif

end Eir

/-- `RXBUFST`, the management record of the receive ring. -/
structure RxBufSt where
  recvEn : Nat
  recvIndex : Nat
  readIndex : Nat
  remainCout : Nat
  rxBufStau : Nat -> Nat
  rxBufLen : Nat -> UInt16
  rxBufAddr : Nat -> Nat

/-- Driver variables of `eth_mac.c` and the MAC registers they meet. -/
structure EthMac where
  para : RxBufSt          -- ETHRxMagPara
  mem : Nat -> UInt8      -- RAM as the receive DMA and memcpy see it
  erxst : Nat             -- R16_ETH_ERXST
  erxln : UInt16          -- R16_ETH_ERXLN
  eir : Eir               -- R8_ETH_EIR
  eie : Eir               -- the flag bits of R8_ETH_EIE
  phyTxFinished : Bool
  phyTxBuf : List UInt8
  etxst : Nat             -- R16_ETH_ETXST
  etxln : UInt16          -- R16_ETH_ETXLN
  txrts : Bool            -- RB_ETH_ECON1_TXRTS, cleared by the MAC when it is done

/-- Driver memory before any initialisation ran. -/
def EthMac.blank : EthMac where
  para := ⟨0, 0, 0, 0, fun _ => 0, fun _ => 0, fun _ => 0⟩
  mem := fun _ => 0
  erxst := 0
  erxln := 0
  eir := Eir.none
  eie := Eir.none
  phyTxFinished := true
  phyTxBuf := List.replicate phyTxBufferLenMacro 0
  etxst := 0
  etxln := 0
  txrts := false

/-!
# Initialisation

`ETHParaInitX` clears the slots and the ring record and fills in the slot
addresses.  `ETHInitX` is followed as far as the modelled registers go: its
pulse of `TXRST` resets the transmitter, so no transmission is in flight after
it.  `low_level_init` calls both.
-/

def ethParaInitX (L : EthLayout) (s : EthMac) : EthMac :=
  { s with
    mem := writeBytes s.mem L.macRxBuf (List.replicate (rxQueueNum * rxBufSize) 0)
    para :=
      { recvEn := 0
        recvIndex := 0
        readIndex := 0
        remainCout := 0
        rxBufStau := fun _ => 0
        rxBufLen := fun _ => 0
        rxBufAddr := fun i => if i < rxQueueNum then L.slotAddr i else 0 } }

def phyTxInit (L : EthLayout) (s : EthMac) : EthMac :=
  { s with
    phyTxFinished := true
    etxst := low16 L.phyTxBuf }

def ethInitX (L : EthLayout) (s : EthMac) : EthMac :=
  let s := { s with eie := Eir.all }
  let s := { s with eir := s.eir.ack Eir.all }
  let s := { s with txrts := false }
  let s := { s with erxst := low16 (s.para.rxBufAddr s.para.recvIndex) }
  phyTxInit L s

def ethStart (L : EthLayout) (s : EthMac) : EthMac :=
  ethInitX L (ethParaInitX L s)

/-!
# Receiving

Both ring indices are bytes that are incremented and then reset when they reach
the number of slots.  `recvFrame` is the receive branch of `ETH_IRQHandler` up
to its acknowledge.  On a full ring it only rewrites length and status of the
slot that the MAC has just overwritten.
-/

def nextIndex (index : Nat) : Nat :=
  let index := (index + 1) % 256
  if rxQueueNum <= index then 0 else index

def recvFrame (s : EthMac) : EthMac :=
  let recLen := s.erxln
  let p := s.para
  if p.remainCout < rxQueueNum - 1 then
    let p := { p with rxBufStau := Function.update p.rxBufStau p.recvIndex 1 }
    let p := { p with rxBufLen := Function.update p.rxBufLen p.recvIndex recLen }
    let p := { p with remainCout := (p.remainCout + 1) % 256 }
    let p := { p with recvIndex := nextIndex p.recvIndex }
    { s with
      para := p
      erxst := low16 (p.rxBufAddr p.recvIndex) }
  else
    let p := { p with rxBufStau := Function.update p.rxBufStau p.recvIndex 1 }
    let p := { p with rxBufLen := Function.update p.rxBufLen p.recvIndex recLen }
    { s with para := p }

/-- Return value, caller's buffer and driver state after a call of `ETHRecX`. -/
structure EthRecXResult where
  recvLen : UInt16
  buf : List UInt8
  mac : EthMac

def ethRecX (pRecvBuf : List UInt8) (recvBufSize : UInt16) (s : EthMac) :
    EthRecXResult :=
  if s.para.remainCout = 0 then
    { recvLen := 0, buf := pRecvBuf, mac := s }
  else
    let p := s.para
    let pRxBuf := p.rxBufAddr p.readIndex
    let recvLen :=
      if p.rxBufLen p.readIndex < recvBufSize then p.rxBufLen p.readIndex
      else recvBufSize
    let pData := overwrite pRecvBuf (readBytes s.mem pRxBuf recvLen.toNat)
    let p := { p with rxBufStau := Function.update p.rxBufStau p.readIndex 0 }
    let p := { p with readIndex := nextIndex p.readIndex }
    let p := { p with remainCout := (p.remainCout + 255) % 256 }
    { recvLen := recvLen, buf := pData, mac := { s with para := p } }

/-- `GetRecvMacDataLen`: zero for an empty ring and for an entry of length zero. -/
def getRecvMacDataLen (s : EthMac) : UInt16 :=
  if s.para.remainCout = 0 then 0 else s.para.rxBufLen s.para.readIndex

/-!
# The interrupt handler

`IrqStmt` lists the statements of `ETH_IRQHandler` between which a hardware
event can fall; `errDeal` reads `R8_ETH_ESTAT` and prints it.  The snapshot
`eth_irq_flag` selects the statements that run.
-/

inductive IrqStmt where
  | recvFrame
  | ackRx
  | ackLink
  | setTxFinished
  | ackTx
  | errDeal
  | ackErr
deriving DecidableEq, Repr

def ethIRQHandlerStmts (ethIrqFlag : Eir) : List IrqStmt :=
  (if ethIrqFlag.rxif then [.recvFrame, .ackRx] else []) ++
  (if ethIrqFlag.linkif then [.ackLink] else []) ++
  (if ethIrqFlag.txif then [.setTxFinished, .ackTx] else []) ++
  (if ethIrqFlag.txerif || ethIrqFlag.rxerif then [.errDeal, .ackErr] else [])

def execIrqStmt (s : EthMac) : IrqStmt -> EthMac
  | .recvFrame => recvFrame s
  | .ackRx => { s with eir := s.eir.ack Eir.rx }
  | .ackLink => { s with eir := s.eir.ack Eir.link }
  | .setTxFinished => { s with phyTxFinished := true }
  | .ackTx => { s with eir := s.eir.ack Eir.tx }
  | .errDeal => s
  | .ackErr => { s with eir := s.eir.ack Eir.err }

/-- `ETH_IRQHandler` run to completion with no hardware event in between. -/
def ethIRQHandler (s : EthMac) : EthMac :=
  run execIrqStmt s (ethIRQHandlerStmts s.eir)

/-!
# Frames arriving from the MAC

The MAC stores the bytes where `R16_ETH_ERXST` points, reports a length in
`R16_ETH_ERXLN` and raises RXIF.  `R16_ETH_MAMXFL` is set to `MAC_MAX_LEN`,
which keeps a frame within one slot.
-/

def macReceive (bytes : List UInt8) (len : UInt16) (s : EthMac) : EthMac :=
  { s with
    mem := writeBytes s.mem (ramBase + s.erxst) bytes
    erxln := len
    eir := s.eir.raise Eir.rx }

structure Frame where
  bytes : List UInt8
  length_le : bytes.length <= rxBufSize
deriving DecidableEq, Repr

def Frame.len (f : Frame) : UInt16 :=
  UInt16.ofNat f.bytes.length

/-- A frame arrives and its interrupt is served. -/
def frameArrival (f : Frame) (s : EthMac) : EthMac :=
  ethIRQHandler (macReceive f.bytes f.len s)

/-!
# What the handler does to the receive ring

The acknowledge statements and the transmit branch leave the ring alone, so a
handler run with RXIF in its snapshot is exactly one receive branch for it.
-/

structure SameRing (s t : EthMac) : Prop where
  para : t.para = s.para
  mem : t.mem = s.mem
  erxst : t.erxst = s.erxst

theorem execIrqStmt_sameRing (s : EthMac) {stmt : IrqStmt}
    (h : stmt ≠ IrqStmt.recvFrame) : SameRing s (execIrqStmt s stmt) := by
  cases stmt with
  | recvFrame => exact absurd rfl h
  | ackRx => exact ⟨rfl, rfl, rfl⟩
  | ackLink => exact ⟨rfl, rfl, rfl⟩
  | setTxFinished => exact ⟨rfl, rfl, rfl⟩
  | ackTx => exact ⟨rfl, rfl, rfl⟩
  | errDeal => exact ⟨rfl, rfl, rfl⟩
  | ackErr => exact ⟨rfl, rfl, rfl⟩

theorem run_execIrqStmt_sameRing (s : EthMac) (stmts : List IrqStmt)
    (h : forall stmt, stmt ∈ stmts -> stmt ≠ IrqStmt.recvFrame) :
    SameRing s (run execIrqStmt s stmts) := by
  induction stmts generalizing s with
  | nil =>
      exact ⟨rfl, rfl, rfl⟩
  | cons stmt rest ih =>
      have hstep := execIrqStmt_sameRing s (h stmt (by simp))
      have hrest := ih (execIrqStmt s stmt)
        (fun stmt' hmem => h stmt' (List.mem_cons_of_mem _ hmem))
      exact ⟨hrest.para.trans hstep.para, hrest.mem.trans hstep.mem,
        hrest.erxst.trans hstep.erxst⟩

/-- With RXIF pending, the handler treats the ring as its receive branch does. -/
theorem ethIRQHandler_sameRing_recvFrame (s : EthMac) (h : s.eir.rxif = true) :
    SameRing (recvFrame s) (ethIRQHandler s) := by
  unfold ethIRQHandler ethIRQHandlerStmts
  rw [h]
  apply run_execIrqStmt_sameRing
  intro stmt hmem hstmt
  subst hstmt
  cases s.eir.linkif <;> cases s.eir.txif <;>
    cases (s.eir.txerif || s.eir.rxerif) <;> simp at hmem

end Net
end Ch579HttpLed
