import Ch579HttpLed.Net.EthMac
import Ch579HttpLed.Net.Pbuf

/-!
# Transmitting

`low_level_output` and the interrupt handler share one DMA buffer and the flag
`phy_tx_finished`.  This module puts the two programs and the MAC into one
machine whose events are single statements: a call or the next statement of the
foreground, the entry or the next statement of the handler, and flags raised by
the MAC.  The handler preempts the foreground at any point; flags can also
arrive while the handler runs.

The MAC transmits from the moment TXRTS is set until it raises TXIF or TXERIF,
and clears TXRTS then.
-/

namespace Ch579HttpLed
namespace Net

open Foundation

inductive ErrT where
  | ok
  | mem
deriving DecidableEq, Repr

/-!
# States

The positions of `low_level_output` are named after the statement that runs
next, the statements of `phy_send_tx_buf` included.
-/

inductive OutputPc where
  | outside
  | waitSent (p : PbufChain)
  | checkLen (p : PbufChain)
  | copyPartial (p : PbufChain)
  | setTxLen (p : PbufChain)
  | clearFinished (p : PbufChain)
  | setTxrts (p : PbufChain)
  | returnOk (p : PbufChain)

/-- What the transmitter shares with the MAC and the handler. -/
structure TxRegs where
  phyTxBuf : List UInt8
  etxln : UInt16
  txrts : Bool
  phyTxFinished : Bool

def txRegs (mac : EthMac) : TxRegs :=
  ⟨mac.phyTxBuf, mac.etxln, mac.txrts, mac.phyTxFinished⟩

/-- A frame as the MAC reads it: the length register and that many bytes. -/
def txFrame (mac : EthMac) : UInt16 × List UInt8 :=
  (mac.etxln, mac.phyTxBuf.take mac.etxln.toNat)

/--
The machine.  `handler` holds the statements that a running handler still has
to execute.  The last four fields only observe: whether the transmission
started last has raised TXIF, the frames handed to the MAC, the calls that
returned, and the registers when the wait loop was left last.
-/
structure TxSystem where
  mac : EthMac
  pc : OutputPc
  handler : Option (List IrqStmt)
  txifDue : Bool
  wire : List (UInt16 × List UInt8)
  returned : List (PbufChain × ErrT)
  atLoopEnd : TxRegs

inductive TxEvent where
  | call (p : PbufChain)
  | exec
  | irqEnter
  | irqStep
  | raise (flags : Eir)

/-!
# Steps
-/

/-- The next statement of `low_level_output`. -/
def execOutput (s : TxSystem) : TxSystem :=
  match s.pc with
  | .outside => s
  | .waitSent p =>
      if s.mac.phyTxFinished then
        { s with pc := .checkLen p, atLoopEnd := txRegs s.mac }
      else s
  | .checkLen p =>
      if phyTxBufferLenMacro < p.totLen.toNat then
        { s with pc := .outside, returned := s.returned ++ [(p, .mem)] }
      else { s with pc := .copyPartial p }
  | .copyPartial p =>
      { s with
        pc := .setTxLen p
        mac := { s.mac with
          phyTxBuf := overwrite s.mac.phyTxBuf
            (pbufCopyPartial p.payloads p.totLen.toNat 0) } }
  | .setTxLen p =>
      { s with pc := .clearFinished p, mac := { s.mac with etxln := p.totLen } }
  | .clearFinished p =>
      { s with pc := .setTxrts p, mac := { s.mac with phyTxFinished := false } }
  | .setTxrts p =>
      { s with
        pc := .returnOk p
        mac := { s.mac with txrts := true }
        txifDue := true
        wire := s.wire ++ [txFrame s.mac] }
  | .returnOk p =>
      { s with pc := .outside, returned := s.returned ++ [(p, .ok)] }

/-- The MAC raises flags; TXIF and TXERIF end a transmission. -/
def macRaise (flags : Eir) (mac : EthMac) : EthMac :=
  { mac with
    eir := mac.eir.raise flags
    txrts := mac.txrts && !(flags.txif || flags.txerif) }

def txStep (s : TxSystem) : TxEvent -> TxSystem
  | .call p =>
      match s.handler, s.pc with
      | none, .outside => { s with pc := .waitSent p }
      | _, _ => s
  | .exec =>
      match s.handler with
      | none => execOutput s
      | some _ => s
  | .irqEnter =>
      match s.handler with
      | none =>
          if s.mac.eir.any then
            { s with handler := some (ethIRQHandlerStmts s.mac.eir) }
          else s
      | some _ => s
  | .irqStep =>
      match s.handler with
      | none => s
      | some [] => { s with handler := none }
      | some (stmt :: rest) =>
          { s with mac := execIrqStmt s.mac stmt, handler := some rest }
  | .raise flags =>
      { s with
        mac := macRaise flags s.mac
        txifDue := s.txifDue && !flags.txif }

def txStart (L : EthLayout) (mac : EthMac) : TxSystem where
  mac := ethStart L mac
  pc := .outside
  handler := none
  txifDue := false
  wire := []
  returned := []
  atLoopEnd := txRegs (ethStart L mac)

/-- A frame of one zero byte. -/
def oneByte : PbufChain :=
  PbufChain.single [0] (by decide)

/-- A call of `low_level_output` up to its return. -/
def sendOneByte : List TxEvent :=
  .call oneByte :: List.replicate 7 .exec

/-!
# What a handler statement does to the transmitter

Only the transmit branch touches the flag and TXIF; the buffer, the length and
TXRTS belong to the foreground and the MAC.
-/

theorem recvFrame_tx (s : EthMac) :
    txRegs (recvFrame s) = txRegs s ∧ (recvFrame s).eir = s.eir := by
  simp only [recvFrame]
  split <;> exact ⟨rfl, rfl⟩

theorem execIrqStmt_txRegs (s : EthMac) (stmt : IrqStmt) :
    txRegs (execIrqStmt s stmt) =
      { txRegs s with
        phyTxFinished := s.phyTxFinished || decide (stmt = .setTxFinished) } := by
  cases stmt with
  | recvFrame =>
      show txRegs (recvFrame s) = _
      rw [(recvFrame_tx s).left]
      simp [txRegs]
  | _ => simp [execIrqStmt, txRegs]

theorem execIrqStmt_txif (s : EthMac) (stmt : IrqStmt) :
    (execIrqStmt s stmt).eir.txif = (s.eir.txif && !decide (stmt = .ackTx)) := by
  cases stmt with
  | recvFrame =>
      show (recvFrame s).eir.txif = _
      rw [(recvFrame_tx s).right]
      simp
  | _ => simp [execIrqStmt, Eir.ack, Eir.rx, Eir.link, Eir.tx, Eir.err, Eir.none]

section Statement

variable (s : EthMac) (stmt : IrqStmt)

@[simp] theorem execIrqStmt_phyTxBuf : (execIrqStmt s stmt).phyTxBuf = s.phyTxBuf :=
  congrArg TxRegs.phyTxBuf (execIrqStmt_txRegs s stmt)

@[simp] theorem execIrqStmt_etxln : (execIrqStmt s stmt).etxln = s.etxln :=
  congrArg TxRegs.etxln (execIrqStmt_txRegs s stmt)

@[simp] theorem execIrqStmt_txrts : (execIrqStmt s stmt).txrts = s.txrts :=
  congrArg TxRegs.txrts (execIrqStmt_txRegs s stmt)

theorem execIrqStmt_phyTxFinished : (execIrqStmt s stmt).phyTxFinished =
    (s.phyTxFinished || decide (stmt = .setTxFinished)) :=
  congrArg TxRegs.phyTxFinished (execIrqStmt_txRegs s stmt)

end Statement

/-!
# The shape of the transmit branch

The statements still to run are a tail of the handler's list.  In such a tail
the flag is set at most once, always before TXIF is acknowledged, and TXIF is
acknowledged at most once.
-/

def TxBranchShape : List IrqStmt -> Prop
  | [] => True
  | stmt :: rest =>
      (stmt = .setTxFinished -> .ackTx ∈ rest) ∧
        (stmt = .setTxFinished ∨ stmt = .ackTx -> .setTxFinished ∉ rest) ∧
        TxBranchShape rest

theorem ethIRQHandlerStmts_shape (flags : Eir) :
    TxBranchShape (ethIRQHandlerStmts flags) := by
  unfold ethIRQHandlerStmts
  cases flags.rxif <;> cases flags.linkif <;> cases flags.txif <;>
    cases (flags.txerif || flags.rxerif) <;> simp [TxBranchShape]

theorem mem_ethIRQHandlerStmts_tx (flags : Eir) :
    (IrqStmt.setTxFinished ∈ ethIRQHandlerStmts flags <-> flags.txif = true) ∧
      (IrqStmt.ackTx ∈ ethIRQHandlerStmts flags <-> flags.txif = true) := by
  unfold ethIRQHandlerStmts
  cases flags.rxif <;> cases flags.linkif <;> cases flags.txif <;>
    cases (flags.txerif || flags.rxerif) <;> simp

/-- `stmt` is still to be run by the handler. -/
def ToRun (s : TxSystem) (stmt : IrqStmt) : Prop :=
  exists rest, s.handler = some rest ∧ stmt ∈ rest

theorem toRun_iff_mem {s : TxSystem} {stmts : List IrqStmt}
    (h : s.handler = some stmts) (stmt : IrqStmt) : ToRun s stmt <-> stmt ∈ stmts := by
  unfold ToRun
  rw [h]
  simp

theorem not_toRun_of_none {s : TxSystem} (h : s.handler = none) (stmt : IrqStmt) :
    ¬ ToRun s stmt := by
  rintro ⟨rest, hrest, -⟩
  rw [h] at hrest
  cases hrest

theorem toRun_cons {s : TxSystem} {stmt : IrqStmt} {rest : List IrqStmt}
    (h : s.handler = some (stmt :: rest)) (stmt' : IrqStmt) :
    ToRun s stmt' <-> stmt' = stmt ∨ stmt' ∈ rest := by
  rw [toRun_iff_mem h, List.mem_cons]

theorem not_toRun_of_nil {s : TxSystem} (h : s.handler = some []) (stmt : IrqStmt) :
    ¬ ToRun s stmt := by
  rw [toRun_iff_mem h]
  exact List.not_mem_nil

/-!
# What a step can do

`TxMove` lists the effects a step can have, with the guards under which they
happen.  Every invariant below is a case analysis over it.
-/

inductive TxMove (s : TxSystem) : TxEvent -> TxSystem -> Prop where
  | stay (e : TxEvent) : TxMove s e s
  | called (p : PbufChain) (hnone : s.handler = none) (hpc : s.pc = .outside) :
      TxMove s (.call p) { s with pc := .waitSent p }
  | sent (p : PbufChain) (hnone : s.handler = none) (hpc : s.pc = .waitSent p)
      (hfinished : s.mac.phyTxFinished = true) :
      TxMove s .exec { s with pc := .checkLen p, atLoopEnd := txRegs s.mac }
  | tooLong (p : PbufChain) (hnone : s.handler = none) (hpc : s.pc = .checkLen p)
      (hlen : phyTxBufferLenMacro < p.totLen.toNat) :
      TxMove s .exec
        { s with pc := .outside, returned := s.returned ++ [(p, .mem)] }
  | fits (p : PbufChain) (hnone : s.handler = none) (hpc : s.pc = .checkLen p)
      (hlen : p.totLen.toNat <= phyTxBufferLenMacro) :
      TxMove s .exec { s with pc := .copyPartial p }
  | copied (p : PbufChain) (hnone : s.handler = none) (hpc : s.pc = .copyPartial p) :
      TxMove s .exec
        { s with
          pc := .setTxLen p
          mac := { s.mac with phyTxBuf := overwrite s.mac.phyTxBuf p.bytes } }
  | lengthSet (p : PbufChain) (hnone : s.handler = none) (hpc : s.pc = .setTxLen p) :
      TxMove s .exec
        { s with pc := .clearFinished p, mac := { s.mac with etxln := p.totLen } }
  | cleared (p : PbufChain) (hnone : s.handler = none) (hpc : s.pc = .clearFinished p) :
      TxMove s .exec
        { s with pc := .setTxrts p, mac := { s.mac with phyTxFinished := false } }
  | started (p : PbufChain) (hnone : s.handler = none) (hpc : s.pc = .setTxrts p) :
      TxMove s .exec
        { s with
          pc := .returnOk p
          mac := { s.mac with txrts := true }
          txifDue := true
          wire := s.wire ++ [txFrame s.mac] }
  | returnedOk (p : PbufChain) (hnone : s.handler = none) (hpc : s.pc = .returnOk p) :
      TxMove s .exec
        { s with pc := .outside, returned := s.returned ++ [(p, .ok)] }
  | entered (hnone : s.handler = none) (hany : s.mac.eir.any = true) :
      TxMove s .irqEnter { s with handler := some (ethIRQHandlerStmts s.mac.eir) }
  | served (stmt : IrqStmt) (rest : List IrqStmt)
      (hsome : s.handler = some (stmt :: rest)) :
      TxMove s .irqStep
        { s with mac := execIrqStmt s.mac stmt, handler := some rest }
  | left (hsome : s.handler = some []) :
      TxMove s .irqStep { s with handler := none }
  | raised (flags : Eir) :
      TxMove s (.raise flags)
        { s with mac := macRaise flags s.mac, txifDue := s.txifDue && !flags.txif }

theorem execOutput_move {s : TxSystem} (hnone : s.handler = none) :
    TxMove s .exec (execOutput s) := by
  unfold execOutput
  cases hpc : s.pc with
  | outside => exact TxMove.stay _
  | waitSent p =>
      by_cases hfinished : s.mac.phyTxFinished = true
      · simp only [if_pos hfinished]
        exact TxMove.sent p hnone hpc hfinished
      · simp only [if_neg hfinished]
        exact TxMove.stay _
  | checkLen p =>
      by_cases hlen : phyTxBufferLenMacro < p.totLen.toNat
      · simp only [if_pos hlen]
        exact TxMove.tooLong p hnone hpc hlen
      · simp only [if_neg hlen]
        exact TxMove.fits p hnone hpc (Nat.le_of_not_lt hlen)
  | copyPartial p =>
      simp only [pbufCopyPartial_totLen]
      exact TxMove.copied p hnone hpc
  | setTxLen p => exact TxMove.lengthSet p hnone hpc
  | clearFinished p => exact TxMove.cleared p hnone hpc
  | setTxrts p => exact TxMove.started p hnone hpc
  | returnOk p => exact TxMove.returnedOk p hnone hpc

theorem txStep_move (s : TxSystem) (e : TxEvent) : TxMove s e (txStep s e) := by
  cases e with
  | call p =>
      simp only [txStep]
      split
      · next hnone hpc => exact TxMove.called p hnone hpc
      · exact TxMove.stay _
  | exec =>
      simp only [txStep]
      split
      · next hnone => exact execOutput_move hnone
      · exact TxMove.stay _
  | irqEnter =>
      simp only [txStep]
      split
      · next hnone =>
          by_cases hany : s.mac.eir.any = true
          · rw [if_pos hany]
            exact TxMove.entered hnone hany
          · rw [if_neg hany]
            exact TxMove.stay _
      · exact TxMove.stay _
  | irqStep =>
      simp only [txStep]
      split
      · exact TxMove.stay _
      · next hsome => exact TxMove.left hsome
      · next stmt rest hsome => exact TxMove.served stmt rest hsome
  | raise flags => exact TxMove.raised flags

/-- The handler's list keeps its shape in every state. -/
def HandlerShape (s : TxSystem) : Prop :=
  forall rest, s.handler = some rest -> TxBranchShape rest

theorem TxMove.handlerShape {s t : TxSystem} {e : TxEvent} (hmove : TxMove s e t)
    (h : HandlerShape s) : HandlerShape t := by
  intro rest hrest
  cases hmove with
  | entered hnone hany =>
      cases hrest
      exact ethIRQHandlerStmts_shape _
  | served stmt tail hsome =>
      cases hrest
      exact (h _ hsome).right.right
  | left hsome => cases hrest
  | _ => exact h rest hrest

end Net
end Ch579HttpLed
