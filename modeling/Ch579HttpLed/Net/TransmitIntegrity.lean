import Ch579HttpLed.Net.Transmit

/-!
# Integrity of transmitted frames

The DMA buffer and the length register belong to the foreground while
`phy_tx_finished` is set and to the MAC otherwise.  Under the assumption that
the MAC raises TXIF at most once for a transmission it was given, the foreground
never writes either of them during a transmission, and the frames handed to the
MAC are the frames of the calls that returned `ERR_OK`.
-/

namespace Ch579HttpLed
namespace Net

open Foundation

/-- TXIF is only raised for a transmission that has not raised it yet. -/
def TxifOnlyWhenDue (s : TxSystem) : TxEvent -> Prop
  | .raise flags => flags.txif = true -> s.txifDue = true
  | _ => True

/-!
# Who owns the buffer

Between the end of the wait loop and the clearing of the flag the foreground
owns the buffer.
-/

def OutputPc.owns : OutputPc -> Bool
  | .checkLen _ => true
  | .copyPartial _ => true
  | .setTxLen _ => true
  | .clearFinished _ => true
  | _ => false

structure TxExclusive (s : TxSystem) : Prop where
  shape : HandlerShape s
  flight : s.mac.txrts = true -> s.txifDue = true
  owned : s.pc.owns = true -> s.mac.phyTxFinished = true
  released : s.mac.phyTxFinished = true -> s.txifDue = false
  starting : forall p, s.pc = .setTxrts p -> s.mac.phyTxFinished = false ∧
    s.txifDue = false ∧ s.mac.eir.txif = false ∧ ¬ ToRun s .setTxFinished
  answered : s.mac.eir.txif = true ∨ ToRun s .setTxFinished -> s.txifDue = false
  acked : s.mac.phyTxFinished = true -> s.mac.eir.txif = true -> ToRun s .ackTx
  unset : ToRun s .setTxFinished -> s.mac.phyTxFinished = false

theorem TxExclusive.idle_of_owns {s : TxSystem} (h : TxExclusive s)
    (howns : s.pc.owns = true) : s.mac.txrts = false := by
  have hdue := h.released (h.owned howns)
  cases htxrts : s.mac.txrts with
  | false => rfl
  | true =>
      rw [h.flight htxrts] at hdue
      cases hdue

theorem txStart_exclusive (L : EthLayout) (mac : EthMac) :
    TxExclusive (txStart L mac) where
  shape := by
    intro rest hrest
    cases hrest
  flight := by
    intro htxrts
    cases htxrts
  owned := by
    intro howns
    cases howns
  released := fun _ => rfl
  starting := by
    intro p hpc
    cases hpc
  answered := fun _ => rfl
  acked := by
    intro _ htxif
    simp [txStart, ethStart, ethInitX, phyTxInit, Eir.ack, Eir.all] at htxif
  unset := by
    intro hset
    exact absurd hset (not_toRun_of_none rfl _)

/-- With the flag set and no handler running, no TXIF is pending. -/
theorem TxExclusive.txif_quiet {s : TxSystem} (h : TxExclusive s)
    (hnone : s.handler = none) (hfinished : s.mac.phyTxFinished = true) :
    s.mac.eir.txif = false := by
  cases htxif : s.mac.eir.txif with
  | false => rfl
  | true => exact absurd (h.acked hfinished htxif) (not_toRun_of_none hnone _)

/-- Moves of the foreground that only go from one position to the next. -/
theorem TxExclusive.of_same {s t : TxSystem} (h : TxExclusive s)
    (hhandler : t.handler = s.handler) (htxif : t.mac.eir = s.mac.eir)
    (hfinished : t.mac.phyTxFinished = s.mac.phyTxFinished)
    (htxrts : t.mac.txrts = s.mac.txrts) (hdue : t.txifDue = s.txifDue)
    (howns : t.pc.owns = true -> s.mac.phyTxFinished = true)
    (hstarting : forall p, t.pc ≠ .setTxrts p) : TxExclusive t := by
  have hrun : forall stmt, ToRun t stmt <-> ToRun s stmt := by
    intro stmt
    unfold ToRun
    rw [hhandler]
  refine ⟨?_, ?_, ?_, ?_, ?_, ?_, ?_, ?_⟩
  · intro rest hrest
    rw [hhandler] at hrest
    exact h.shape rest hrest
  · rw [htxrts, hdue]
    exact h.flight
  · rw [hfinished]
    exact howns
  · rw [hfinished, hdue]
    exact h.released
  · intro p hpc
    exact absurd hpc (hstarting p)
  · rw [htxif, hdue, hrun]
    exact h.answered
  · rw [hfinished, htxif, hrun]
    exact h.acked
  · rw [hfinished, hrun]
    exact h.unset

theorem served_exclusive {s : TxSystem} (h : TxExclusive s) {stmt : IrqStmt}
    {rest : List IrqStmt} (hsome : s.handler = some (stmt :: rest)) :
    TxExclusive { s with mac := execIrqStmt s.mac stmt, handler := some rest } := by
  have hshape := h.shape _ hsome
  have hrun := toRun_cons hsome
  have hnext : forall stmt', ToRun { s with
      mac := execIrqStmt s.mac stmt, handler := some rest } stmt' <-> stmt' ∈ rest :=
    toRun_iff_mem rfl
  refine ⟨(TxMove.served stmt rest hsome).handlerShape h.shape, ?_, ?_, ?_, ?_, ?_, ?_, ?_⟩
  · simp only [execIrqStmt_txrts]
    exact h.flight
  · intro howns
    simp [execIrqStmt_phyTxFinished, h.owned howns]
  · simp only [execIrqStmt_phyTxFinished]
    intro hfinished
    by_cases hset : stmt = .setTxFinished
    · exact h.answered (Or.inr ((hrun _).mpr (Or.inl hset.symm)))
    · exact h.released (by simpa [hset] using hfinished)
  · intro p hpc
    rcases h.starting p hpc with ⟨hfinished, hdue, htxif, hset⟩
    have hother : ¬ stmt = .setTxFinished := by
      intro heq
      exact hset ((hrun _).mpr (Or.inl heq.symm))
    refine ⟨?_, hdue, ?_, ?_⟩
    · simp [execIrqStmt_phyTxFinished, hfinished, hother]
    · simp [execIrqStmt_txif, htxif]
    · rw [hnext]
      intro hmem
      exact hset ((hrun _).mpr (Or.inr hmem))
  · rw [hnext, execIrqStmt_txif]
    rintro (htxif | hmem)
    · exact h.answered (Or.inl (by simp at htxif; exact htxif.left))
    · exact h.answered (Or.inr ((hrun _).mpr (Or.inr hmem)))
  · rw [hnext]
    simp only [execIrqStmt_phyTxFinished, execIrqStmt_txif]
    intro hfinished htxif
    by_cases hset : stmt = .setTxFinished
    · exact hshape.left hset
    · have hold := h.acked (by simpa [hset] using hfinished) (by simp at htxif; exact htxif.left)
      rcases (hrun _).mp hold with heq | hmem
      · simp [← heq] at htxif
      · exact hmem
  · rw [hnext]
    simp only [execIrqStmt_phyTxFinished]
    intro hmem
    have hother : ¬ stmt = .setTxFinished := by
      intro heq
      exact hshape.right.left (Or.inl heq) hmem
    simp [h.unset ((hrun _).mpr (Or.inr hmem)), hother]

theorem entered_exclusive {s : TxSystem} (h : TxExclusive s)
    (hnone : s.handler = none) (hany : s.mac.eir.any = true) :
    TxExclusive { s with handler := some (ethIRQHandlerStmts s.mac.eir) } := by
  have hmem := mem_ethIRQHandlerStmts_tx s.mac.eir
  have hnext : forall stmt, ToRun { s with
      handler := some (ethIRQHandlerStmts s.mac.eir) } stmt <->
      stmt ∈ ethIRQHandlerStmts s.mac.eir := toRun_iff_mem rfl
  refine ⟨(TxMove.entered hnone hany).handlerShape h.shape, h.flight, h.owned,
    h.released, ?_, ?_, ?_, ?_⟩
  · intro p hpc
    rcases h.starting p hpc with ⟨hfinished, hdue, htxif, -⟩
    refine ⟨hfinished, hdue, htxif, ?_⟩
    rw [hnext, hmem.left, htxif]
    simp
  · rw [hnext, hmem.left, or_self]
    intro htxif
    exact h.answered (Or.inl htxif)
  · intro hfinished htxif
    change s.mac.eir.txif = true at htxif
    rw [h.txif_quiet hnone hfinished] at htxif
    cases htxif
  · rw [hnext, hmem.left]
    intro htxif
    cases hfinished : s.mac.phyTxFinished with
    | false => rfl
    | true =>
        rw [h.txif_quiet hnone hfinished] at htxif
        cases htxif

theorem raised_exclusive {s : TxSystem} (h : TxExclusive s) {flags : Eir}
    (hok : TxifOnlyWhenDue s (.raise flags)) :
    TxExclusive (txStep s (.raise flags)) := by
  have hcases : flags.txif = false ∨ flags.txif = true ∧ s.txifDue = true := by
    cases hflag : flags.txif with
    | false => exact Or.inl rfl
    | true => exact Or.inr ⟨rfl, hok hflag⟩
  refine ⟨h.shape, ?_, h.owned, ?_, ?_, ?_, ?_, h.unset⟩
  · intro htxrts
    change (s.mac.txrts && !(flags.txif || flags.txerif)) = true at htxrts
    show (s.txifDue && !flags.txif) = true
    simp at htxrts ⊢
    exact ⟨h.flight htxrts.left, htxrts.right.left⟩
  · intro hfinished
    show (s.txifDue && !flags.txif) = false
    rw [h.released hfinished, Bool.false_and]
  · intro p hpc
    rcases h.starting p hpc with ⟨hfinished, hdue, htxif, hset⟩
    have hflag : flags.txif = false := by
      rcases hcases with hflag | hflag
      · exact hflag
      · rw [hdue] at hflag
        cases hflag.right
    refine ⟨hfinished, ?_, ?_, hset⟩
    · show (s.txifDue && !flags.txif) = false
      rw [hdue, Bool.false_and]
    · show (s.mac.eir.txif || flags.txif) = false
      rw [htxif, hflag, Bool.false_or]
  · intro hcause
    change (s.mac.eir.txif || flags.txif) = true ∨ ToRun s .setTxFinished at hcause
    show (s.txifDue && !flags.txif) = false
    rcases hcases with hflag | hflag
    · rw [hflag, Bool.or_false] at hcause
      rw [h.answered hcause, Bool.false_and]
    · simp [hflag.left]
  · intro hfinished htxif
    change (s.mac.eir.txif || flags.txif) = true at htxif
    rcases hcases with hflag | hflag
    · rw [hflag, Bool.or_false] at htxif
      exact h.acked hfinished htxif
    · have hdue := h.released hfinished
      rw [hflag.right] at hdue
      cases hdue

theorem txStep_exclusive (s : TxSystem) (e : TxEvent) (h : TxExclusive s)
    (hok : TxifOnlyWhenDue s e) : TxExclusive (txStep s e) := by
  have hmove := txStep_move s e
  generalize htarget : txStep s e = t at hmove
  have howned : s.pc.owns = true -> s.mac.phyTxFinished = true := h.owned
  cases hmove with
  | stay e => exact h
  | called p hnone hpc => exact h.of_same rfl rfl rfl rfl rfl nofun nofun
  | sent p hnone hpc hfinished =>
      exact h.of_same rfl rfl rfl rfl rfl (fun _ => hfinished) nofun
  | tooLong p hnone hpc hlen => exact h.of_same rfl rfl rfl rfl rfl nofun nofun
  | fits p hnone hpc hlen =>
      rw [hpc] at howned
      exact h.of_same rfl rfl rfl rfl rfl howned nofun
  | copied p hnone hpc =>
      rw [hpc] at howned
      exact h.of_same rfl rfl rfl rfl rfl howned nofun
  | lengthSet p hnone hpc =>
      rw [hpc] at howned
      exact h.of_same rfl rfl rfl rfl rfl howned nofun
  | cleared p hnone hpc =>
      rw [hpc] at howned
      have hfinished := howned rfl
      have hdue := h.released hfinished
      have htxif := h.txif_quiet hnone hfinished
      refine ⟨h.shape, h.flight, nofun, nofun, ?_, h.answered, nofun, fun _ => rfl⟩
      intro p' _
      exact ⟨rfl, hdue, htxif, not_toRun_of_none hnone _⟩
  | started p hnone hpc =>
      rcases h.starting p hpc with ⟨hfinished, -, htxif, hset⟩
      refine ⟨h.shape, fun _ => rfl, nofun, ?_, nofun, ?_, h.acked, h.unset⟩
      · intro hflag
        change s.mac.phyTxFinished = true at hflag
        rw [hfinished] at hflag
        cases hflag
      · rintro (hflag | hrun)
        · change s.mac.eir.txif = true at hflag
          rw [htxif] at hflag
          cases hflag
        · exact absurd hrun hset
  | returnedOk p hnone hpc => exact h.of_same rfl rfl rfl rfl rfl nofun nofun
  | entered hnone hany => exact entered_exclusive h hnone hany
  | served stmt rest hsome => exact served_exclusive h hsome
  | left hsome =>
      have hshape := (TxMove.left hsome).handlerShape h.shape
      refine ⟨hshape, h.flight, h.owned, h.released, ?_, ?_, ?_, ?_⟩
      · intro p hpc
        rcases h.starting p hpc with ⟨hfinished, hdue, htxif, -⟩
        exact ⟨hfinished, hdue, htxif, not_toRun_of_none rfl _⟩
      · rintro (htxif | hrun)
        · exact h.answered (Or.inl htxif)
        · exact absurd hrun (not_toRun_of_none rfl _)
      · intro hfinished htxif
        exact absurd (h.acked hfinished htxif) (not_toRun_of_nil hsome _)
      · intro hrun
        exact absurd hrun (not_toRun_of_none rfl _)
  | raised flags =>
      rw [← htarget]
      exact raised_exclusive h hok

/-!
# What the registers hold
-/

/-- The frame a call is asked to send. -/
def chainFrame (p : PbufChain) : UInt16 × List UInt8 :=
  (p.totLen, p.bytes)

/-- Frames of the calls that returned `ERR_OK`, in call order. -/
def okFrames (returned : List (PbufChain × ErrT)) : List (UInt16 × List UInt8) :=
  (returned.filter (fun call => call.2 = .ok)).map (fun call => chainFrame call.1)

/-- The frame of a call that has started its transmission and is about to return. -/
def returning : OutputPc -> List (UInt16 × List UInt8)
  | .returnOk p => [chainFrame p]
  | _ => []

def resultOf (p : PbufChain) : ErrT :=
  if phyTxBufferLenMacro < p.totLen.toNat then .mem else .ok

/-- What the statements before a position have put into the registers. -/
def PcData (s : TxSystem) : Prop :=
  match s.pc with
  | .checkLen _ => txRegs s.mac = s.atLoopEnd
  | .copyPartial p => resultOf p = .ok
  | .setTxLen p =>
      resultOf p = .ok ∧ s.mac.phyTxBuf.take p.totLen.toNat = p.bytes
  | .clearFinished p => resultOf p = .ok ∧ txFrame s.mac = chainFrame p
  | .setTxrts p => resultOf p = .ok ∧ txFrame s.mac = chainFrame p
  | .returnOk p => resultOf p = .ok
  | _ => True

structure TxIntegrity (s : TxSystem) : Prop where
  wire_eq : s.wire = okFrames s.returned ++ returning s.pc
  flight : s.mac.txrts = true -> s.wire.getLast? = some (txFrame s.mac)
  results : forall call, call ∈ s.returned -> call.2 = resultOf call.1
  data : PcData s

theorem txStart_integrity (L : EthLayout) (mac : EthMac) :
    TxIntegrity (txStart L mac) where
  wire_eq := rfl
  flight := by
    intro htxrts
    cases htxrts
  results := by
    intro call hcall
    cases hcall
  data := True.intro

theorem okFrames_concat (returned : List (PbufChain × ErrT)) (p : PbufChain)
    (e : ErrT) : okFrames (returned ++ [(p, e)]) =
      okFrames returned ++ (if e = .ok then [chainFrame p] else []) := by
  cases e <;> simp [okFrames]

theorem results_concat {returned : List (PbufChain × ErrT)} {p : PbufChain}
    {e : ErrT} (h : forall call, call ∈ returned -> call.2 = resultOf call.1)
    (hnew : e = resultOf p) :
    forall call, call ∈ returned ++ [(p, e)] -> call.2 = resultOf call.1 := by
  intro call hcall
  rcases List.mem_append.mp hcall with hold | hlast
  · exact h call hold
  · rw [List.mem_singleton.mp hlast]
    exact hnew

/-- A step of the handler or the MAC that keeps buffer, length and owned flags. -/
theorem TxIntegrity.of_environment {s t : TxSystem} (h : TxIntegrity s)
    (hpc : t.pc = s.pc) (hwire : t.wire = s.wire) (hreturned : t.returned = s.returned)
    (hframe : txFrame t.mac = txFrame s.mac) (hbuf : t.mac.phyTxBuf = s.mac.phyTxBuf)
    (htxrts : t.mac.txrts = true -> s.mac.txrts = true)
    (hregs : s.pc.owns = true -> txRegs t.mac = txRegs s.mac)
    (hloop : t.atLoopEnd = s.atLoopEnd) : TxIntegrity t := by
  refine ⟨?_, ?_, ?_, ?_⟩
  · rw [hwire, hreturned, hpc]
    exact h.wire_eq
  · intro hflight
    rw [hwire, hframe]
    exact h.flight (htxrts hflight)
  · rw [hreturned]
    exact h.results
  · have hdata := h.data
    unfold PcData at *
    rw [hpc, hframe, hbuf, hloop]
    cases hcase : s.pc with
    | checkLen p =>
        rw [hcase] at hdata
        rw [hregs (by rw [hcase]; rfl)]
        exact hdata
    | _ =>
        rw [hcase] at hdata
        exact hdata

theorem TxExclusive.macRaise_txRegs {s : TxSystem} (h : TxExclusive s)
    (howns : s.pc.owns = true) (flags : Eir) :
    txRegs (macRaise flags s.mac) = txRegs s.mac := by
  simp [txRegs, macRaise, h.idle_of_owns howns]

theorem TxExclusive.execIrqStmt_txRegs_eq {s : TxSystem} (h : TxExclusive s)
    (howns : s.pc.owns = true) (stmt : IrqStmt) :
    txRegs (execIrqStmt s.mac stmt) = txRegs s.mac := by
  rw [execIrqStmt_txRegs]
  simp [txRegs, h.owned howns]

theorem txStep_integrity (s : TxSystem) (e : TxEvent) (hex : TxExclusive s)
    (h : TxIntegrity s) : TxIntegrity (txStep s e) := by
  have hmove := txStep_move s e
  generalize txStep s e = t at hmove
  have hwire := h.wire_eq
  have hdata := h.data
  unfold PcData at hdata
  cases hmove with
  | stay e => exact h
  | called p hnone hpc =>
      rw [hpc] at hwire
      exact ⟨hwire, h.flight, h.results, True.intro⟩
  | sent p hnone hpc hfinished =>
      rw [hpc] at hwire
      exact ⟨hwire, h.flight, h.results, rfl⟩
  | tooLong p hnone hpc hlen =>
      rw [hpc] at hwire
      refine ⟨?_, h.flight, results_concat h.results (if_pos hlen).symm, True.intro⟩
      show s.wire = okFrames (s.returned ++ [(p, .mem)]) ++ []
      rw [okFrames_concat, hwire]
      simp [returning]
  | fits p hnone hpc hlen =>
      rw [hpc] at hwire
      exact ⟨hwire, h.flight, h.results, if_neg (Nat.not_lt_of_le hlen)⟩
  | copied p hnone hpc =>
      rw [hpc] at hwire hdata
      have hidle := hex.idle_of_owns (by rw [hpc]; rfl)
      refine ⟨hwire, ?_, h.results, hdata, ?_⟩
      · intro hflight
        change s.mac.txrts = true at hflight
        rw [hidle] at hflight
        cases hflight
      · show (overwrite s.mac.phyTxBuf p.bytes).take p.totLen.toNat = p.bytes
        rw [p.totLen_toNat]
        exact take_overwrite _ _
  | lengthSet p hnone hpc =>
      rw [hpc] at hwire hdata
      have hidle := hex.idle_of_owns (by rw [hpc]; rfl)
      refine ⟨hwire, ?_, h.results, hdata.left, ?_⟩
      · intro hflight
        change s.mac.txrts = true at hflight
        rw [hidle] at hflight
        cases hflight
      · exact congrArg (Prod.mk p.totLen) hdata.right
  | cleared p hnone hpc =>
      rw [hpc] at hwire hdata
      exact ⟨hwire, h.flight, h.results, hdata⟩
  | started p hnone hpc =>
      rw [hpc] at hwire hdata
      refine ⟨?_, ?_, h.results, hdata.left⟩
      · show s.wire ++ [txFrame s.mac] = okFrames s.returned ++ [chainFrame p]
        rw [hwire, hdata.right]
        simp [returning]
      · intro _
        exact List.getLast?_concat
  | returnedOk p hnone hpc =>
      rw [hpc] at hwire hdata
      refine ⟨?_, h.flight, results_concat h.results hdata.symm, True.intro⟩
      show s.wire = okFrames (s.returned ++ [(p, .ok)]) ++ []
      rw [okFrames_concat, hwire]
      simp [returning]
  | entered hnone hany =>
      exact h.of_environment rfl rfl rfl rfl rfl id (fun _ => rfl) rfl
  | served stmt rest hsome =>
      have hframe : txFrame (execIrqStmt s.mac stmt) = txFrame s.mac := by
        simp [txFrame]
      exact h.of_environment rfl rfl rfl hframe (execIrqStmt_phyTxBuf _ _)
        (fun hflight => by rwa [execIrqStmt_txrts] at hflight)
        (fun howns => hex.execIrqStmt_txRegs_eq howns stmt) rfl
  | left hsome =>
      exact h.of_environment rfl rfl rfl rfl rfl id (fun _ => rfl) rfl
  | raised flags =>
      exact h.of_environment rfl rfl rfl rfl rfl
        (fun hflight => by simp [macRaise] at hflight; exact hflight.left)
        (fun howns => hex.macRaise_txRegs howns flags) rfl

/-!
# Runs
-/

/-- The step writes `phy_tx_buf` or `R16_ETH_ETXLN`. -/
def WritesTxBuffer (s : TxSystem) (e : TxEvent) : Prop :=
  e = .exec ∧ s.handler = none ∧
    exists p, s.pc = .copyPartial p ∨ s.pc = .setTxLen p

/-- Every other step leaves both alone. -/
theorem txStep_txFrame (s : TxSystem) (e : TxEvent) (h : ¬ WritesTxBuffer s e) :
    (txStep s e).mac.phyTxBuf = s.mac.phyTxBuf ∧ (txStep s e).mac.etxln = s.mac.etxln := by
  have hmove := txStep_move s e
  generalize txStep s e = t at hmove
  cases hmove with
  | copied p hnone hpc => exact absurd ⟨rfl, hnone, p, Or.inl hpc⟩ h
  | lengthSet p hnone hpc => exact absurd ⟨rfl, hnone, p, Or.inr hpc⟩ h
  | served stmt rest hsome =>
      exact ⟨execIrqStmt_phyTxBuf s.mac stmt, execIrqStmt_etxln s.mac stmt⟩
  | _ => exact ⟨rfl, rfl⟩

/-- A step during a transmission neither writes nor changes what the MAC reads. -/
def QuietInFlight (s : TxSystem) (e : TxEvent) : Prop :=
  s.mac.txrts = true -> ¬ WritesTxBuffer s e ∧
    (txStep s e).mac.phyTxBuf = s.mac.phyTxBuf ∧ (txStep s e).mac.etxln = s.mac.etxln

/-- A call found too long returns `ERR_MEM` with the registers as the wait loop left them. -/
def RejectsTooLong (s : TxSystem) (e : TxEvent) : Prop :=
  forall p, s.pc = .checkLen p -> phyTxBufferLenMacro < p.totLen.toNat ->
    txRegs s.mac = s.atLoopEnd ∧
      (e = .exec -> s.handler = none ->
        (txStep s e).pc = .outside ∧ (txStep s e).returned = s.returned ++ [(p, .mem)] ∧
          txRegs (txStep s e).mac = s.atLoopEnd)

theorem TxExclusive.quietInFlight {s : TxSystem} (h : TxExclusive s) (e : TxEvent) :
    QuietInFlight s e := by
  intro hflight
  have hquiet : ¬ WritesTxBuffer s e := by
    rintro ⟨-, -, p, hpc⟩
    have howns : s.pc.owns = true := by
      rcases hpc with hpc | hpc <;> rw [hpc] <;> rfl
    have hidle := h.idle_of_owns howns
    rw [hflight] at hidle
    cases hidle
  exact ⟨hquiet, txStep_txFrame s e hquiet⟩

theorem TxIntegrity.rejectsTooLong {s : TxSystem} (h : TxIntegrity s) (e : TxEvent) :
    RejectsTooLong s e := by
  intro p hpc hlen
  have hdata := h.data
  unfold PcData at hdata
  rw [hpc] at hdata
  refine ⟨hdata, ?_⟩
  intro he hnone
  subst he
  have hstep : txStep s .exec =
      { s with pc := .outside, returned := s.returned ++ [(p, .mem)] } := by
    simp [txStep, hnone, execOutput, hpc, hlen]
  rw [hstep]
  exact ⟨rfl, rfl, hdata⟩

theorem txRun_exclusive {s : TxSystem} (h : TxExclusive s ∧ TxIntegrity s)
    {es : List TxEvent} (hok : AllSteps txStep TxifOnlyWhenDue s es) :
    TxExclusive (run txStep s es) ∧ TxIntegrity (run txStep s es) := by
  have hstep : forall t e, TxExclusive t ∧ TxIntegrity t -> TxifOnlyWhenDue t e ->
      TxExclusive (txStep t e) ∧ TxIntegrity (txStep t e) := by
    intro t e ht hdue
    exact ⟨txStep_exclusive t e ht.left hdue, txStep_integrity t e ht.left ht.right⟩
  exact run_invariant_of_allSteps hstep h hok

/--
In every run in which the MAC raises TXIF at most once for a transmission: no
step writes the buffer or the length during a transmission, every call that is
too long is rejected without a trace, the frames handed to the MAC are those of
the calls that returned `ERR_OK`, and the MAC reads the frame it was handed last.
-/
theorem transmit_integrity (L : EthLayout) (mac : EthMac) (es : List TxEvent)
    (hok : AllSteps txStep TxifOnlyWhenDue (txStart L mac) es) :
    let s := run txStep (txStart L mac) es
    AllSteps txStep QuietInFlight (txStart L mac) es ∧
      AllSteps txStep RejectsTooLong (txStart L mac) es ∧
      s.wire = okFrames s.returned ++ returning s.pc ∧
      (forall call, call ∈ s.returned -> call.2 = resultOf call.1) ∧
      (s.mac.txrts = true -> s.wire.getLast? = some (txFrame s.mac)) := by
  intro s
  have hstart := And.intro (txStart_exclusive L mac) (txStart_integrity L mac)
  have hsplits : forall pre e post, es = pre ++ e :: post ->
      TxExclusive (run txStep (txStart L mac) pre) ∧
        TxIntegrity (run txStep (txStart L mac) pre) := by
    intro pre e post hsplit
    rw [hsplit, allSteps_append] at hok
    exact txRun_exclusive hstart hok.left
  have hend : TxIntegrity s := (txRun_exclusive hstart hok).right
  refine ⟨?_, ?_, hend.wire_eq, hend.results, hend.flight⟩
  · rw [allSteps_iff_forall_split]
    intro pre e post hsplit
    exact (hsplits pre e post hsplit).left.quietInFlight e
  · rw [allSteps_iff_forall_split]
    intro pre e post hsplit
    exact (hsplits pre e post hsplit).right.rejectsTooLong e

/-- One frame is sent, its completion is served, and a second call starts. -/
theorem transmit_integrity_at_sample :
    let es := sendOneByte ++
      [.raise Eir.tx, .irqEnter, .irqStep, .irqStep, .irqStep, .call oneByte, .exec]
    let s := run txStep (txStart EthLayout.lowest EthMac.blank) es
    AllSteps txStep TxifOnlyWhenDue (txStart EthLayout.lowest EthMac.blank) es ∧
      s.wire = [chainFrame oneByte] ∧
      s.wire = okFrames s.returned ++ returning s.pc := by
  intro es s
  have hok : AllSteps txStep TxifOnlyWhenDue (txStart EthLayout.lowest EthMac.blank) es := by
    rw [show es = sendOneByte ++ _ from rfl, allSteps_append]
    constructor
    · simp [sendOneByte, List.replicate, AllSteps, TxifOnlyWhenDue]
    · exact ⟨fun _ => rfl, True.intro, True.intro, True.intro, True.intro, True.intro,
        True.intro, True.intro⟩
  exact ⟨hok, rfl,
    (transmit_integrity EthLayout.lowest EthMac.blank es hok).right.right.left⟩

end Net
end Ch579HttpLed
