import Ch579HttpLed.Net.Transmit

/-!
# The transmitter is released

`low_level_output` waits for `phy_tx_finished` without a bound, and only the
TXIF branch of the handler sets the flag.  A transmission that ends with TXIF,
alone or together with TXERIF, therefore always releases the flag.  One that
ends with TXERIF alone does not.
-/

namespace Ch579HttpLed
namespace Net

open Foundation

/-!
# The property and the condition
-/

/-- A completion or error interrupt is pending or its handler run is not through. -/
def CompletionUnserved (s : TxSystem) : Prop :=
  s.mac.eir.txif = true ∨ s.mac.eir.txerif = true ∨
    ToRun s .setTxFinished ∨ ToRun s .errDeal

/-- The foreground is between clearing `phy_tx_finished` and setting TXRTS. -/
def Starting (s : TxSystem) : Prop :=
  exists p, s.pc = .setTxrts p

/-- A cleared flag has a cause outside the two starting statements. -/
def FlagHasCause (s : TxSystem) : Prop :=
  ¬ Starting s -> s.mac.phyTxFinished = false ->
    s.mac.txrts = true ∨ CompletionUnserved s

def HandlerEvent (e : TxEvent) : Prop :=
  e = .irqEnter ∨ e = .irqStep

/-- Serving the pending interrupts ends the wait loop. -/
def WaitCanEnd (s : TxSystem) : Prop :=
  exists hs : List TxEvent, (forall e, e ∈ hs -> HandlerEvent e) ∧
    (run txStep s hs).mac.phyTxFinished = true ∧
    forall p, s.pc = .waitSent p -> (run txStep s (hs ++ [.exec])).pc = .checkLen p

/-- A transmission in flight does not end with TXERIF alone. -/
def EndsWithTxif (s : TxSystem) : TxEvent -> Prop
  | .raise flags => s.mac.txrts = true -> flags.txerif = true -> flags.txif = true
  | _ => True

/-!
# The handler serves in order

The flag is set before TXIF is acknowledged, in every run.
-/

structure TxServing (s : TxSystem) : Prop where
  shape : HandlerShape s
  ack : ToRun s .ackTx -> ¬ ToRun s .setTxFinished -> s.mac.phyTxFinished = true

theorem txStart_serving (L : EthLayout) (mac : EthMac) : TxServing (txStart L mac) where
  shape := by
    intro rest hrest
    cases hrest
  ack := by
    intro hack
    exact absurd hack (not_toRun_of_none rfl _)

/-- Steps that leave the handler and the flag alone. -/
theorem TxServing.of_same {s t : TxSystem} (h : TxServing s) (hhandler : t.handler = s.handler)
    (hfinished : t.mac.phyTxFinished = s.mac.phyTxFinished) : TxServing t where
  shape := by
    intro rest hrest
    rw [hhandler] at hrest
    exact h.shape rest hrest
  ack := by
    unfold ToRun
    rw [hhandler, hfinished]
    exact h.ack

theorem served_serving {s : TxSystem} (h : TxServing s) {stmt : IrqStmt}
    {rest : List IrqStmt} (hsome : s.handler = some (stmt :: rest)) :
    TxServing { s with mac := execIrqStmt s.mac stmt, handler := some rest } := by
  have hrun := toRun_cons hsome
  have hnext : forall stmt', ToRun { s with
      mac := execIrqStmt s.mac stmt, handler := some rest } stmt' <-> stmt' ∈ rest :=
    toRun_iff_mem rfl
  refine ⟨(TxMove.served stmt rest hsome).handlerShape h.shape, ?_⟩
  intro hack hset
  rw [hnext] at hack hset
  show (execIrqStmt s.mac stmt).phyTxFinished = true
  rw [execIrqStmt_phyTxFinished]
  by_cases hstmt : stmt = .setTxFinished
  · simp [hstmt]
  · have hnot : ¬ ToRun s .setTxFinished := by
      rw [hrun]
      rintro (heq | hmem)
      · exact hstmt heq.symm
      · exact hset hmem
    rw [h.ack ((hrun _).mpr (Or.inr hack)) hnot, Bool.true_or]

theorem entered_serving {s : TxSystem} (h : TxServing s) (hnone : s.handler = none)
    (hany : s.mac.eir.any = true) :
    TxServing { s with handler := some (ethIRQHandlerStmts s.mac.eir) } := by
  have hmem := mem_ethIRQHandlerStmts_tx s.mac.eir
  refine ⟨(TxMove.entered hnone hany).handlerShape h.shape, ?_⟩
  rintro ⟨rest, hrest, hack⟩ hset
  cases hrest
  exact absurd ⟨_, rfl, hmem.left.mpr (hmem.right.mp hack)⟩ hset

theorem txStep_serving (s : TxSystem) (e : TxEvent) (h : TxServing s) :
    TxServing (txStep s e) := by
  have hmove := txStep_move s e
  generalize txStep s e = t at hmove
  cases hmove with
  | stay e => exact h
  | cleared p hnone hpc =>
      refine ⟨h.shape, ?_⟩
      intro hack
      exact absurd hack (not_toRun_of_none hnone _)
  | entered hnone hany => exact entered_serving h hnone hany
  | served stmt rest hsome => exact served_serving h hsome
  | left hsome =>
      refine ⟨(TxMove.left hsome).handlerShape h.shape, ?_⟩
      intro hack
      exact absurd hack (not_toRun_of_none rfl _)
  | _ => exact h.of_same rfl rfl

/-!
# The invariant
-/

structure TxLive (s : TxSystem) : Prop extends TxServing s where
  live : ¬ Starting s -> s.mac.phyTxFinished = true ∨ s.mac.txrts = true ∨
    s.mac.eir.txif = true ∨ ToRun s .setTxFinished

theorem txStart_live (L : EthLayout) (mac : EthMac) : TxLive (txStart L mac) where
  toTxServing := txStart_serving L mac
  live := by
    intro _
    exact Or.inl rfl

/-- Steps that leave the handler, the flag and the causes alone. -/
theorem TxLive.of_same {s t : TxSystem} (h : TxLive s)
    (hhandler : t.handler = s.handler)
    (hfinished : t.mac.phyTxFinished = s.mac.phyTxFinished)
    (htxrts : t.mac.txrts = s.mac.txrts) (heir : t.mac.eir = s.mac.eir)
    (hstarting : ¬ Starting s) : TxLive t where
  toTxServing := h.toTxServing.of_same hhandler hfinished
  live := by
    intro _
    unfold ToRun
    rw [hhandler, hfinished, htxrts, heir]
    exact h.live hstarting

theorem not_starting_of_pc {s : TxSystem} {pc : OutputPc} (h : s.pc = pc)
    (hne : forall p, pc ≠ .setTxrts p) : ¬ Starting s := by
  rintro ⟨p, hp⟩
  rw [h] at hp
  exact hne p hp

theorem served_live {s : TxSystem} (h : TxLive s) {stmt : IrqStmt}
    {rest : List IrqStmt} (hsome : s.handler = some (stmt :: rest)) :
    TxLive { s with mac := execIrqStmt s.mac stmt, handler := some rest } := by
  have hshape := h.shape _ hsome
  have hrun := toRun_cons hsome
  have hnext : forall stmt', ToRun { s with
      mac := execIrqStmt s.mac stmt, handler := some rest } stmt' <-> stmt' ∈ rest :=
    toRun_iff_mem rfl
  refine ⟨served_serving h.toTxServing hsome, ?_⟩
  intro hstarting
  rw [hnext]
  show (execIrqStmt s.mac stmt).phyTxFinished = true ∨
    (execIrqStmt s.mac stmt).txrts = true ∨ (execIrqStmt s.mac stmt).eir.txif = true ∨ _
  rw [execIrqStmt_phyTxFinished, execIrqStmt_txrts, execIrqStmt_txif]
  rcases h.live hstarting with hfinished | htxrts | htxif | hset
  · exact Or.inl (by simp [hfinished])
  · exact Or.inr (Or.inl htxrts)
  · by_cases hack : stmt = .ackTx
    · -- Acknowledging TXIF is harmless because the flag was set before it.
      have hnot : ¬ ToRun s .setTxFinished := by
        rw [hrun, hack]
        rintro (heq | hmem)
        · cases heq
        · exact hshape.right.left (Or.inr hack) hmem
      have hfinished := h.ack ((hrun _).mpr (Or.inl hack.symm)) hnot
      exact Or.inl (by simp [hfinished])
    · exact Or.inr (Or.inr (Or.inl (by simp [htxif, hack])))
  · rcases (hrun _).mp hset with heq | hmem
    · exact Or.inl (by simp [← heq])
    · exact Or.inr (Or.inr (Or.inr hmem))

theorem entered_live {s : TxSystem} (h : TxLive s) (hnone : s.handler = none)
    (hany : s.mac.eir.any = true) :
    TxLive { s with handler := some (ethIRQHandlerStmts s.mac.eir) } := by
  refine ⟨entered_serving h.toTxServing hnone hany, ?_⟩
  intro hstarting
  rcases h.live hstarting with hfinished | htxrts | htxif | hset
  · exact Or.inl hfinished
  · exact Or.inr (Or.inl htxrts)
  · exact Or.inr (Or.inr (Or.inl htxif))
  · exact absurd hset (not_toRun_of_none hnone _)

theorem raised_live {s : TxSystem} (h : TxLive s) {flags : Eir}
    (hok : EndsWithTxif s (.raise flags)) : TxLive (txStep s (.raise flags)) := by
  refine ⟨h.toTxServing.of_same rfl rfl, ?_⟩
  intro hstarting
  show s.mac.phyTxFinished = true ∨
    (s.mac.txrts && !(flags.txif || flags.txerif)) = true ∨
    (s.mac.eir.txif || flags.txif) = true ∨ ToRun s .setTxFinished
  rcases h.live hstarting with hfinished | htxrts | htxif | hset
  · exact Or.inl hfinished
  · have hend : flags.txerif = true -> flags.txif = true := hok htxrts
    cases htx : flags.txif with
    | true => simp
    | false =>
        cases herr : flags.txerif with
        | true => simp [hend herr] at htx
        | false => simp [htxrts]
  · exact Or.inr (Or.inr (Or.inl (by simp [htxif])))
  · exact Or.inr (Or.inr (Or.inr hset))

theorem txStep_live (s : TxSystem) (e : TxEvent) (h : TxLive s)
    (hok : EndsWithTxif s e) : TxLive (txStep s e) := by
  have hserving := txStep_serving s e h.toTxServing
  have hmove := txStep_move s e
  generalize htarget : txStep s e = t at hmove
  cases hmove with
  | stay e => exact h
  | called p hnone hpc => exact h.of_same rfl rfl rfl rfl (not_starting_of_pc hpc (by simp))
  | sent p hnone hpc hfinished =>
      exact h.of_same rfl rfl rfl rfl (not_starting_of_pc hpc (by simp))
  | tooLong p hnone hpc hlen =>
      exact h.of_same rfl rfl rfl rfl (not_starting_of_pc hpc (by simp))
  | fits p hnone hpc hlen =>
      exact h.of_same rfl rfl rfl rfl (not_starting_of_pc hpc (by simp))
  | copied p hnone hpc =>
      exact h.of_same rfl rfl rfl rfl (not_starting_of_pc hpc (by simp))
  | lengthSet p hnone hpc =>
      exact h.of_same rfl rfl rfl rfl (not_starting_of_pc hpc (by simp))
  | cleared p hnone hpc =>
      rw [htarget] at hserving
      refine ⟨hserving, ?_⟩
      intro hstarting
      exact absurd ⟨p, rfl⟩ hstarting
  | started p hnone hpc =>
      rw [htarget] at hserving
      refine ⟨hserving, ?_⟩
      intro _
      exact Or.inr (Or.inl rfl)
  | returnedOk p hnone hpc =>
      exact h.of_same rfl rfl rfl rfl (not_starting_of_pc hpc (by simp))
  | entered hnone hany => exact entered_live h hnone hany
  | served stmt rest hsome => exact served_live h hsome
  | left hsome =>
      rw [htarget] at hserving
      refine ⟨hserving, ?_⟩
      intro hstarting
      rcases h.live hstarting with hfinished | htxrts | htxif | hset
      · exact Or.inl hfinished
      · exact Or.inr (Or.inl htxrts)
      · exact Or.inr (Or.inr (Or.inl htxif))
      · exact absurd hset (not_toRun_of_nil hsome _)
  | raised flags =>
      rw [← htarget]
      exact raised_live h hok

/-!
# Serving the handler to its end
-/

/-- A handler run that is not interrupted, seen from the transmitter. -/
theorem run_handler {s : TxSystem} {rest : List IrqStmt} (h : s.handler = some rest) :
    let t := run txStep s (List.replicate (rest.length + 1) .irqStep)
    t.handler = none ∧ t.pc = s.pc ∧
      t.mac.phyTxFinished =
        (s.mac.phyTxFinished || decide (IrqStmt.setTxFinished ∈ rest)) ∧
      t.mac.eir.txif = (s.mac.eir.txif && !decide (IrqStmt.ackTx ∈ rest)) := by
  induction rest generalizing s with
  | nil =>
      simp [txStep, h]
  | cons stmt rest ih =>
      have hstep : txStep s .irqStep =
          { s with mac := execIrqStmt s.mac stmt, handler := some rest } := by
        simp only [txStep, h]
      have hrun := @ih { s with mac := execIrqStmt s.mac stmt, handler := some rest } rfl
      rw [List.length_cons, List.replicate_succ, run_cons, hstep]
      refine ⟨hrun.left, hrun.right.left, ?_, ?_⟩
      · rw [hrun.right.right.left, execIrqStmt_phyTxFinished, Bool.or_assoc]
        simp [eq_comm]
      · rw [hrun.right.right.right, execIrqStmt_txif, Bool.and_assoc]
        simp [eq_comm]

theorem handlerEvent_of_mem_replicate {n : Nat} {e : TxEvent}
    (h : e ∈ List.replicate n TxEvent.irqStep) : HandlerEvent e :=
  Or.inr (List.eq_of_mem_replicate h)

theorem exec_leaves_loop {s : TxSystem} {p : PbufChain} (hnone : s.handler = none)
    (hpc : s.pc = .waitSent p) (hfinished : s.mac.phyTxFinished = true) :
    (txStep s .exec).pc = .checkLen p := by
  simp [txStep, execOutput, hnone, hpc, hfinished]

/-- Handler events after which the flag is set and no handler runs end the wait. -/
theorem waitCanEnd_of_served {s : TxSystem} {hs : List TxEvent}
    (hevents : forall e, e ∈ hs -> HandlerEvent e)
    (hnone : (run txStep s hs).handler = none) (hpc : (run txStep s hs).pc = s.pc)
    (hfinished : (run txStep s hs).mac.phyTxFinished = true) : WaitCanEnd s := by
  refine ⟨hs, hevents, hfinished, ?_⟩
  intro p hwait
  rw [run_concat]
  exact exec_leaves_loop hnone (hpc.trans hwait) hfinished

/-- A pending TXIF is served by one handler run. -/
theorem run_handler_of_txif {s : TxSystem} (hnone : s.handler = none)
    (htxif : s.mac.eir.txif = true) :
    let hs := TxEvent.irqEnter ::
      List.replicate ((ethIRQHandlerStmts s.mac.eir).length + 1) .irqStep
    (run txStep s hs).handler = none ∧ (run txStep s hs).pc = s.pc ∧
      (run txStep s hs).mac.phyTxFinished = true := by
  have hany : s.mac.eir.any = true := by
    simp [Eir.any, htxif]
  have hstep : txStep s .irqEnter =
      { s with handler := some (ethIRQHandlerStmts s.mac.eir) } := by
    simp [txStep, hnone, hany]
  have hentered : (txStep s .irqEnter).handler =
      some (ethIRQHandlerStmts s.mac.eir) := by
    rw [hstep]
  have hrun := run_handler hentered
  have hset := (mem_ethIRQHandlerStmts_tx s.mac.eir).left.mpr htxif
  refine ⟨hrun.left, ?_, ?_⟩
  · rw [run_cons, hrun.right.left, hstep]
  · rw [run_cons, hrun.right.right.left, decide_eq_true hset, Bool.or_true]

theorem waitCanEnd_of_live {s : TxSystem} (h : TxLive s) (hstarting : ¬ Starting s)
    (htxrts : s.mac.txrts = false) : WaitCanEnd s := by
  have hlive : s.mac.phyTxFinished = true ∨ s.mac.eir.txif = true ∨
      ToRun s .setTxFinished := by
    rcases h.live hstarting with hfinished | hflight | hrest
    · exact Or.inl hfinished
    · rw [htxrts] at hflight
      cases hflight
    · exact Or.inr hrest
  have hevents : forall n e, e ∈ TxEvent.irqEnter :: List.replicate n .irqStep ->
      HandlerEvent e := by
    intro n e he
    rcases List.mem_cons.mp he with heq | hmem
    · exact Or.inl heq
    · exact handlerEvent_of_mem_replicate hmem
  cases hhandler : s.handler with
  | none =>
      rcases hlive with hfinished | htxif | hset
      · exact @waitCanEnd_of_served s [] (by simp) hhandler rfl hfinished
      · rcases run_handler_of_txif hhandler htxif with ⟨hnone, hpc, hdone⟩
        exact waitCanEnd_of_served (hevents _) hnone hpc hdone
      · exact absurd hset (not_toRun_of_none hhandler _)
  | some rest =>
      rcases run_handler hhandler with ⟨hnone, hpc, hdone, hleft⟩
      have hsteps : forall e, e ∈ List.replicate (rest.length + 1) TxEvent.irqStep ->
          HandlerEvent e := fun e he => handlerEvent_of_mem_replicate he
      by_cases hfinished : s.mac.phyTxFinished = true
      · exact waitCanEnd_of_served hsteps hnone hpc (by rw [hdone, hfinished, Bool.true_or])
      · by_cases hset : IrqStmt.setTxFinished ∈ rest
        · exact waitCanEnd_of_served hsteps hnone hpc
            (by rw [hdone, decide_eq_true hset, Bool.or_true])
        · -- TXIF was raised after the snapshot of this run; the next run serves it.
          have hnot : ¬ ToRun s .setTxFinished := by
            rw [toRun_iff_mem hhandler]
            exact hset
          have hack : IrqStmt.ackTx ∉ rest := by
            intro hmem
            exact hfinished (h.ack ⟨rest, hhandler, hmem⟩ hnot)
          have htxif : s.mac.eir.txif = true := by
            rcases hlive with hflag | htxif | hrun
            · exact absurd hflag hfinished
            · exact htxif
            · exact absurd hrun hnot
          rw [htxif, decide_eq_false hack] at hleft
          rcases run_handler_of_txif hnone hleft with ⟨hnone', hpc', hdone'⟩
          rw [← run_append] at hnone' hpc' hdone'
          refine waitCanEnd_of_served ?_ hnone' (hpc'.trans hpc) hdone'
          intro e he
          rcases List.mem_append.mp he with hfirst | hsecond
          · exact hsteps e hfirst
          · exact hevents _ e hsecond

theorem released_of_live {s : TxSystem} (h : TxLive s) :
    FlagHasCause s ∧ (¬ Starting s -> s.mac.txrts = false -> WaitCanEnd s) := by
  constructor
  · intro hstarting hcleared
    rcases h.live hstarting with hfinished | htxrts | htxif | hset
    · rw [hcleared] at hfinished
      cases hfinished
    · exact Or.inl htxrts
    · exact Or.inr (Or.inl htxif)
    · exact Or.inr (Or.inr (Or.inr (Or.inl hset)))
  · intro hstarting htxrts
    exact waitCanEnd_of_live h hstarting htxrts

/-!
# Runs
-/

/--
In every run in which no transmission ends with TXERIF alone, a cleared flag
has a cause in every state outside the two starting statements, and once the
MAC is done the wait loop can be left.
-/
theorem transmitter_released (L : EthLayout) (mac : EthMac) (es : List TxEvent)
    (hok : AllSteps txStep EndsWithTxif (txStart L mac) es) :
    let s := run txStep (txStart L mac) es
    FlagHasCause s ∧ (¬ Starting s -> s.mac.txrts = false -> WaitCanEnd s) :=
  released_of_live (run_invariant_of_allSteps txStep_live (txStart_live L mac) hok)

theorem transmitter_released_after_txif :
    let es := sendOneByte ++ [.raise Eir.tx]
    let s := run txStep (txStart EthLayout.lowest EthMac.blank) es
    AllSteps txStep EndsWithTxif (txStart EthLayout.lowest EthMac.blank) es ∧
      s.mac.phyTxFinished = false ∧
      FlagHasCause s ∧ (¬ Starting s -> s.mac.txrts = false -> WaitCanEnd s) := by
  intro es s
  have hok : AllSteps txStep EndsWithTxif (txStart EthLayout.lowest EthMac.blank) es := by
    simp [es, sendOneByte, List.replicate, AllSteps, EndsWithTxif, Eir.tx]
  exact ⟨hok, rfl,
    transmitter_released EthLayout.lowest EthMac.blank es hok⟩

/--
A TXIF repairs what went before it: after any run, also one in which transmissions
ended with TXERIF alone, the transmitter is released again from the next TXIF on.
-/
theorem transmitter_recovers (L : EthLayout) (mac : EthMac) (es fs : List TxEvent) (flags : Eir)
    (htxif : flags.txif = true)
    (hok : AllSteps txStep EndsWithTxif
      (run txStep (txStart L mac) (es ++ [.raise flags])) fs) :
    let s := run txStep (txStart L mac) (es ++ .raise flags :: fs)
    FlagHasCause s ∧ (¬ Starting s -> s.mac.txrts = false -> WaitCanEnd s) := by
  intro s
  have hraised : TxLive (run txStep (txStart L mac) (es ++ [.raise flags])) := by
    refine ⟨run_invariant txStep_serving (txStart_serving L mac) _, ?_⟩
    intro _
    have hpending : (run txStep (txStart L mac) (es ++ [.raise flags])).mac.eir.txif = true := by
      rw [run_concat]
      change ((run txStep (txStart L mac) es).mac.eir.txif || flags.txif) = true
      rw [htxif, Bool.or_true]
    exact Or.inr (Or.inr (Or.inl hpending))
  have hs : s = run txStep (run txStep (txStart L mac) (es ++ [.raise flags])) fs := by
    rw [← run_append, List.append_assoc]
    rfl
  rw [hs]
  exact released_of_live (run_invariant_of_allSteps txStep_live hraised hok)

theorem transmitter_recovers_after_txerif :
    let raised : Eir := { Eir.none with txerif := true }
    let handled : List TxEvent := [.irqEnter, .irqStep, .irqStep, .irqStep]
    let es := sendOneByte ++ .raise raised :: handled
    let s := run txStep (txStart EthLayout.lowest EthMac.blank) (es ++ .raise Eir.tx :: handled)
    (run txStep (txStart EthLayout.lowest EthMac.blank) es).mac.phyTxFinished = false ∧
      s.mac.phyTxFinished = true ∧
      FlagHasCause s ∧ (¬ Starting s -> s.mac.txrts = false -> WaitCanEnd s) := by
  intro raised handled es s
  have hok : AllSteps txStep EndsWithTxif
      (run txStep (txStart EthLayout.lowest EthMac.blank) (es ++ [.raise Eir.tx])) handled := by
    simp [handled, AllSteps, EndsWithTxif]
  exact ⟨rfl, rfl,
    transmitter_recovers EthLayout.lowest EthMac.blank es handled Eir.tx rfl hok⟩

/-- The error interrupt is served, the flag stays cleared and the next call waits for good. -/
theorem transmitter_stuck_after_txerif :
    let raised : Eir := { Eir.none with txerif := true }
    let s := run txStep (txStart EthLayout.lowest EthMac.blank)
      (sendOneByte ++ [.raise raised, .irqEnter, .irqStep, .irqStep, .irqStep])
    ¬ FlagHasCause s ∧
      forall n, (run txStep s (.call oneByte :: List.replicate n .exec)).pc =
        .waitSent oneByte := by
  intro raised s
  have hpc : s.pc = .outside := rfl
  have hhandler : s.handler = none := rfl
  have hcleared : s.mac.phyTxFinished = false := rfl
  constructor
  · intro hcause
    rcases hcause (not_starting_of_pc hpc (by simp)) hcleared with
      htxrts | htxif | htxerif | hset | herr
    · cases htxrts
    · cases htxif
    · cases htxerif
    · exact not_toRun_of_none hhandler _ hset
    · exact not_toRun_of_none hhandler _ herr
  · intro n
    have hcall : txStep s (.call oneByte) = { s with pc := .waitSent oneByte } := rfl
    have hspin : txStep { s with pc := .waitSent oneByte } .exec =
        { s with pc := .waitSent oneByte } := rfl
    rw [run_cons, hcall]
    induction n with
    | zero => rfl
    | succ n ih =>
        rw [List.replicate_succ, run_cons, hspin]
        exact ih

end Net
end Ch579HttpLed
