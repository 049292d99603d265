import Ch579HttpLed.Net.Transmit

/-!
# Acknowledging interrupt flags

`ETH_IRQHandler` reads `R8_ETH_EIR` once and clears flags at several later
points.  The write of the error branch clears both error flags, whichever of
them was read, and every write also clears a flag that the MAC raised again
after the read.  This module follows the flags TXIF, TXERIF and RXERIF through
runs of handler, foreground and MAC, and asks that a flag is cleared only if the
read has seen everything that raised it.
-/

namespace Ch579HttpLed
namespace Net

open Foundation

/-!
# The flags of transmit completion and errors
-/

inductive EventFlag where
  | txif
  | txerif
  | rxerif
deriving DecidableEq, Repr

namespace EventFlag

def get : EventFlag -> Eir -> Bool
  | txif, r => r.txif
  | txerif, r => r.txerif
  | rxerif, r => r.rxerif

/-- What the handler does for the flag before it acknowledges it. -/
def branch : EventFlag -> IrqStmt
  | txif => .setTxFinished
  | txerif => .errDeal
  | rxerif => .errDeal

/-- The write that clears the flag. -/
def ackStmt : EventFlag -> IrqStmt
  | txif => .ackTx
  | txerif => .ackErr
  | rxerif => .ackErr

end EventFlag

section Flags

variable (f : EventFlag)

theorem get_none_ne_true : f.get Eir.none ≠ true := by
  cases f <;> nofun

theorem get_raise (r flags : Eir) : f.get (r.raise flags) = (f.get r || f.get flags) := by
  cases f <;> rfl

/-- Only its own write clears a flag. -/
theorem get_execIrqStmt (s : EthMac) (stmt : IrqStmt) :
    f.get (execIrqStmt s stmt).eir = (f.get s.eir && !decide (stmt = f.ackStmt)) := by
  cases stmt with
  | recvFrame =>
      change f.get (recvFrame s).eir = _
      rw [(recvFrame_tx s).right]
      cases f <;> simp [EventFlag.ackStmt]
  | _ =>
      cases f <;>
        simp [execIrqStmt, EventFlag.get, EventFlag.ackStmt, Eir.ack, Eir.rx, Eir.link,
          Eir.tx, Eir.err, Eir.none]

/-- A flag that was read has its branch run. -/
theorem branch_mem_of_get {flags : Eir} (h : f.get flags = true) :
    f.branch ∈ ethIRQHandlerStmts flags := by
  cases f with
  | txif =>
      have hflag : flags.txif = true := h
      simp [ethIRQHandlerStmts, EventFlag.branch, hflag]
  | txerif =>
      have hflag : flags.txerif = true := h
      simp [ethIRQHandlerStmts, EventFlag.branch, hflag]
  | rxerif =>
      have hflag : flags.rxerif = true := h
      simp [ethIRQHandlerStmts, EventFlag.branch, hflag]

theorem any_of_get {flags : Eir} (h : f.get flags = true) : flags.any = true := by
  cases f <;> simp_all [EventFlag.get, Eir.any]

/-- The branch of the flag stands before the first write that clears it. -/
def BranchBefore : List IrqStmt -> Prop
  | [] => True
  | stmt :: rest => stmt ≠ f.ackStmt ∧ (stmt = f.branch ∨ BranchBefore rest)

theorem ethIRQHandlerStmts_branchBefore (flags : Eir) :
    BranchBefore f (ethIRQHandlerStmts flags) := by
  unfold ethIRQHandlerStmts
  cases f <;> cases flags.rxif <;> cases flags.linkif <;> cases flags.txif <;>
    cases (flags.txerif || flags.rxerif) <;>
    simp [BranchBefore, EventFlag.ackStmt, EventFlag.branch]

end Flags

/-!
# Observing an invocation

The observer records the snapshot of the last invocation, what the MAC raised
since then, and the statements the invocation has run.
-/

structure AckSystem where
  tx : TxSystem
  snapshot : Eir
  fresh : Eir
  ran : List IrqStmt

def ackStep (s : AckSystem) (e : TxEvent) : AckSystem :=
  let s' := { s with tx := txStep s.tx e }
  match e, s.tx.handler with
  | .irqEnter, none =>
      if s.tx.mac.eir.any then
        { s' with snapshot := s.tx.mac.eir, fresh := Eir.none, ran := [] }
      else s'
  | .irqStep, some (stmt :: _) => { s' with ran := s.ran ++ [stmt] }
  | .raise flags, _ => { s' with fresh := s.fresh.raise flags }
  | _, _ => s'

def ackStart (L : EthLayout) (mac : EthMac) : AckSystem :=
  ⟨txStart L mac, Eir.none, Eir.none, []⟩

theorem ackStep_tx (s : AckSystem) (e : TxEvent) :
    (ackStep s e).tx = txStep s.tx e := by
  unfold ackStep
  split
  · split <;> rfl
  · rfl
  · rfl
  · rfl

/-- The observer does not disturb the run. -/
theorem run_ackStep_tx (s : AckSystem) (es : List TxEvent) :
    (run ackStep s es).tx = run txStep s.tx es := by
  induction es generalizing s with
  | nil => rfl
  | cons e es ih =>
      rw [run_cons, run_cons, ih, ackStep_tx]

/-!
# What a step does to the flags
-/

inductive AckMove (s : AckSystem) : TxEvent -> AckSystem -> Prop where
  | quiet (e : TxEvent) (tx : TxSystem) (hhandler : tx.handler = s.tx.handler)
      (heir : tx.mac.eir = s.tx.mac.eir) : AckMove s e { s with tx := tx }
  | entered (hnone : s.tx.handler = none) :
      AckMove s .irqEnter
        { tx := { s.tx with handler := some (ethIRQHandlerStmts s.tx.mac.eir) }
          snapshot := s.tx.mac.eir
          fresh := Eir.none
          ran := [] }
  | served (stmt : IrqStmt) (rest : List IrqStmt)
      (hsome : s.tx.handler = some (stmt :: rest)) :
      AckMove s .irqStep
        { s with
          tx := { s.tx with mac := execIrqStmt s.tx.mac stmt, handler := some rest }
          ran := s.ran ++ [stmt] }
  | left (hsome : s.tx.handler = some []) :
      AckMove s .irqStep { s with tx := { s.tx with handler := none } }
  | raised (flags : Eir) :
      AckMove s (.raise flags)
        { s with tx := txStep s.tx (.raise flags), fresh := s.fresh.raise flags }

/-- The foreground touches neither the flags nor the handler. -/
theorem execOutput_flags (s : TxSystem) :
    (execOutput s).handler = s.handler ∧ (execOutput s).mac.eir = s.mac.eir := by
  unfold execOutput
  cases s.pc with
  | waitSent p =>
      simp only
      split <;> exact ⟨rfl, rfl⟩
  | checkLen p =>
      simp only
      split <;> exact ⟨rfl, rfl⟩
  | _ => exact ⟨rfl, rfl⟩

theorem ackStep_move (s : AckSystem) (e : TxEvent) : AckMove s e (ackStep s e) := by
  cases e with
  | call p =>
      apply AckMove.quiet <;> simp only [txStep] <;> split <;> rfl
  | exec =>
      apply AckMove.quiet <;> simp only [txStep] <;> split
      · exact (execOutput_flags s.tx).left
      · rfl
      · exact (execOutput_flags s.tx).right
      · rfl
  | irqEnter =>
      cases hhandler : s.tx.handler with
      | none =>
          by_cases hany : s.tx.mac.eir.any = true
          · simp only [ackStep, txStep, hhandler, if_pos hany]
            exact AckMove.entered hhandler
          · simp only [ackStep, txStep, hhandler, if_neg hany]
            exact AckMove.quiet _ s.tx rfl rfl
      | some rest =>
          simp only [ackStep, txStep, hhandler]
          exact AckMove.quiet _ s.tx rfl rfl
  | irqStep =>
      cases hhandler : s.tx.handler with
      | none =>
          simp only [ackStep, txStep, hhandler]
          exact AckMove.quiet _ s.tx rfl rfl
      | some stmts =>
          cases stmts with
          | nil =>
              simp only [ackStep, txStep, hhandler]
              exact AckMove.left hhandler
          | cons stmt rest =>
              simp only [ackStep, txStep, hhandler]
              exact AckMove.served stmt rest hhandler
  | raise flags => exact AckMove.raised flags

/-!
# Nothing is acknowledged unseen
-/

/--
A flag is cleared only by an invocation that read it, with no event for it since
the read and with its branch run.  An event after the read stays pending until
the next invocation, which reads every pending flag and runs its branch.
-/
structure SeenWhenCleared (s : AckSystem) (e : TxEvent) : Prop where
  cleared : forall f : EventFlag, f.get s.tx.mac.eir = true ->
    f.get (ackStep s e).tx.mac.eir = false ->
    f.get s.snapshot = true ∧ f.get s.fresh = false ∧ f.branch ∈ s.ran
  kept : forall f : EventFlag, f.get s.fresh = true -> f.get s.tx.mac.eir = true
  served : forall f : EventFlag, s.tx.handler = none -> e = .irqEnter ->
    f.get s.tx.mac.eir = true ->
    f.get (ackStep s e).snapshot = true ∧ ToRun (ackStep s e).tx f.branch

/-- The MAC raises no flag whose acknowledge is still to come in this invocation. -/
def NoLateRaise (s : AckSystem) : TxEvent -> Prop
  | .raise flags => forall f : EventFlag, f.get flags = true -> ¬ ToRun s.tx f.ackStmt
  | _ => True

/-!
# Runs without a late event
-/

structure AckInv (s : AckSystem) : Prop where
  fresh_pending : forall f : EventFlag, f.get s.fresh = true -> f.get s.tx.mac.eir = true
  fresh_acked : forall f : EventFlag, f.get s.fresh = true -> ¬ ToRun s.tx f.ackStmt
  seen : forall f : EventFlag, s.tx.handler ≠ none -> f.get s.tx.mac.eir = true ->
    f.get s.snapshot = true ∨ f.get s.fresh = true
  branch : forall (f : EventFlag) stmts, s.tx.handler = some stmts ->
    f.branch ∈ s.ran ∨ BranchBefore f stmts

theorem ackStart_inv (L : EthLayout) (mac : EthMac) : AckInv (ackStart L mac) where
  fresh_pending := by
    intro f hfresh
    exact absurd hfresh (get_none_ne_true f)
  fresh_acked := by
    intro f hfresh
    exact absurd hfresh (get_none_ne_true f)
  seen := by
    intro f hhandler
    exact absurd rfl hhandler
  branch := by
    intro f stmts hhandler
    cases hhandler

theorem toRun_congr {s t : TxSystem} (h : t.handler = s.handler) (stmt : IrqStmt) :
    ToRun t stmt <-> ToRun s stmt := by
  unfold ToRun
  rw [h]

theorem AckInv.of_same {s : AckSystem} (h : AckInv s) {tx : TxSystem}
    (hhandler : tx.handler = s.tx.handler) (heir : tx.mac.eir = s.tx.mac.eir) :
    AckInv { s with tx := tx } where
  fresh_pending := by
    intro f hfresh
    rw [heir]
    exact h.fresh_pending f hfresh
  fresh_acked := by
    intro f hfresh
    rw [toRun_congr hhandler]
    exact h.fresh_acked f hfresh
  seen := by
    intro f hsome hpending
    rw [heir] at hpending
    rw [hhandler] at hsome
    exact h.seen f hsome hpending
  branch := by
    intro f stmts hsome
    rw [hhandler] at hsome
    exact h.branch f stmts hsome

theorem entered_inv (s : AckSystem) :
    AckInv
      { tx := { s.tx with handler := some (ethIRQHandlerStmts s.tx.mac.eir) }
        snapshot := s.tx.mac.eir
        fresh := Eir.none
        ran := [] } where
  fresh_pending := by
    intro f hfresh
    exact absurd hfresh (get_none_ne_true f)
  fresh_acked := by
    intro f hfresh
    exact absurd hfresh (get_none_ne_true f)
  seen := by
    intro f _ hpending
    exact Or.inl hpending
  branch := by
    intro f stmts hsome
    cases hsome
    exact Or.inr (ethIRQHandlerStmts_branchBefore f _)

theorem left_inv {s : AckSystem} (h : AckInv s) :
    AckInv { s with tx := { s.tx with handler := none } } where
  fresh_pending := h.fresh_pending
  fresh_acked := by
    intro f _
    exact not_toRun_of_none rfl _
  seen := by
    intro f hnone
    exact absurd rfl hnone
  branch := by
    intro f stmts hnone
    cases hnone

theorem served_inv {s : AckSystem} (h : AckInv s) {stmt : IrqStmt}
    {rest : List IrqStmt} (hsome : s.tx.handler = some (stmt :: rest)) :
    AckInv
      { s with
        tx := { s.tx with mac := execIrqStmt s.tx.mac stmt, handler := some rest }
        ran := s.ran ++ [stmt] } where
  fresh_pending := by
    intro f hfresh
    have hack : stmt ≠ f.ackStmt := by
      intro heq
      apply h.fresh_acked f hfresh
      exact (toRun_cons hsome f.ackStmt).mpr (Or.inl heq.symm)
    rw [get_execIrqStmt, h.fresh_pending f hfresh, decide_eq_false hack]
    rfl
  fresh_acked := by
    intro f hfresh hrun
    apply h.fresh_acked f hfresh
    exact (toRun_cons hsome f.ackStmt).mpr (Or.inr ((toRun_iff_mem rfl _).mp hrun))
  seen := by
    intro f _ hpending
    rw [get_execIrqStmt, Bool.and_eq_true] at hpending
    exact h.seen f (by rw [hsome]; nofun) hpending.left
  branch := by
    intro f stmts hrest
    cases hrest
    rcases h.branch f _ hsome with hran | hbefore
    · exact Or.inl (List.mem_append_left _ hran)
    · rcases hbefore.right with hbranch | hlater
      · apply Or.inl
        rw [hbranch]
        exact List.mem_append_right _ (List.mem_singleton.mpr rfl)
      · exact Or.inr hlater

theorem raised_inv {s : AckSystem} (h : AckInv s) {flags : Eir}
    (hlate : NoLateRaise s (.raise flags)) :
    AckInv { s with tx := txStep s.tx (.raise flags), fresh := s.fresh.raise flags } where
  fresh_pending := by
    intro f hfresh
    change f.get (s.tx.mac.eir.raise flags) = true
    rw [get_raise, Bool.or_eq_true] at hfresh ⊢
    exact hfresh.imp_left (h.fresh_pending f)
  fresh_acked := by
    intro f hfresh
    rw [get_raise, Bool.or_eq_true] at hfresh
    rcases hfresh with hold | hnew
    · exact h.fresh_acked f hold
    · exact hlate f hnew
  seen := by
    intro f hsome hpending
    change f.get (s.tx.mac.eir.raise flags) = true at hpending
    rw [get_raise, Bool.or_eq_true] at hpending ⊢
    rcases hpending with hold | hnew
    · exact (h.seen f hsome hold).imp_right Or.inl
    · exact Or.inr (Or.inr hnew)
  branch := h.branch

theorem AckMove.inv {s t : AckSystem} {e : TxEvent} (hmove : AckMove s e t)
    (h : AckInv s) (hlate : NoLateRaise s e) : AckInv t := by
  cases hmove with
  | quiet _ tx hhandler heir => exact h.of_same hhandler heir
  | entered hnone => exact entered_inv s
  | served stmt rest hsome => exact served_inv h hsome
  | left hsome => exact left_inv h
  | raised flags => exact raised_inv h hlate

/-- Before a flag is cleared its branch has run. -/
theorem AckInv.branch_ran {s : AckSystem} (h : AckInv s) {f : EventFlag}
    {rest : List IrqStmt} (hsome : s.tx.handler = some (f.ackStmt :: rest)) :
    f.branch ∈ s.ran := by
  rcases h.branch f _ hsome with hran | hbefore
  · exact hran
  · exact absurd rfl hbefore.left

theorem AckInv.sound {s : AckSystem} (h : AckInv s) (e : TxEvent) :
    SeenWhenCleared s e where
  cleared := by
    intro f hpending hgone
    have hmove := ackStep_move s e
    generalize ackStep s e = t at hmove hgone
    cases hmove with
    | quiet _ tx hhandler heir =>
        rw [heir, hpending] at hgone
        cases hgone
    | entered hnone =>
        rw [hpending] at hgone
        cases hgone
    | served stmt rest hsome =>
        rw [get_execIrqStmt, hpending, Bool.true_and] at hgone
        have hack : stmt = f.ackStmt := by
          simpa using hgone
        rw [hack] at hsome
        have hnotfresh : f.get s.fresh ≠ true := by
          intro hfresh
          apply h.fresh_acked f hfresh
          exact (toRun_cons hsome f.ackStmt).mpr (Or.inl rfl)
        rcases h.seen f (by rw [hsome]; nofun) hpending with hseen | hfresh
        · exact ⟨hseen, Bool.eq_false_iff.mpr hnotfresh, h.branch_ran hsome⟩
        · exact absurd hfresh hnotfresh
    | left hsome =>
        rw [hpending] at hgone
        cases hgone
    | raised flags =>
        change f.get (s.tx.mac.eir.raise flags) = false at hgone
        rw [get_raise, hpending] at hgone
        cases hgone
  kept := h.fresh_pending
  served := by
    intro f hnone henter hpending
    subst henter
    have hany : s.tx.mac.eir.any = true := any_of_get f hpending
    simp only [ackStep, txStep, hnone, if_pos hany]
    exact ⟨hpending, (toRun_iff_mem rfl _).mpr (branch_mem_of_get f hpending)⟩

theorem ackRun_sound {s : AckSystem} (h : AckInv s) {es : List TxEvent}
    (hlate : AllSteps ackStep NoLateRaise s es) :
    AllSteps ackStep SeenWhenCleared s es := by
  induction es generalizing s with
  | nil => exact True.intro
  | cons e es ih =>
      have hinv : AckInv (ackStep s e) := (ackStep_move s e).inv h hlate.left
      exact ⟨h.sound e, ih hinv hlate.right⟩

/-!
# A late event is lost

An event for a flag that the running invocation will still acknowledge waits for
that write.  Every step leaves it there or clears it.
-/

def Doomed (f : EventFlag) (s : AckSystem) : Prop :=
  f.get s.fresh = true ∧ f.get s.tx.mac.eir = true ∧ ToRun s.tx f.ackStmt

theorem ackStep_doomed {f : EventFlag} (s : AckSystem) (e : TxEvent)
    (h : Doomed f s) (hsound : SeenWhenCleared s e) : Doomed f (ackStep s e) := by
  rcases h with ⟨hfresh, hpending, hrun⟩
  have hmove := ackStep_move s e
  have hcleared := hsound.cleared f hpending
  generalize ackStep s e = t at hmove hcleared
  cases hmove with
  | quiet _ tx hhandler heir =>
      refine ⟨hfresh, ?_, ?_⟩
      · rw [heir]
        exact hpending
      · rw [toRun_congr hhandler]
        exact hrun
  | entered hnone => exact absurd hrun (not_toRun_of_none hnone _)
  | served stmt rest hsome =>
      by_cases hack : stmt = f.ackStmt
      · have hgone : f.get (execIrqStmt s.tx.mac stmt).eir = false := by
          rw [get_execIrqStmt, decide_eq_true hack, Bool.not_true, Bool.and_false]
        rw [(hcleared hgone).right.left] at hfresh
        cases hfresh
      · refine ⟨hfresh, ?_, ?_⟩
        · rw [get_execIrqStmt, hpending, decide_eq_false hack]
          rfl
        · rcases (toRun_cons hsome f.ackStmt).mp hrun with heq | hrest
          · exact absurd heq.symm hack
          · exact (toRun_iff_mem rfl _).mpr hrest
  | left hsome => exact absurd hrun (not_toRun_of_nil hsome _)
  | raised flags =>
      refine ⟨?_, ?_, hrun⟩
      · rw [get_raise, hfresh]
        rfl
      · change f.get (s.tx.mac.eir.raise flags) = true
        rw [get_raise, hpending]
        rfl

theorem doomed_of_late {f : EventFlag} {s : AckSystem} {flags : Eir}
    (hraised : f.get flags = true) (hrun : ToRun s.tx f.ackStmt) :
    Doomed f (ackStep s (.raise flags)) := by
  refine ⟨?_, ?_, hrun⟩
  · change f.get (s.fresh.raise flags) = true
    rw [get_raise, hraised, Bool.or_true]
  · change f.get (s.tx.mac.eir.raise flags) = true
    rw [get_raise, hraised, Bool.or_true]

theorem noLateRaise_of_sound {s : AckSystem} {es : List TxEvent}
    (hend : (run ackStep s es).tx.handler = none)
    (hsound : AllSteps ackStep SeenWhenCleared s es) :
    AllSteps ackStep NoLateRaise s es := by
  induction es generalizing s with
  | nil => exact True.intro
  | cons e es ih =>
      constructor
      · cases e with
        | raise flags =>
            intro f hraised hrun
            have hlost := run_invariant_of_allSteps ackStep_doomed
              (doomed_of_late hraised hrun) hsound.right
            exact not_toRun_of_none hend _ hlost.right.right
        | _ => exact True.intro
      · exact ih hend hsound.right

/--
In every run from the initialisers without a late event, nothing is acknowledged
unseen.  In every run that ends outside the handler this condition is also
necessary: each late event has been cleared by the invocation it interrupted.
-/
theorem irqAck_seen_iff (L : EthLayout) (mac : EthMac) (es : List TxEvent) :
    (AllSteps ackStep NoLateRaise (ackStart L mac) es ->
      AllSteps ackStep SeenWhenCleared (ackStart L mac) es) ∧
    ((run ackStep (ackStart L mac) es).tx.handler = none ->
      (AllSteps ackStep SeenWhenCleared (ackStart L mac) es <->
        AllSteps ackStep NoLateRaise (ackStart L mac) es)) := by
  constructor
  · exact ackRun_sound (ackStart_inv L mac)
  · intro hend
    constructor
    · exact noLateRaise_of_sound hend
    · exact ackRun_sound (ackStart_inv L mac)

/-- A transmit error during the report of a reception error is acknowledged with it. -/
theorem irqAck_clears_unseen :
    let before := run ackStep (ackStart EthLayout.lowest EthMac.blank)
      [.raise { Eir.none with rxerif := true }, .irqEnter, .irqStep,
        .raise { Eir.none with txerif := true }]
    before.snapshot.txerif = false ∧ before.tx.mac.eir.txerif = true ∧
      (ackStep before .irqStep).tx.mac.eir.txerif = false ∧
      ¬ AllSteps ackStep SeenWhenCleared (ackStart EthLayout.lowest EthMac.blank)
        [.raise { Eir.none with rxerif := true }, .irqEnter, .irqStep,
          .raise { Eir.none with txerif := true }, .irqStep] := by
  intro before
  have hread : before.snapshot.txerif = false := rfl
  have hpending : before.tx.mac.eir.txerif = true := rfl
  have hgone : (ackStep before .irqStep).tx.mac.eir.txerif = false := rfl
  refine ⟨hread, hpending, hgone, ?_⟩
  intro hall
  have hstep : SeenWhenCleared before .irqStep := hall.right.right.right.right.left
  have hseen : before.snapshot.txerif = true :=
    (hstep.cleared .txerif hpending hgone).left
  rw [hread] at hseen
  cases hseen

end Net
end Ch579HttpLed
