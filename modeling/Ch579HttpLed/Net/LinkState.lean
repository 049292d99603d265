import Ch579HttpLed.Net.Lwipcomm

/-!
# Agreement of the link states

After a polling call the interface flag should say what the poll has read.  The
flag starts as up while `last_phy_link_state` starts as down, and a call writes
the flag only on a difference to the latter.  So a first reading of a link that
is down goes unnoticed, and every run agrees exactly if its first reading is up.
-/

namespace Ch579HttpLed
namespace Net

open Driver Foundation

/-- A call of `lwip_periodic_handle` with the tick it reads and the register it would read. -/
structure PeriodicCall where
  time : UInt32
  phyReg : UInt16

def periodicStep (s : LwipComm) (c : PeriodicCall) : LwipComm :=
  (lwipPeriodicHandle c.time c.phyReg s).2

/-- The reading of a call that polls. -/
def polledReading (s : LwipComm) (c : PeriodicCall) : Option Bool :=
  (lwipPeriodicHandle c.time c.phyReg s).1.map (fun phyLinkState => phyLinkState ≠ 0)

theorem polledReading_eq (s : LwipComm) (c : PeriodicCall) :
    polledReading s c = if Polls c.time s then some (linkIsUp c.phyReg) else none := by
  unfold polledReading
  rw [lwipPeriodicHandle_reading]
  split
  · cases linkIsUp c.phyReg <;> rfl
  · rfl

def polledReadings : LwipComm -> List PeriodicCall -> List Bool :=
  observed periodicStep polledReading

def commStart (gpio : GpioB) : LwipComm :=
  (lwipCommInit true (LwipComm.powerOn gpio)).2

/-- The interface flag and `g_eth_phy_link_state` both say `up`. -/
def Agrees (s : LwipComm) (up : Bool) : Prop :=
  s.netif.linkUp = up ∧ s.gEthPhyLinkState = linkByte up

def PollAgrees (s : LwipComm) (c : PeriodicCall) : Prop :=
  Polls c.time s -> Agrees (periodicStep s c) (linkIsUp c.phyReg)

/-!
# States before and after the first notice

`LinkCopies` fixes the interface flag and the previous reading.  They differ
after the initialisation and never again after a reading of a link that is up.
-/

def LinkCopies (flag last : Bool) (s : LwipComm) : Prop :=
  s.netif.linkUp = flag ∧ s.lastPhyLinkState = linkByte last

theorem commStart_linkCopies (gpio : GpioB) :
    LinkCopies true false (commStart gpio) :=
  ⟨rfl, rfl⟩

theorem periodicStep_quiet {flag last : Bool} {s : LwipComm} {c : PeriodicCall}
    (h : LinkCopies flag last s) (hquiet : ¬ Polls c.time s) :
    LinkCopies flag last (periodicStep s c) := by
  unfold periodicStep
  rcases lwipPeriodicHandle_quiet hquiet c.phyReg with ⟨timestamp, heq⟩
  rw [heq]
  exact h

theorem periodicStep_polls {flag last : Bool} {s : LwipComm} {c : PeriodicCall}
    (h : LinkCopies flag last s) (hpolls : Polls c.time s) :
    LinkCopies (if linkIsUp c.phyReg = last then flag else linkIsUp c.phyReg)
        (linkIsUp c.phyReg) (periodicStep s c) ∧
      (periodicStep s c).gEthPhyLinkState = linkByte (linkIsUp c.phyReg) := by
  rcases lwipPeriodicHandle_polls hpolls c.phyReg h.right with
    ⟨hglobal, hlast, hflag, -⟩
  rw [h.left] at hflag
  exact ⟨⟨hflag, hlast⟩, hglobal⟩

/-- Once the copies are equal, every later poll agrees. -/
theorem allSteps_pollAgrees_of_equal {up : Bool} {s : LwipComm}
    (h : LinkCopies up up s) (es : List PeriodicCall) :
    AllSteps periodicStep PollAgrees s es := by
  induction es generalizing s up with
  | nil => exact True.intro
  | cons c es ih =>
      by_cases hpolls : Polls c.time s
      · rcases periodicStep_polls h hpolls with ⟨hcopies, hglobal⟩
        have hflag : (if linkIsUp c.phyReg = up then up else linkIsUp c.phyReg) =
            linkIsUp c.phyReg := by
          split
          · next heq => exact heq.symm
          · rfl
        rw [hflag] at hcopies
        exact ⟨fun _ => ⟨hcopies.left, hglobal⟩, ih hcopies⟩
      · exact ⟨fun hyes => absurd hyes hpolls, ih (periodicStep_quiet h hpolls)⟩

/-- Before the first notice, the first reading decides about the whole run. -/
theorem allSteps_pollAgrees_iff {s : LwipComm} (h : LinkCopies true false s)
    (es : List PeriodicCall) :
    AllSteps periodicStep PollAgrees s es <->
      (polledReadings s es).head? ≠ some false := by
  induction es generalizing s with
  | nil => simp [AllSteps, polledReadings, observed]
  | cons c es ih =>
      unfold polledReadings at ih ⊢
      rw [AllSteps, observed]
      by_cases hpolls : Polls c.time s
      · rcases periodicStep_polls h hpolls with ⟨hcopies, hglobal⟩
        rw [polledReading_eq, if_pos hpolls]
        cases hup : linkIsUp c.phyReg with
        | true =>
            rw [hup] at hcopies hglobal
            have hagree : PollAgrees s c := by
              intro _
              rw [hup]
              exact ⟨hcopies.left, hglobal⟩
            simp [hagree, allSteps_pollAgrees_of_equal hcopies]
        | false =>
            rw [hup] at hcopies
            have hdisagree : ¬ PollAgrees s c := by
              intro hagree
              have hflag := (hagree hpolls).left
              rw [hup, hcopies.left] at hflag
              cases hflag
            simp [hdisagree]
      · have hagree : PollAgrees s c := fun hyes => absurd hyes hpolls
        rw [ih (periodicStep_quiet h hpolls), polledReading_eq, if_neg hpolls]
        simp [hagree]

/-- From the initialisation, all polls of a run agree exactly if the first one, if any, reads up. -/
theorem linkFlag_agrees_iff (gpio : GpioB) (es : List PeriodicCall) :
    AllSteps periodicStep PollAgrees (commStart gpio) es <->
      (polledReadings (commStart gpio) es).head? ≠ some false :=
  allSteps_pollAgrees_iff (commStart_linkCopies gpio) es

/-- With the cable unplugged at start-up the first poll leaves the interface up. -/
theorem linkFlag_disagrees_at_start :
    let c : PeriodicCall := ⟨50, 0⟩
    Polls c.time (commStart GpioB.reset) ∧ linkIsUp c.phyReg = false ∧
      (periodicStep (commStart GpioB.reset) c).netif.linkUp = true ∧
      ¬ AllSteps periodicStep PollAgrees (commStart GpioB.reset) [c] := by
  intro c
  have hpolls : Polls c.time (commStart GpioB.reset) := by decide
  have hflag : (periodicStep (commStart GpioB.reset) c).netif.linkUp = true := by decide
  refine ⟨hpolls, by decide, hflag, ?_⟩
  intro hall
  have hagree := (hall.left hpolls).left
  rw [hflag] at hagree
  exact absurd hagree (by decide)

end Net
end Ch579HttpLed
