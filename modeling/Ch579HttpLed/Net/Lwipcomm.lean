import Ch579HttpLed.Foundation.Runs
import Ch579HttpLed.Net.StatusLed

/-!
# Polling the link

Model of `lwip_comm_init` and `lwip_periodic_handle` in `Net/src/lwipcomm.c`
with the PHY access they use.  Three copies of the link state are kept: the flag
of the interface, `g_eth_phy_link_state` and the static `last_phy_link_state`.
The flag and the green LED are only written when a reading differs from the
previous one.
-/

namespace Ch579HttpLed
namespace Net

open Driver Foundation

/-- The flags of `lwip_netif` that the firmware touches. -/
structure NetifFlags where
  up : Bool
  broadcast : Bool
  linkUp : Bool
  etharp : Bool
deriving DecidableEq, Repr

def netifSetUp (flags : NetifFlags) : NetifFlags :=
  { flags with up := true }

def netifSetLinkUp (flags : NetifFlags) : NetifFlags :=
  { flags with linkUp := true }

def netifSetLinkDown (flags : NetifFlags) : NetifFlags :=
  { flags with linkUp := false }

structure LwipComm where
  netif : NetifFlags
  gEthPhyLinkState : UInt8
  phyflag : UInt8
  lastTimestamp : UInt32     -- static of lwip_periodic_handle
  lastPhyLinkState : UInt8   -- static of lwip_periodic_handle
  ethMiwr : UInt32           -- R32_ETH_MIWR
  gpio : GpioB

/-- Static storage at power-on. -/
def LwipComm.powerOn (gpio : GpioB) : LwipComm where
  netif := ⟨false, false, false, false⟩
  gEthPhyLinkState := 0
  phyflag := 0
  lastTimestamp := 0
  lastPhyLinkState := 0
  ethMiwr := 0
  gpio := gpio

/-!
# Initialisation

`netif_add` clears the flags and fails only if `ethernetif_init` finds no
memory; otherwise `low_level_init` sets them, with the link marked as up before
the PHY was ever read.
-/

def lowLevelInitFlags : NetifFlags :=
  { up := false, broadcast := true, linkUp := true, etharp := true }

def lwipCommInit (memMalloc : Bool) (s : LwipComm) : UInt8 × LwipComm :=
  let s := { s with gpio := ethStatusLedInit s.gpio }
  let s := { s with netif := ⟨false, false, false, false⟩ }
  if memMalloc then
    let s := { s with netif := lowLevelInitFlags }
    let s := { s with netif := netifSetUp s.netif }
    (0, { s with netif := netifSetLinkUp s.netif })
  else (4, s)

/-!
# The periodic handler

A call reads the tick counter and, when it polls, the basic mode status register
of the PHY.  While the link is down the polarity of the PHY is toggled.  A call
answers with what `GetPhyLinkState` returned to it, if it got that far.
-/

def phyBmsr : UInt8 := 0x01

/-- `ReadPHYRegX` puts the command and the number of the register into the low byte. -/
def readPhyRegX (regAdd : UInt8) (s : LwipComm) : LwipComm :=
  { s with
    ethMiwr := (s.ethMiwr &&& (0xffffff00 : UInt32)) ||| (0x20 ||| (regAdd &&& 0x1f)).toUInt32 }

def getPhyLinkState (phyReg : UInt16) : UInt8 :=
  if phyReg &&& 0x04 ≠ 0 then 1 else 0

def phyChange (flag : UInt8) (s : LwipComm) : LwipComm :=
  if flag % 2 = 0 then { s with ethMiwr := 0x0004011e }
  else { s with ethMiwr := 0x0000011e }

def togglePhy (s : LwipComm) : LwipComm :=
  let s := phyChange s.phyflag s
  let s := { s with phyflag := s.phyflag + 1 }
  if s.phyflag = 200 then { s with phyflag := 0 } else s

def linkTransition (phyLinkState : UInt8) (s : LwipComm) : LwipComm :=
  if phyLinkState ≠ s.lastPhyLinkState then
    if phyLinkState ≠ 0 then
      { s with gpio := ethGreenLedOn s.gpio, netif := netifSetLinkUp s.netif }
    else
      { s with gpio := ethGreenLedOff s.gpio, netif := netifSetLinkDown s.netif }
  else s

def lwipPeriodicHandle (curTimestamp : UInt32) (phyReg : UInt16) (s : LwipComm) :
    Option UInt8 × LwipComm :=
  if curTimestamp < s.lastTimestamp then (none, { s with lastTimestamp := 0 })
  else if curTimestamp - s.lastTimestamp < 50 then (none, s)
  else
    let s := { s with lastTimestamp := curTimestamp }
    let s := readPhyRegX phyBmsr s
    let phyLinkState := getPhyLinkState phyReg
    let s := if phyLinkState = 0 then togglePhy s else s
    let s := { s with gEthPhyLinkState := phyLinkState }
    let s := linkTransition phyLinkState s
    (some phyLinkState, { s with lastPhyLinkState := phyLinkState })

/-!
# Which calls poll and what they read
-/

/-- The call reads the PHY, whatever it finds there. -/
def Polls (curTimestamp : UInt32) (s : LwipComm) : Prop :=
  (lwipPeriodicHandle curTimestamp 0 s).1.isSome = true

instance (curTimestamp : UInt32) (s : LwipComm) : Decidable (Polls curTimestamp s) :=
  inferInstanceAs (Decidable (_ = _))

/-- The call polls if it gets past both timestamp tests. -/
theorem polls_iff_tests (curTimestamp : UInt32) (s : LwipComm) :
    Polls curTimestamp s <->
      ¬ curTimestamp < s.lastTimestamp ∧ ¬ curTimestamp - s.lastTimestamp < 50 := by
  unfold Polls lwipPeriodicHandle
  split
  · next hback => simp [hback]
  · next hback =>
      split
      · next hshort => simp [hshort]
      · next hlong => simp [hback, hlong]

/-- The link is up in a reading of the status register. -/
def linkIsUp (phyReg : UInt16) : Bool :=
  decide (phyReg &&& 0x04 ≠ 0)

def linkByte (up : Bool) : UInt8 :=
  if up then 1 else 0

theorem getPhyLinkState_eq (phyReg : UInt16) :
    getPhyLinkState phyReg = linkByte (linkIsUp phyReg) := by
  simp [getPhyLinkState, linkByte, linkIsUp]

/-- Toggling the polarity writes the counter and the PHY register only. -/
theorem togglePhy_frame (s : LwipComm) :
    exists phyflag ethMiwr,
      togglePhy s = { s with phyflag := phyflag, ethMiwr := ethMiwr } := by
  simp only [togglePhy, phyChange]
  split <;> split <;> exact ⟨_, _, rfl⟩

section Toggle

variable (s : LwipComm)

@[simp] theorem togglePhy_netif : (togglePhy s).netif = s.netif := by
  rcases togglePhy_frame s with ⟨phyflag, ethMiwr, h⟩
  rw [h]

@[simp] theorem togglePhy_gpio : (togglePhy s).gpio = s.gpio := by
  rcases togglePhy_frame s with ⟨phyflag, ethMiwr, h⟩
  rw [h]

@[simp] theorem togglePhy_lastPhyLinkState :
    (togglePhy s).lastPhyLinkState = s.lastPhyLinkState := by
  rcases togglePhy_frame s with ⟨phyflag, ethMiwr, h⟩
  rw [h]

@[simp] theorem togglePhy_lastTimestamp :
    (togglePhy s).lastTimestamp = s.lastTimestamp := by
  rcases togglePhy_frame s with ⟨phyflag, ethMiwr, h⟩
  rw [h]

end Toggle

@[simp] theorem linkTransition_lastTimestamp (phyLinkState : UInt8) (s : LwipComm) :
    (linkTransition phyLinkState s).lastTimestamp = s.lastTimestamp := by
  unfold linkTransition
  split
  · split <;> rfl
  · rfl

/-- A call that does not poll leaves everything alone, but forgets a timestamp in the future. -/
theorem lwipPeriodicHandle_quiet_eq {cur : UInt32} {s : LwipComm} (h : ¬ Polls cur s)
    (phyReg : UInt16) :
    lwipPeriodicHandle cur phyReg s =
      (none, { s with
        lastTimestamp := if cur < s.lastTimestamp then 0 else s.lastTimestamp }) := by
  rw [polls_iff_tests] at h
  unfold lwipPeriodicHandle
  split
  · rfl
  · next hback =>
      have hshort : cur - s.lastTimestamp < 50 := by
        by_contra hlong
        exact h ⟨hback, hlong⟩
      rw [if_pos hshort]

theorem lwipPeriodicHandle_quiet {cur : UInt32} {s : LwipComm} (h : ¬ Polls cur s)
    (phyReg : UInt16) :
    exists timestamp,
      (lwipPeriodicHandle cur phyReg s).2 = { s with lastTimestamp := timestamp } :=
  ⟨_, congrArg Prod.snd (lwipPeriodicHandle_quiet_eq h phyReg)⟩

/-- What a call answers. -/
theorem lwipPeriodicHandle_reading (cur : UInt32) (phyReg : UInt16) (s : LwipComm) :
    (lwipPeriodicHandle cur phyReg s).1 =
      if Polls cur s then some (linkByte (linkIsUp phyReg)) else none := by
  split
  · next hpolls =>
      rw [polls_iff_tests] at hpolls
      unfold lwipPeriodicHandle
      rw [if_neg hpolls.left, if_neg hpolls.right, ← getPhyLinkState_eq]
  · next hquiet =>
      rw [lwipPeriodicHandle_quiet_eq hquiet]

theorem lwipPeriodicHandle_polls_lastTimestamp {cur : UInt32} {s : LwipComm}
    (h : Polls cur s) (phyReg : UInt16) :
    (lwipPeriodicHandle cur phyReg s).2.lastTimestamp = cur := by
  rw [polls_iff_tests] at h
  unfold lwipPeriodicHandle
  rw [if_neg h.left, if_neg h.right]
  simp only [linkTransition_lastTimestamp]
  split
  · rw [togglePhy_lastTimestamp]
    rfl
  · rfl

/-- What a polling call does to the copies of the link state and to the LED. -/
theorem lwipPeriodicHandle_polls {cur : UInt32} {s : LwipComm} (h : Polls cur s)
    (phyReg : UInt16) {last : Bool} (hlast : s.lastPhyLinkState = linkByte last) :
    let up := linkIsUp phyReg
    let t := (lwipPeriodicHandle cur phyReg s).2
    t.gEthPhyLinkState = linkByte up ∧ t.lastPhyLinkState = linkByte up ∧
      t.netif.linkUp = (if up = last then s.netif.linkUp else up) ∧
      t.gpio = (if up = last then s.gpio
        else if up then ethGreenLedOn s.gpio else ethGreenLedOff s.gpio) := by
  rw [polls_iff_tests] at h
  unfold lwipPeriodicHandle readPhyRegX
  rw [if_neg h.left, if_neg h.right]
  simp only [getPhyLinkState_eq, linkTransition]
  cases hup : linkIsUp phyReg with
  | true =>
      cases last with
      | true => simp [linkByte, hlast]
      | false => simp [linkByte, hlast, netifSetLinkUp]
  | false =>
      cases last with
      | true => simp [linkByte, hlast, netifSetLinkDown]
      | false => simp [linkByte, hlast]

end Net
end Ch579HttpLed
