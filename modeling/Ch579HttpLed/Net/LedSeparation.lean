import Mathlib.Data.List.Induction
import Ch579HttpLed.Net.Ethernetif
import Ch579HttpLed.Net.LinkState

/-!
# The two LEDs of the socket

The green LED should show the link and the amber LED the traffic.  Both are
driven through port B, the green one by `lwip_periodic_handle` and the amber one
by `low_level_input`.  The second received frame calls `eth_amber_led_off`, which
drives PB4 instead of PB7, so the two are separate exactly in runs that receive
at most one frame.
-/

namespace Ch579HttpLed
namespace Net

open Driver Foundation

structure LedSystem where
  comm : LwipComm
  ledCount : UInt8

/-- An input call brings the ring it meets and the outcome of its allocation. -/
inductive LedEvent where
  | periodic (c : PeriodicCall)
  | input (mac : EthMac) (pbufAlloc : UInt16 -> Option PbufChain)

def ledStep (s : LedSystem) : LedEvent -> LedSystem
  | .periodic c => { s with comm := periodicStep s.comm c }
  | .input mac pbufAlloc =>
      let r := (lowLevelInput pbufAlloc ⟨mac, s.comm.gpio, s.ledCount⟩).2
      { comm := { s.comm with gpio := r.gpio }, ledCount := r.ledCount }

def ledStart (gpio : GpioB) : LedSystem where
  comm := commStart gpio
  ledCount := 0

def pin (s : LedSystem) (n : Nat) : Bool :=
  s.comm.gpio.level n

/-- The call finds an entry with a length at the head of its ring. -/
def countsFrame : LedEvent -> Bool
  | .periodic _ => false
  | .input mac _ => decide (getRecvMacDataLen mac ≠ 0)

def ledReading (s : LedSystem) : LedEvent -> Option Bool
  | .periodic c => polledReading s.comm c
  | .input _ _ => none

def ledReadings : LedSystem -> List LedEvent -> List Bool :=
  observed ledStep ledReading

/-- Levels of PB4 after the polls of a run. -/
def greenHistory : LedSystem -> List LedEvent -> List Bool :=
  observed ledStep (fun s e => (ledReading s e).map (fun _ => pin (ledStep s e) 4))

/-!
# Separation
-/

/-- A step touches only its own LED, and a counted frame drives PB7 to the level asked for. -/
def StepSeparate (s : LedSystem) (e : LedEvent) : Prop :=
  match e with
  | .periodic _ => forall n, n < 32 -> n ≠ 4 -> pin (ledStep s e) n = pin s n
  | .input _ _ =>
      (forall n, n < 32 -> n ≠ 7 -> pin (ledStep s e) n = pin s n) ∧
        (countsFrame e = true -> pin (ledStep s e) 7 = decide (s.ledCount % 2 = 0))

/-- The green LED is lit iff the latest poll has read the link as up. -/
def GreenFollows (start : LedSystem) (es : List LedEvent) : Prop :=
  pin (run ledStep start es) 4 = false <->
    (ledReadings start es).getLast? = some true

def LedsSeparate (start : LedSystem) (es : List LedEvent) : Prop :=
  AllSteps ledStep StepSeparate start es ∧
    forall pre post, es = pre ++ post -> GreenFollows start pre

/-!
# Single steps
-/

theorem pin_periodic (s : LedSystem) (c : PeriodicCall) (n : Nat) :
    pin (ledStep s (.periodic c)) n =
      (lwipPeriodicHandle c.time c.phyReg s.comm).2.gpio.level n := rfl

theorem periodic_pin_ne {s : LedSystem} {last : Bool}
    (hlast : s.comm.lastPhyLinkState = linkByte last) (c : PeriodicCall) {n : Nat}
    (hn : n < 32) (hne : n ≠ 4) : pin (ledStep s (.periodic c)) n = pin s n := by
  rw [pin_periodic, pin]
  by_cases hpolls : Polls c.time s.comm
  · rw [(lwipPeriodicHandle_polls hpolls c.phyReg hlast).right.right.right]
    by_cases hsame : linkIsUp c.phyReg = last
    · rw [if_pos hsame]
    · rw [if_neg hsame]
      cases linkIsUp c.phyReg <;>
        simp [level_ethGreenLedOn, level_ethGreenLedOff, hn, hne]
  · rcases lwipPeriodicHandle_quiet hpolls c.phyReg with ⟨timestamp, heq⟩
    rw [heq]

/-- A poll lights or darkens the green LED as it reads, whatever it read before. -/
theorem periodic_pin_green {s : LedSystem} {last : Bool}
    (hlast : s.comm.lastPhyLinkState = linkByte last) (hgreen : pin s 4 = !last)
    {c : PeriodicCall} (hpolls : Polls c.time s.comm) :
    pin (ledStep s (.periodic c)) 4 = !linkIsUp c.phyReg := by
  rw [pin] at hgreen
  rw [pin_periodic, (lwipPeriodicHandle_polls hpolls c.phyReg hlast).right.right.right]
  by_cases hsame : linkIsUp c.phyReg = last
  · rw [if_pos hsame, hsame]
    exact hgreen
  · rw [if_neg hsame]
    cases linkIsUp c.phyReg <;> simp [level_ethGreenLedOn, level_ethGreenLedOff]

section Input

variable {s : LedSystem} {mac : EthMac} {pbufAlloc : UInt16 -> Option PbufChain}

theorem getRecvMacDataLen_of_countsFrame
    (h : countsFrame (.input mac pbufAlloc) = true) : getRecvMacDataLen mac ≠ 0 := by
  simpa [countsFrame] using h

theorem input_quiet (h : countsFrame (.input mac pbufAlloc) = false) :
    ledStep s (.input mac pbufAlloc) = s := by
  have hzero : getRecvMacDataLen mac = 0 := by
    simpa [countsFrame] using h
  have hcall : lowLevelInput pbufAlloc ⟨mac, s.comm.gpio, s.ledCount⟩ =
      (none, ⟨mac, s.comm.gpio, s.ledCount⟩) :=
    lowLevelInput_of_len_eq_zero pbufAlloc hzero
  simp only [ledStep, hcall]

/-- The first counted frame switches the amber LED on. -/
theorem input_first (h : countsFrame (.input mac pbufAlloc) = true) (hcount : s.ledCount = 0) :
    (ledStep s (.input mac pbufAlloc)).comm =
        { s.comm with gpio := ethAmberLedOn s.comm.gpio } ∧
      (ledStep s (.input mac pbufAlloc)).ledCount = 1 := by
  have hne := getRecvMacDataLen_of_countsFrame h
  have hled := lowLevelInput_led pbufAlloc ⟨mac, s.comm.gpio, s.ledCount⟩
  rw [if_neg hne, if_neg hne, hcount] at hled
  unfold ledStep
  simp only [hcount, hled.left, hled.right]
  exact ⟨rfl, rfl⟩

/-- The second one calls `eth_amber_led_off`, which leaves PB7 as it is. -/
theorem input_second (h : countsFrame (.input mac pbufAlloc) = true) (hcount : s.ledCount = 1) :
    pin (ledStep s (.input mac pbufAlloc)) 7 = pin s 7 := by
  have hne := getRecvMacDataLen_of_countsFrame h
  have hled := (lowLevelInput_led pbufAlloc ⟨mac, s.comm.gpio, s.ledCount⟩).left
  rw [if_neg hne, hcount] at hled
  unfold pin ledStep
  simp only [hcount, hled]
  show (ethAmberLedOff s.comm.gpio).level 7 = _
  rw [level_ethAmberLedOff _ (by decide)]
  simp

end Input

/-!
# The invariant

`frames` is the number of counted frames so far and `up` the latest reading,
down before the first.
-/

structure LedInv (frames : Nat) (up : Bool) (s : LedSystem) : Prop where
  last : s.comm.lastPhyLinkState = linkByte up
  green : pin s 4 = !up
  count : s.ledCount = UInt8.ofNat frames
  amber : frames = 1 -> pin s 7 = true

/-- Latest of a list of readings, down if there is none. -/
def latest (readings : List Bool) : Bool :=
  readings.getLast?.getD false

theorem latest_eq_true_iff (readings : List Bool) :
    latest readings = true <-> readings.getLast? = some true := by
  unfold latest
  cases readings.getLast? <;> simp

theorem ledStart_inv (gpio : GpioB) : LedInv 0 false (ledStart gpio) where
  last := rfl
  green := level_ethStatusLedInit gpio
  count := rfl
  amber := by simp

theorem periodic_inv {frames : Nat} {up : Bool} {s : LedSystem}
    (h : LedInv frames up s) (c : PeriodicCall) :
    LedInv frames ((polledReading s.comm c).getD up) (ledStep s (.periodic c)) := by
  have hamber : frames = 1 -> pin (ledStep s (.periodic c)) 7 = true := by
    intro hframes
    rw [periodic_pin_ne h.last c (by decide) (by decide)]
    exact h.amber hframes
  by_cases hpolls : Polls c.time s.comm
  · rw [polledReading_eq, if_pos hpolls]
    exact
      { last := (lwipPeriodicHandle_polls hpolls c.phyReg h.last).right.left
        green := periodic_pin_green h.last h.green hpolls
        count := h.count
        amber := hamber }
  · rw [polledReading_eq, if_neg hpolls]
    rcases lwipPeriodicHandle_quiet hpolls c.phyReg with ⟨timestamp, heq⟩
    refine ⟨?_, ?_, h.count, hamber⟩
    · show (lwipPeriodicHandle c.time c.phyReg s.comm).2.lastPhyLinkState = _
      rw [heq]
      exact h.last
    · rw [pin_periodic, heq]
      exact h.green

theorem input_first_inv {up : Bool} {s : LedSystem} (h : LedInv 0 up s)
    {mac : EthMac} {pbufAlloc : UInt16 -> Option PbufChain}
    (hcounts : countsFrame (.input mac pbufAlloc) = true) :
    LedInv 1 up (ledStep s (.input mac pbufAlloc)) := by
  rcases input_first hcounts h.count with ⟨hcomm, hcount⟩
  refine ⟨?_, ?_, hcount, ?_⟩
  · rw [hcomm]
    exact h.last
  · unfold pin
    rw [hcomm, level_ethAmberLedOn _ (by decide)]
    simpa [pin] using h.green
  · intro _
    unfold pin
    rw [hcomm, level_ethAmberLedOn _ (by decide)]
    simp

/-- What a step does to the invariant while at most one frame is counted. -/
theorem ledStep_inv {frames : Nat} {up : Bool} {s : LedSystem} (h : LedInv frames up s)
    (e : LedEvent) (hfew : frames + (if countsFrame e then 1 else 0) <= 1) :
    LedInv (frames + (if countsFrame e then 1 else 0)) ((ledReading s e).getD up)
      (ledStep s e) := by
  cases e with
  | periodic c => exact periodic_inv h c
  | input mac pbufAlloc =>
      cases hcounts : countsFrame (.input mac pbufAlloc) with
      | false =>
          rw [input_quiet hcounts]
          exact h
      | true =>
          rw [hcounts] at hfew
          have hzero : frames = 0 := by
            simp at hfew
            exact hfew
          subst hzero
          exact input_first_inv h hcounts

theorem latest_append_toList (readings : List Bool) (r : Option Bool) :
    latest (readings ++ r.toList) = r.getD (latest readings) := by
  cases r <;> simp [latest]

/-- Runs with at most one counted frame keep the invariant. -/
theorem ledRun_inv (gpio : GpioB) (es : List LedEvent)
    (hfew : es.countP countsFrame <= 1) :
    LedInv (es.countP countsFrame) (latest (ledReadings (ledStart gpio) es))
      (run ledStep (ledStart gpio) es) := by
  induction es using List.reverseRecOn with
  | nil => exact ledStart_inv gpio
  | append_singleton es e ih =>
      rw [List.countP_append, List.countP_singleton] at hfew ⊢
      have hinv := ih (by lia)
      unfold ledReadings at hinv ⊢
      rw [observed_concat, latest_append_toList, run_concat]
      exact ledStep_inv hinv e hfew

/-!
# The exact condition
-/

theorem stepSeparate_of_inv {frames : Nat} {up : Bool} {s : LedSystem}
    (h : LedInv frames up s) {e : LedEvent}
    (hfew : frames + (if countsFrame e then 1 else 0) <= 1) : StepSeparate s e := by
  cases e with
  | periodic c =>
      intro n hn hne
      exact periodic_pin_ne h.last c hn hne
  | input mac pbufAlloc =>
      cases hcounts : countsFrame (.input mac pbufAlloc) with
      | false =>
          unfold StepSeparate
          rw [input_quiet hcounts, hcounts]
          exact ⟨fun n _ _ => rfl, by simp⟩
      | true =>
          rw [hcounts] at hfew
          have hzero : s.ledCount = 0 := by
            rw [h.count, show frames = 0 by simp at hfew; exact hfew]
            rfl
          have hcomm := (input_first hcounts hzero).left
          constructor
          · intro n hn hne
            unfold pin
            rw [hcomm, level_ethAmberLedOn _ hn]
            simp [hne]
          · intro _
            unfold pin
            rw [hcomm, level_ethAmberLedOn _ (by decide), hzero]
            simp

/-- A second counted frame fails to drive PB7 low. -/
theorem not_stepSeparate_second {up : Bool} {s : LedSystem} (h : LedInv 1 up s)
    {e : LedEvent} (hcounts : countsFrame e = true) : ¬ StepSeparate s e := by
  cases e with
  | periodic c => cases hcounts
  | input mac pbufAlloc =>
      intro hsep
      have hdriven := hsep.right hcounts
      rw [input_second hcounts h.count, h.amber rfl, h.count] at hdriven
      exact absurd hdriven (by decide)

theorem countP_le_one_of_separate (gpio : GpioB) (es : List LedEvent)
    (h : AllSteps ledStep StepSeparate (ledStart gpio) es) :
    es.countP countsFrame <= 1 := by
  induction es using List.reverseRecOn with
  | nil => simp
  | append_singleton es e ih =>
      rw [allSteps_concat] at h
      have hfew := ih h.left
      have hinv := ledRun_inv gpio es hfew
      rw [List.countP_append, List.countP_singleton]
      cases hcounts : countsFrame e with
      | false => simpa using hfew
      | true =>
          have hne : es.countP countsFrame ≠ 1 := by
            intro hone
            rw [hone] at hinv
            exact not_stepSeparate_second hinv hcounts h.right
          rw [if_pos rfl]
          lia

theorem greenFollows_of_few (gpio : GpioB) (es : List LedEvent)
    (hfew : es.countP countsFrame <= 1) : GreenFollows (ledStart gpio) es := by
  unfold GreenFollows
  rw [(ledRun_inv gpio es hfew).green, ← latest_eq_true_iff]
  simp

theorem separate_of_countP_le_one (gpio : GpioB) (es : List LedEvent)
    (hfew : es.countP countsFrame <= 1) : LedsSeparate (ledStart gpio) es := by
  constructor
  · rw [allSteps_iff_forall_split]
    intro pre e post hsplit
    rw [hsplit, List.countP_append, List.countP_cons] at hfew
    exact stepSeparate_of_inv (ledRun_inv gpio pre (by lia)) (by lia)
  · intro pre post hsplit
    rw [hsplit, List.countP_append] at hfew
    exact greenFollows_of_few gpio pre (by lia)

/-- With at most one counted frame the history of PB4 is that of the readings. -/
theorem greenHistory_eq (gpio : GpioB) (es : List LedEvent)
    (hfew : es.countP countsFrame <= 1) :
    greenHistory (ledStart gpio) es = (ledReadings (ledStart gpio) es).map not := by
  induction es using List.reverseRecOn with
  | nil => rfl
  | append_singleton es e ih =>
      have hgreen := (ledRun_inv gpio (es ++ [e]) hfew).green
      unfold greenHistory ledReadings at *
      rw [observed_concat, latest_append_toList, run_concat] at hgreen
      rw [List.countP_append] at hfew
      rw [observed_concat, observed_concat, ih (by lia), List.map_append]
      congr 1
      cases hreading : ledReading (run ledStep (ledStart gpio) es) e with
      | none => rfl
      | some up =>
          rw [hreading] at hgreen
          simpa using hgreen

/--
After the initialisation of the pins the two LEDs are separate along a run
exactly if the run counts at most one frame; two such runs with the same
readings have the same history of PB4.
-/
theorem leds_separate_iff (gpio : GpioB) :
    (forall es, LedsSeparate (ledStart gpio) es <-> es.countP countsFrame <= 1) ∧
      forall es es', es.countP countsFrame <= 1 -> es'.countP countsFrame <= 1 ->
        ledReadings (ledStart gpio) es = ledReadings (ledStart gpio) es' ->
        greenHistory (ledStart gpio) es = greenHistory (ledStart gpio) es' := by
  constructor
  · intro es
    constructor
    · intro h
      exact countP_le_one_of_separate gpio es h.left
    · intro hfew
      exact separate_of_countP_le_one gpio es hfew
  · intro es es' hfew hfew' hreadings
    rw [greenHistory_eq gpio es hfew, greenHistory_eq gpio es' hfew', hreadings]

/-- A ring with one entry of 60 bytes at its head. -/
def oneEntry : EthMac :=
  { EthMac.blank with
    para := { EthMac.blank.para with remainCout := 1, rxBufLen := fun _ => 60 } }

/-- Two frames switch the green LED off although the link was read as up. -/
theorem leds_interfere :
    let poll : LedEvent := .periodic ⟨50, 4⟩
    let frame : LedEvent := .input oneEntry (fun _ => none)
    ledReadings (ledStart GpioB.reset) [poll, frame, frame] = [true] ∧
      pin (run ledStep (ledStart GpioB.reset) [poll]) 4 = false ∧
      pin (run ledStep (ledStart GpioB.reset) [poll, frame, frame]) 4 = true ∧
      ¬ LedsSeparate (ledStart GpioB.reset) [poll, frame, frame] := by
  intro poll frame
  have hreadings : ledReadings (ledStart GpioB.reset) [poll, frame, frame] = [true] := by
    decide
  have hgreen : pin (run ledStep (ledStart GpioB.reset) [poll, frame, frame]) 4 = true := by
    decide
  refine ⟨hreadings, by decide, hgreen, ?_⟩
  intro hsep
  have hfollows := hsep.right [poll, frame, frame] [] rfl
  unfold GreenFollows at hfollows
  rw [hreadings, hgreen] at hfollows
  simp at hfollows

end Net
end Ch579HttpLed
