import Mathlib.Data.List.TakeWhile
import Ch579HttpLed.App.UriParams
import Ch579HttpLed.Foundation.CString
import Ch579HttpLed.Foundation.Runs

/-!
# From requests to actions

The hook gets a pointer to a terminated string, searches it with `strchr` and
compares what follows with `strcmp`.  The first part ties the hook on buffers to
the hook on strings, and says which strings name an action.  The second part
follows sequences of requests: the LED obeys the last request that names it, the
flag remembers any reboot request, and everything else stays as it was.
-/

namespace Ch579HttpLed
namespace App

open Driver Foundation

/-!
# Strings in memory
-/

/-- A string literal of the source with its terminator. -/
def literal (text : String) : List UInt8 :=
  cString text ++ [0]

/--
The hook on the string at index `uri` of a buffer.  It returns the buffer too,
from which the file lookup takes its name afterwards.
-/
def httpdGETUriParamsParseAt (buffer : List UInt8) (uri : Nat) (a : Actions) :
    List UInt8 × Actions :=
  match strchr 63 (buffer.drop uri) with
  | none => (buffer, a)
  | some paramsCharPos =>
      let params := uri + paramsCharPos + 1
      if strcmp (buffer.drop params) (literal "action=reboot") = 0 then
        (buffer, { a with actionReboot := true })
      else if strcmp (buffer.drop params) (literal "action=led_on") = 0 then
        (buffer, { a with gpio := ledOn a.gpio })
      else if strcmp (buffer.drop params) (literal "action=led_off") = 0 then
        (buffer, { a with gpio := ledOff a.gpio })
      else (buffer, a)

/-- A URI as the web server passes it: a terminated string inside a buffer. -/
structure UriString where
  buffer : List UInt8
  start : Nat
  terminated : 0 ∈ buffer.drop start

def UriString.text (u : UriString) : List UInt8 :=
  cText (u.buffer.drop u.start)

/-!
# What follows the question mark
-/

theorem uriParams_of_not_mem {uri : List UInt8} (h : 63 ∉ uri) :
    uriParams uri = none := by
  have hdrop : uri.dropWhile (fun b => b != 63) = [] := by
    rw [List.dropWhile_eq_nil_iff]
    intro b hb
    rw [bne_iff_ne]
    intro heq
    exact h (heq ▸ hb)
  rw [uriParams, hdrop]

theorem uriParams_append {base : List UInt8} (h : 63 ∉ base) (params : List UInt8) :
    uriParams (base ++ 63 :: params) = some params := by
  have hbase : forall b, b ∈ base -> (b != 63) = true := by
    intro b hb
    rw [bne_iff_ne]
    intro heq
    exact h (heq ▸ hb)
  rw [uriParams, List.dropWhile_append_of_pos hbase]
  rfl

/-- The string asks for the action with these parameters. -/
def Requests (params uri : List UInt8) : Prop :=
  exists base, 63 ∉ base ∧ uri = base ++ 63 :: params

theorem requests_iff {params uri : List UInt8} :
    Requests params uri <-> uriParams uri = some params := by
  constructor
  · intro h
    rcases h with ⟨base, hbase, huri⟩
    rw [huri]
    exact uriParams_append hbase params
  · intro h
    by_cases hmem : 63 ∈ uri
    · rcases List.eq_append_cons_of_mem hmem with ⟨base, after, huri, hbase⟩
      rw [huri, uriParams_append hbase] at h
      rw [← Option.some.inj h]
      exact ⟨base, hbase, huri⟩
    · rw [uriParams_of_not_mem hmem] at h
      cases h

theorem literal_terminated (text : String) : 0 ∈ literal text :=
  List.mem_append_right _ (List.mem_singleton.mpr rfl)

/-- The hook on a buffer does to the actions what it does for the string, and writes nothing. -/
theorem httpdGETUriParamsParseAt_eq (u : UriString) (a : Actions) :
    httpdGETUriParamsParseAt u.buffer u.start a =
      (u.buffer, httpdGETUriParamsParse u.text a) := by
  have hreboot : cText (literal "action=reboot") = rebootParams := by decide
  have hledOn : cText (literal "action=led_on") = ledOnParams := by decide
  have hledOff : cText (literal "action=led_off") = ledOffParams := by decide
  unfold httpdGETUriParamsParseAt httpdGETUriParamsParse
  cases hpos : strchr 63 (u.buffer.drop u.start) with
  | none =>
      have hparams : uriParams u.text = none := uriParams_of_not_mem (strchr_none hpos)
      rw [hparams]
  | some pos =>
      rcases strchr_some (by decide) hpos with ⟨base, hbase, htext⟩
      have hterm := strchr_terminated (by decide) hpos u.terminated
      rw [List.drop_drop, ← Nat.add_assoc] at htext hterm
      have hparams : uriParams u.text =
          some (cText (u.buffer.drop (u.start + pos + 1))) := by
        rw [UriString.text, htext]
        exact uriParams_append hbase _
      rw [hparams]
      simp only [strcmp_eq_zero_iff hterm (literal_terminated _), hreboot, hledOn, hledOff]
      rw [apply_ite (Prod.mk u.buffer), apply_ite (Prod.mk u.buffer),
        apply_ite (Prod.mk u.buffer)]

/-!
# One request
-/

/-- One call of the hook. -/
def requestStep (a : Actions) (u : UriString) : Actions :=
  (httpdGETUriParamsParseAt u.buffer u.start a).2

theorem requestStep_eq (a : Actions) (u : UriString) :
    requestStep a u = httpdGETUriParamsParse u.text a := by
  rw [requestStep, httpdGETUriParamsParseAt_eq]

/-- The request switches the LED one way or the other. -/
def SwitchesLed (u : UriString) : Prop :=
  Requests ledOnParams u.text ∨ Requests ledOffParams u.text

section Step

variable {u : UriString} (a : Actions)

theorem requestStep_ledOn (h : Requests ledOnParams u.text) :
    requestStep a u = { a with gpio := ledOn a.gpio } := by
  rw [requestStep_eq, httpdGETUriParamsParse, requests_iff.mp h]
  rfl

theorem requestStep_ledOff (h : Requests ledOffParams u.text) :
    requestStep a u = { a with gpio := ledOff a.gpio } := by
  rw [requestStep_eq, httpdGETUriParamsParse, requests_iff.mp h]
  rfl

theorem requestStep_reboot (h : Requests rebootParams u.text) :
    requestStep a u = { a with actionReboot := true } := by
  rw [requestStep_eq, httpdGETUriParamsParse, requests_iff.mp h]
  rfl

/-- Any other string leaves the flag and the port alone. -/
theorem requestStep_other (hled : ¬ SwitchesLed u)
    (hreboot : ¬ Requests rebootParams u.text) : requestStep a u = a := by
  rw [requestStep_eq, httpdGETUriParamsParse]
  cases hparams : uriParams u.text with
  | none => rfl
  | some params =>
      have hnot : forall p, ¬ Requests p u.text -> params ≠ p := by
        intro p hp heq
        rw [← heq] at hp
        exact hp (requests_iff.mpr hparams)
      have hon : ¬ Requests ledOnParams u.text := fun h => hled (Or.inl h)
      have hoff : ¬ Requests ledOffParams u.text := fun h => hled (Or.inr h)
      simp only [if_neg (hnot _ hreboot), if_neg (hnot _ hon), if_neg (hnot _ hoff)]

/-- What one call can do. -/
theorem requestStep_cases (u : UriString) :
    (Requests ledOnParams u.text ∧ requestStep a u = { a with gpio := ledOn a.gpio }) ∨
    (Requests ledOffParams u.text ∧ requestStep a u = { a with gpio := ledOff a.gpio }) ∨
    (Requests rebootParams u.text ∧ requestStep a u = { a with actionReboot := true }) ∨
    (¬ SwitchesLed u ∧ ¬ Requests rebootParams u.text ∧ requestStep a u = a) := by
  by_cases hon : Requests ledOnParams u.text
  · exact Or.inl ⟨hon, requestStep_ledOn a hon⟩
  · by_cases hoff : Requests ledOffParams u.text
    · exact Or.inr (Or.inl ⟨hoff, requestStep_ledOff a hoff⟩)
    · by_cases hreboot : Requests rebootParams u.text
      · exact Or.inr (Or.inr (Or.inl ⟨hreboot, requestStep_reboot a hreboot⟩))
      · have hled : ¬ SwitchesLed u := by
          intro h
          exact h.elim hon hoff
        exact Or.inr (Or.inr (Or.inr ⟨hled, hreboot, requestStep_other a hled hreboot⟩))

end Step

/-!
# Sequences of requests
-/

section Sequences

variable (a : Actions) (u : UriString)

theorem requestStep_gpio_of_not_led (h : ¬ SwitchesLed u) :
    (requestStep a u).gpio = a.gpio := by
  rcases requestStep_cases a u with hon | hoff | hreboot | hother
  · exact absurd (Or.inl hon.left) h
  · exact absurd (Or.inr hoff.left) h
  · rw [hreboot.right]
  · rw [hother.right.right]

theorem requestStep_flag_of_not_reboot (h : ¬ Requests rebootParams u.text) :
    (requestStep a u).actionReboot = a.actionReboot := by
  rcases requestStep_cases a u with hon | hoff | hreboot | hother
  · rw [hon.right]
  · rw [hoff.right]
  · exact absurd hreboot.left h
  · rw [hother.right.right]

/-- The flag is never taken back. -/
theorem requestStep_keeps_flag (h : a.actionReboot = true) :
    (requestStep a u).actionReboot = true := by
  by_cases hreboot : Requests rebootParams u.text
  · rw [requestStep_reboot a hreboot]
  · rw [requestStep_flag_of_not_reboot a u hreboot]
    exact h

/-- The registers that configure the pins of port B. -/
def pinModes (a : Actions) : BitVec 32 × BitVec 32 × BitVec 32 :=
  (a.gpio.dir, a.gpio.pdDrv, a.gpio.pu)

theorem requestStep_pinModes : pinModes (requestStep a u) = pinModes a := by
  rcases requestStep_cases a u with hon | hoff | hreboot | hother
  · rw [hon.right]
    rfl
  · rw [hoff.right]
    rfl
  · rw [hreboot.right]
    rfl
  · rw [hother.right.right]

theorem requestStep_level_other {n : Nat} (hn : n < 32) (hpin : n ≠ 0) :
    (requestStep a u).gpio.level n = a.gpio.level n := by
  rcases requestStep_cases a u with hon | hoff | hreboot | hother
  · rw [hon.right]
    change (gpiobSetBits (gpioPin 0) a.gpio).level n = a.gpio.level n
    rw [level_gpiobSetBits a.gpio hn, decide_eq_false hpin, Bool.or_false]
  · rw [hoff.right]
    change (gpiobResetBits (gpioPin 0) a.gpio).level n = a.gpio.level n
    rw [level_gpiobResetBits a.gpio hn, decide_eq_false hpin, Bool.not_false, Bool.and_true]
  · rw [hreboot.right]
  · rw [hother.right.right]

end Sequences

/-- Requests behind the last one that switches the LED leave the port alone. -/
theorem run_gpio_of_last (a : Actions) {us pre post : List UriString} {u : UriString}
    (hus : us = pre ++ u :: post) (hlast : forall v, v ∈ post -> ¬ SwitchesLed v) :
    (run requestStep a us).gpio =
      (requestStep (run requestStep a pre) u).gpio := by
  rw [hus, run_append, run_cons]
  apply run_frame Actions.gpio
  intro t v hv
  exact requestStep_gpio_of_not_led t v (hlast v hv)

/-- The flag tells whether any request of the sequence asked for a reboot. -/
theorem run_actionReboot_iff (gpio : GpioB) (us : List UriString) :
    (run requestStep ⟨false, gpio⟩ us).actionReboot = true <->
      exists u, u ∈ us ∧ Requests rebootParams u.text := by
  constructor
  · intro hflag
    by_contra hnone
    have hkeep : (run requestStep ⟨false, gpio⟩ us).actionReboot = false := by
      apply run_frame Actions.actionReboot
      intro t u hu
      apply requestStep_flag_of_not_reboot
      intro hreboot
      exact hnone ⟨u, hu, hreboot⟩
    rw [hkeep] at hflag
    cases hflag
  · intro hsome
    rcases hsome with ⟨u, hu, hreboot⟩
    rcases List.append_of_mem hu with ⟨pre, post, hus⟩
    rw [hus, run_append, run_cons, requestStep_reboot _ hreboot]
    have hraised : ({ run requestStep ⟨false, gpio⟩ pre with actionReboot := true } :
        Actions).actionReboot = true := rfl
    exact run_invariant requestStep_keeps_flag hraised post

/--
For every sequence of terminated URIs and every state of port B.  PB0 ends as the
last request that switches the LED asks, and as it was if there is none.  The
flag ends true exactly if some request asks for a reboot.  A request that asks
for none of the three changes nothing, no request changes another pin, and every
buffer is the same after the call.
-/
theorem requests_determine_actions (gpio : GpioB) (us : List UriString) :
    let a := run requestStep ⟨false, gpio⟩ us
    (forall pre u post, us = pre ++ u :: post -> (forall v, v ∈ post -> ¬ SwitchesLed v) ->
        (Requests ledOnParams u.text -> a.gpio.level 0 = true) ∧
          (Requests ledOffParams u.text -> a.gpio.level 0 = false)) ∧
      ((forall u, u ∈ us -> ¬ SwitchesLed u) -> a.gpio.level 0 = gpio.level 0) ∧
      (a.actionReboot = true <-> exists u, u ∈ us ∧ Requests rebootParams u.text) ∧
      (pinModes a = pinModes ⟨false, gpio⟩ ∧
        forall n, n < 32 -> n ≠ 0 -> a.gpio.level n = gpio.level n) ∧
      forall (u : UriString) (b : Actions),
        (httpdGETUriParamsParseAt u.buffer u.start b).1 = u.buffer ∧
          (¬ SwitchesLed u -> ¬ Requests rebootParams u.text ->
            (httpdGETUriParamsParseAt u.buffer u.start b).2 = b) := by
  intro a
  refine ⟨?_, ?_, run_actionReboot_iff gpio us, ⟨?_, ?_⟩, ?_⟩
  · intro pre u post hus hlast
    have hgpio : a.gpio = _ := run_gpio_of_last ⟨false, gpio⟩ hus hlast
    constructor
    · intro hon
      rw [hgpio, requestStep_ledOn _ hon]
      change (gpiobSetBits (gpioPin 0) _).level 0 = true
      rw [level_gpiobSetBits _ (by decide), decide_eq_true rfl, Bool.or_true]
    · intro hoff
      rw [hgpio, requestStep_ledOff _ hoff]
      change (gpiobResetBits (gpioPin 0) _).level 0 = false
      rw [level_gpiobResetBits _ (by decide), decide_eq_true rfl, Bool.not_true,
        Bool.and_false]
  · intro hnone
    have hgpio : a.gpio = gpio := by
      apply run_frame Actions.gpio
      intro t u hu
      exact requestStep_gpio_of_not_led t u (hnone u hu)
    rw [hgpio]
  · apply run_frame pinModes
    intro t u _
    exact requestStep_pinModes t u
  · intro n hn hpin
    apply run_frame (fun b : Actions => b.gpio.level n)
    intro t u _
    exact requestStep_level_other t u hn hpin
  · intro u b
    constructor
    · rw [httpdGETUriParamsParseAt_eq]
    · intro hled hreboot
      exact requestStep_other b hled hreboot

example : (run requestStep ⟨false, GpioB.reset⟩
    [⟨literal "/?action=led_on", 0, literal_terminated _⟩,
      ⟨literal "/?x=1?action=led_off", 0, literal_terminated _⟩]).gpio.level 0 = true := by
  decide

end App
end Ch579HttpLed
