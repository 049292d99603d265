import Ch579HttpLed.Driver.Gpio

/-!
# The request hook

Model of `httpd_GET_uri_params_parse` in `Main.c`, which the web server calls
with every requested URI.  A C string is the list of its bytes without the
terminator.
-/

namespace Ch579HttpLed
namespace App

open Driver

def cString (text : String) : List UInt8 :=
  text.toList.map (fun c => UInt8.ofNat c.toNat)

def rebootParams : List UInt8 :=
  cString "action=reboot"

def ledOnParams : List UInt8 :=
  cString "action=led_on"

def ledOffParams : List UInt8 :=
  cString "action=led_off"

/-- What follows the first question mark, as found by `strchr`. -/
def uriParams (uri : List UInt8) : Option (List UInt8) :=
  match uri.dropWhile (fun b => b != 63) with
  | [] => none
  | _ :: params => some params

def ledOn (b : GpioB) : GpioB :=
  gpiobSetBits (gpioPin 0) b

def ledOff (b : GpioB) : GpioB :=
  gpiobResetBits (gpioPin 0) b

/-- What the hook writes: the flag `action_reboot` and port B. -/
structure Actions where
  actionReboot : Bool
  gpio : GpioB

def httpdGETUriParamsParse (uri : List UInt8) (a : Actions) : Actions :=
  match uriParams uri with
  | none => a
  | some params =>
      if params = rebootParams then { a with actionReboot := true }
      else if params = ledOnParams then { a with gpio := ledOn a.gpio }
      else if params = ledOffParams then { a with gpio := ledOff a.gpio }
      else a

/-- The hook raises the flag exactly for the parameters of a reboot. -/
theorem httpdGETUriParamsParse_actionReboot (uri : List UInt8) (a : Actions) :
    (httpdGETUriParamsParse uri a).actionReboot =
      (a.actionReboot || decide (uriParams uri = some rebootParams)) := by
  unfold httpdGETUriParamsParse
  cases huri : uriParams uri with
  | none => simp
  | some params =>
      by_cases hreboot : params = rebootParams
      · simp [hreboot]
      · have hother : decide (some params = some rebootParams) = false := by
          simpa using hreboot
        show (if params = rebootParams then { a with actionReboot := true }
          else if params = ledOnParams then { a with gpio := ledOn a.gpio }
          else if params = ledOffParams then { a with gpio := ledOff a.gpio }
          else a : Actions).actionReboot = _
        rw [hother, Bool.or_false, if_neg hreboot]
        split
        · rfl
        · split <;> rfl

end App
end Ch579HttpLed
