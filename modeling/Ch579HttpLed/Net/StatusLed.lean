import Ch579HttpLed.Driver.Gpio

/-!
# The status LEDs of the Ethernet socket

The four helpers of `Net/src/lwipcomm.c` that drive the green LED on PB4 and the
amber LED on PB7, and the initialisation of the two pins.  `eth_amber_led_off`
names pin 4 in the source, and the initialisation switches the green LED off
twice.
-/

namespace Ch579HttpLed
namespace Net

open Driver

def ethGreenLedOn (b : GpioB) : GpioB :=
  gpiobResetBits (gpioPin 4) b

def ethGreenLedOff (b : GpioB) : GpioB :=
  gpiobSetBits (gpioPin 4) b

def ethAmberLedOn (b : GpioB) : GpioB :=
  gpiobSetBits (gpioPin 7) b

def ethAmberLedOff (b : GpioB) : GpioB :=
  gpiobSetBits (gpioPin 4) b

def ethStatusLedInit (b : GpioB) : GpioB :=
  let b := gpiobModeCfg (gpioPin 4) .outPP20mA b
  let b := gpiobModeCfg (gpioPin 7) .outPP20mA b
  let b := ethGreenLedOff b
  ethGreenLedOff b

/-!
# Levels after each helper
-/

theorem level_ethGreenLedOn (b : GpioB) {n : Nat} (hn : n < 32) :
    (ethGreenLedOn b).level n = (b.level n && !decide (n = 4)) :=
  level_gpiobResetBits b hn

theorem level_ethGreenLedOff (b : GpioB) {n : Nat} (hn : n < 32) :
    (ethGreenLedOff b).level n = (b.level n || decide (n = 4)) :=
  level_gpiobSetBits b hn

theorem level_ethAmberLedOn (b : GpioB) {n : Nat} (hn : n < 32) :
    (ethAmberLedOn b).level n = (b.level n || decide (n = 7)) :=
  level_gpiobSetBits b hn

theorem level_ethAmberLedOff (b : GpioB) {n : Nat} (hn : n < 32) :
    (ethAmberLedOff b).level n = (b.level n || decide (n = 4)) :=
  level_gpiobSetBits b hn

theorem level_ethStatusLedInit (b : GpioB) : (ethStatusLedInit b).level 4 = true := by
  simp [ethStatusLedInit, level_ethGreenLedOff]

end Net
end Ch579HttpLed
