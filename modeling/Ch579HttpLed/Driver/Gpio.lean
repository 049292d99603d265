import Mathlib.Data.BitVec

/-!
# Port B of the GPIO driver

Model of the parts of `StdPeriphDriver/CH57x_gpio.c` and its header that drive
port B.  The clear register `R32_PB_CLR` reads as zero and clears the output
bits written as one, so a reset through it touches only the named pins.
-/

namespace Ch579HttpLed
namespace Driver

structure GpioB where
  dir : BitVec 32    -- R32_PB_DIR
  pdDrv : BitVec 32  -- R32_PB_PD_DRV
  pu : BitVec 32     -- R32_PB_PU
  out : BitVec 32    -- R32_PB_OUT
deriving DecidableEq, Repr

/-- Registers of port B after power-on. -/
def GpioB.reset : GpioB := ⟨0, 0, 0, 0⟩

/-- The mask `GPIO_Pin_n`. -/
def gpioPin (n : Nat) : BitVec 32 :=
  BitVec.twoPow 32 n

inductive GpioMode where
  | inFloating
  | inPU
  | inPD
  | outPP5mA
  | outPP20mA
deriving DecidableEq, Repr

def gpiobModeCfg (pin : BitVec 32) (mode : GpioMode) (b : GpioB) : GpioB :=
  match mode with
  | .inFloating =>
      { b with pdDrv := b.pdDrv &&& ~~~pin, pu := b.pu &&& ~~~pin, dir := b.dir &&& ~~~pin }
  | .inPU =>
      { b with pdDrv := b.pdDrv &&& ~~~pin, pu := b.pu ||| pin, dir := b.dir &&& ~~~pin }
  | .inPD =>
      { b with pdDrv := b.pdDrv ||| pin, pu := b.pu &&& ~~~pin, dir := b.dir &&& ~~~pin }
  | .outPP5mA =>
      { b with pdDrv := b.pdDrv &&& ~~~pin, dir := b.dir ||| pin }
  | .outPP20mA =>
      { b with pdDrv := b.pdDrv ||| pin, dir := b.dir ||| pin }

def gpiobSetBits (pin : BitVec 32) (b : GpioB) : GpioB :=
  { b with out := b.out ||| pin }

def gpiobResetBits (pin : BitVec 32) (b : GpioB) : GpioB :=
  { b with out := b.out &&& ~~~pin }

/-!
# Levels

`level n` is the level the output register drives on pin `n`.  Setting or
resetting one pin changes the level of that pin and of no other.
-/

def GpioB.level (b : GpioB) (n : Nat) : Bool :=
  b.out.getLsbD n

@[simp] theorem level_gpiobModeCfg (pin : BitVec 32) (mode : GpioMode) (b : GpioB)
    (n : Nat) : (gpiobModeCfg pin mode b).level n = b.level n := by
  cases mode <;> rfl

theorem level_gpiobSetBits (b : GpioB) {m n : Nat} (hn : n < 32) :
    (gpiobSetBits (gpioPin m) b).level n = (b.level n || decide (n = m)) := by
  unfold gpiobSetBits gpioPin GpioB.level
  rw [BitVec.getLsbD_or, BitVec.getLsbD_twoPow]
  by_cases h : n = m
  · subst h
    simp [hn]
  · simp [h, Ne.symm h]

theorem level_gpiobResetBits (b : GpioB) {m n : Nat} (hn : n < 32) :
    (gpiobResetBits (gpioPin m) b).level n = (b.level n && !decide (n = m)) := by
  unfold gpiobResetBits gpioPin GpioB.level
  rw [BitVec.getLsbD_and, BitVec.getLsbD_not, BitVec.getLsbD_twoPow]
  by_cases h : n = m
  · subst h
    simp [hn]
  · simp [h, Ne.symm h, hn]

end Driver
end Ch579HttpLed
