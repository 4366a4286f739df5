import Bcm2835.Board

/-! The general purpose pins. Each pin has a function field of three bits, ten to a word, and one
bit in each of the set, clear, level and pull clock banks of 32 pins. -/

namespace Bcm2835

inductive PinFunction where
  | input
  | output
  | alt0
  | alt1
  | alt2
  | alt3
  | alt4
  | alt5
  deriving DecidableEq, Repr

namespace PinFunction

def all : List PinFunction := [input, output, alt0, alt1, alt2, alt3, alt4, alt5]

/-- The alternate functions are not numbered in order. -/
def code : PinFunction → UInt32
  | input => 0
  | output => 1
  | alt0 => 4
  | alt1 => 5
  | alt2 => 6
  | alt3 => 7
  | alt4 => 3
  | alt5 => 2

def name : PinFunction → String
  | input => "Input"
  | output => "Output"
  | alt0 => "Alt0"
  | alt1 => "Alt1"
  | alt2 => "Alt2"
  | alt3 => "Alt3"
  | alt4 => "Alt4"
  | alt5 => "Alt5"

end PinFunction

inductive Pull where
  | off
  | down
  | up
  deriving DecidableEq, Repr

namespace Pull

def all : List Pull := [off, down, up]

def code : Pull → UInt32
  | off => 0
  | down => 1
  | up => 2

def name : Pull → String
  | off => "Off"
  | down => "Down"
  | up => "Up"

end Pull

namespace Gpio

open Program Register

def pinCount : Nat := 54

abbrev Pin : Type := Fin pinCount

/-- Only the pins that exist are ever addressed. -/
def check (pin : UInt8) : Driver Pin :=
  if h : pin.toNat < pinCount then pure ⟨pin.toNat, h⟩ else raise (.invalidPin pin)

/-- The function field of a pin within its word. -/
def functionField (pin : Pin) : Field where
  name := "FSEL"
  offset := pin.val % 10 * 3
  width := 3
  fits := by omega

/-- The bit of a pin within its bank. -/
def bit (pin : Pin) : UInt32 := 1 <<< UInt32.ofNat (pin.val % 32)

/-- Offset of the bank of a pin in a row of banks. -/
def bank (r : Register) (pin : Pin) : Nat := r.slot (pin.val / 32)

def configure (pin : UInt8) (function : PinFunction) : Driver Unit := do
  let pin ← check pin
  let word := GpioBlock.fsel.slot (pin.val / 10)
  setAt word (((functionField pin).val function.code).applyTo (← getAt word))

/-- Drives an output high. -/
def set (pin : UInt8) : Driver Unit := do
  let pin ← check pin
  setAt (bank GpioBlock.set pin) (bit pin)

/-- Drives an output low. -/
def clear (pin : UInt8) : Driver Unit := do
  let pin ← check pin
  setAt (bank GpioBlock.clr pin) (bit pin)

/-- The level of a pin. -/
def read (pin : UInt8) : Driver Bool := do
  let pin ← check pin
  return (← getAt (bank GpioBlock.lev pin)) &&& bit pin != 0

/-- Latches a pull into one pin: the pull is put up, the pin is clocked, both are taken back. -/
def setPull (pin : UInt8) (pull : Pull) : Driver Unit := do
  let pin ← check pin
  GpioBlock.pud.write (GpioPud.pud.val pull.code)
  setAt (bank GpioBlock.pudclk pin) (bit pin)
  GpioBlock.pud.write (GpioPud.pud.val Pull.off.code)
  setAt (bank GpioBlock.pudclk pin) 0

end Gpio

end Bcm2835
