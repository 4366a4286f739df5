import Bcm2835.CommandLine.Invocation
import Bcm2835.Machine
import Bcm2835.Mailbox.Calls
import Bcm2835.SpiSlave.Setup
import Bcm2835.Text.Lines

/-! The commands. Each maps the peripherals as far as it needs them, works on them without a bound
on its waiting, and prints what it found. -/

namespace Bcm2835.CommandLine

open Program

/-- Why a command failed: what it was about, and what that goes back to. -/
structure Failure where
  message : String
  causes : List String
  deriving DecidableEq, Repr

namespace Failure

def ofError (e : Error) : Failure := ⟨e.message, e.cause?.toList⟩

/-- An error in the course of something. -/
def during (context : String) (e : Error) : Failure := ⟨context, e.message :: e.cause?.toList⟩

/-- A text behind a mark, with blanks under the mark. -/
def marked (mark text : String) : String := mark ++ Text.hang mark.length text

/-- The report on a failure. Several causes are numbered. -/
def report (f : Failure) : String :=
  let causes :=
    match f.causes with
    | [] => []
    | [cause] => ["", "Caused by:", marked "    " cause]
    | causes =>
      "" :: "Caused by:" ::
        causes.zipIdx.map fun (cause, i) => marked s!"    {Numeral.decimal i}: " cause
  "\n".intercalate (s!"Error: {f.message}" :: causes)

/-- The lines of the report. -/
def lines (f : Failure) : List String := Text.lines (f.report ++ "\n")

end Failure

/-- A command on its way: it goes on with a value or ends with a failure. -/
abbrev Action (α : Type) : Type := ExceptT Failure (Program Machine) α

namespace Action

variable {α : Type}

def print (line : String) : Action Unit := ExceptT.lift (Machine.print (line ++ "\n"))

def report (n : Notice) : Action Unit := ExceptT.lift (Program.report n)

/-- Runs a program of the machine; an error becomes the failure that `wrap` makes of it. -/
def run (wrap : Error → Failure) (p : Program Machine α) : Action α := ExceptT.mk (p.wrapping wrap)

/-- Runs a program on the board. -/
def onBoard (wrap : Error → Failure) (p : Driver α) : Action α := run wrap (Machine.onBoard p)

end Action

open CommandLine.Action

/-- Maps the peripherals, which a command does at most once. -/
def mapPeripherals (o : MapOptions) : Action Unit :=
  run (.during s!"failed to map peripherals through {o.device}") do
    let (result, _) ← Machine.onHost o.device ((Mapper.mk none).map o.config)
    let _ ← ofExcept result

def info (o : MapOptions) (firmware : Bool) : Action Unit := do
  run (.during "built-in peripheral layout is inconsistent")
    (ofOutcome (Layout.validate Layout.regions))
  let base ← ExceptT.lift (Machine.onHost o.device o.config.resolveBase)
  let size := Numeral.address 1 Layout.blockSize.toNat
  print s!"Peripheral base: {Numeral.address 8 base.toNat} ({size} bytes)"
  print s!"Bus base:        {Numeral.address 8 Layout.busBase.toNat}"
  print ""
  let paddings ← ExceptT.lift (ofFaulty (Layout.paddings Layout.regions))
  paddings.forM fun (region, padding) => do
    let line ← ExceptT.lift (ofFaulty region.describe)
    print s!"  {line}  +{Numeral.address 1 padding.toNat} padding"
  if firmware then
    mapPeripherals o
    let revision ← onBoard (.during "firmware revision query failed")
      (MailboxPort.drive (Mailbox.firmwareRevision .unlimited))
    print ""
    print s!"Firmware revision: {Numeral.address 8 revision.toNat}"

/-- One cycle: the pin high for half of the period, then low for half of it. -/
def blinkCycle (pin : UInt8) (half : Duration) : Driver Unit := do
  Gpio.set pin
  SystemTimer.waitFor half
  Gpio.clear pin
  SystemTimer.waitFor half

/-- So many cycles. -/
def blinkCycles (pin : UInt8) (half : Duration) : Nat → Driver Unit
  | 0 => pure ()
  | n + 1 => do
    blinkCycle pin half
    blinkCycles pin half n

def blink (o : MapOptions) (pin : UInt8) (milliseconds : Nat) (count : Option Nat) :
    Action Unit := do
  if Gpio.pinCount ≤ pin.toNat then
    throw ⟨s!"GPIO {Numeral.decimal pin.toNat} does not exist, " ++
      s!"the last one is {Numeral.decimal (Gpio.pinCount - 1)}", []⟩
  mapPeripherals o
  let half := (Duration.ofMilliseconds milliseconds).half
  onBoard .ofError (Gpio.configure pin .output)
  report (.blinking pin milliseconds)
  onBoard .ofError <|
    match count with
    | some n => blinkCycles pin half n
    | none => loop (fun _ => do blinkCycle pin half; return .again ()) ()

def clockGet (o : MapOptions) (clock : Clock) : Action Unit := do
  mapPeripherals o
  let rate ← onBoard (.during s!"failed to read the {clock.name} clock")
    (MailboxPort.drive (Mailbox.clockRate .unlimited clock))
  print s!"{clock.name}: {Numeral.decimal rate.toNat} Hz"

def clockMeasured (o : MapOptions) (clock : Clock) : Action Unit := do
  mapPeripherals o
  let rate ← onBoard (.during s!"failed to measure the {clock.name} clock")
    (MailboxPort.drive (Mailbox.measuredClockRate .unlimited clock))
  print s!"{clock.name}: {Numeral.decimal rate.toNat} Hz (measured)"

def clockSet (o : MapOptions) (clock : Clock) (rate : UInt32) : Action Unit := do
  mapPeripherals o
  onBoard (.during s!"failed to set the {clock.name} clock")
    (MailboxPort.drive (Mailbox.setClockRate .unlimited clock rate))
  print s!"{clock.name}: set to {Numeral.decimal rate.toNat} Hz"

def spisl (o : MapOptions) : Action Unit := do
  mapPeripherals o
  onBoard (.during "PCM setup failed") (SpiSlave.init .unlimited SystemTimer.delay)
  report .awaitingMarker
  let found ← onBoard (.during "synchronization failed")
    (PcmPort.drive SystemTimer.delay (SpiSlave.synchronize .unlimited))
  print "Synchronized"
  print s!"  bytes consumed:  {Numeral.decimal found.consumed}"
  print s!"  clock glitches:  {Numeral.decimal found.glitches}"
  print s!"  handshake bytes: {Numeral.decimal found.handshakeBytes}"

def Invocation.action (i : Invocation) : Action Unit :=
  match i.command with
  | .info firmware => info i.options firmware
  | .blink pin milliseconds count => blink i.options pin milliseconds count
  | .clockGet clock => CommandLine.clockGet i.options clock
  | .clockMeasured clock => CommandLine.clockMeasured i.options clock
  | .clockSet clock rate => CommandLine.clockSet i.options clock rate
  | .spisl => CommandLine.spisl i.options

end Bcm2835.CommandLine
