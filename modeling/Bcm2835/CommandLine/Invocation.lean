import Bcm2835.CommandLine.Grammar
import Bcm2835.Mapper

/-! What the arguments ask for. -/

namespace Bcm2835.CommandLine

/-- How the peripherals are mapped. -/
structure MapOptions where
  device : String := "/dev/mem"
  ranges : String := SocRanges.defaultPath
  base : Option UInt32 := none
  deriving DecidableEq, Repr

def MapOptions.config (o : MapOptions) : MapConfig := { rangesPath := o.ranges, base := o.base }

inductive Command where
  | info (firmware : Bool)
  /-- Without a count the pin blinks for ever. -/
  | blink (pin : UInt8) (milliseconds : Nat) (count : Option Nat)
  | clockGet (clock : Clock)
  | clockMeasured (clock : Clock)
  | clockSet (clock : Clock) (rate : UInt32)
  | spisl
  deriving DecidableEq, Repr

structure Invocation where
  options : MapOptions
  command : Command
  deriving DecidableEq, Repr

/-- The value of a parameter. -/
def Given.value? (g : Given) (p : ParameterName) : Option Value :=
  (g.find? fun e => e.1 == p).map (·.2)

namespace Value

def number? : Value → Option Nat
  | number n => some n
  | _ => none

def path? : Value → Option String
  | path text => some text
  | _ => none

def base? : Value → Option UInt32
  | base b => some b
  | _ => none

def clock? : Value → Option Clock
  | clock c => some c
  | _ => none

end Value

namespace Command

/-- The command that a name and its values stand for. -/
def ofGiven (name : CommandName) (g : Given) : Option Command :=
  let number (p : ParameterName) := (Given.value? g p).bind Value.number?
  let clock := (Given.value? g .clock).bind Value.clock?
  match name with
  | .info => some (.info (Given.value? g .firmware).isSome)
  | .blink =>
    let pin := UInt8.ofNat ((number .pin).getD 16)
    some (.blink pin ((number .period).getD 1000) (number .count))
  | .clockGet => clockGet <$> clock
  | .clockMeasured => clockMeasured <$> clock
  | .clockSet => do return clockSet (← clock) (UInt32.ofNat (← number .rate))
  | .spisl => some spisl
  | .program | .clock => none

end Command

/-- The mapping options, of which the commands further down have the last word. -/
def MapOptions.ofLevels (levels : List (CommandName × Given)) : MapOptions :=
  levels.foldl (fun o (_, g) => {
    device := ((Given.value? g .device).bind Value.path?).getD o.device
    ranges := ((Given.value? g .ranges).bind Value.path?).getD o.ranges
    base := ((Given.value? g .base).bind Value.base?).orElse fun _ => o.base }) {}

/-- Reads the arguments behind the name of the program. -/
def Invocation.read (args : List String) : Except Refusal Invocation := do
  let levels ← parse { command := .program } args
  match levels.getLast? with
  | none => .error .usage
  | some (name, given) =>
    match Command.ofGiven name given with
    | none => .error .usage
    | some command => return ⟨MapOptions.ofLevels levels, command⟩

end Bcm2835.CommandLine
