import Bcm2835.Text.Numeral

/-! What simulated hardware writes down: the events of a run in order, where equal events in a row
take one line. -/

namespace Bcm2835.Simulation

open Numeral (decimal hex)

/-- Events of every kind of simulated hardware. -/
inductive Event where
  | full (answer : Bool)
  | empty (answer : Bool)
  | readWord (word : UInt32)
  | writeWord (word : UInt32)
  /-- A message as the firmware found it. -/
  | message (words : List UInt32)
  /-- An address was asked for, for the time of that number. -/
  | address (number : Nat)
  | rxReady (answer : Bool)
  | txReady (answer : Bool)
  | txEmpty (answer : Bool)
  | readByte (byte : UInt8)
  | writeByte (byte : UInt8)
  | clock (enabled : Bool)
  | delay (ticks : UInt32)
  | readRegister (offset : Nat) (word : UInt32)
  | writeRegister (offset : Nat) (word : UInt32)
  | mapMemory (base : UInt32) (length : Nat)
  /-- Mapping through a device file, with protection and flags. -/
  | mapDevice (base : UInt32) (length protection flags : Nat)
  deriving DecidableEq, Repr

namespace Event

private def flag (b : Bool) : String := if b then "1" else "0"

private def word (w : UInt32) : String := hex 8 w.toNat

def text : Event → String
  | full b => "full " ++ flag b
  | empty b => "empty " ++ flag b
  | readWord w => "read " ++ word w
  | writeWord w => "write " ++ word w
  | message ws => " ".intercalate ("m" :: ws.map word)
  | address n => "addr " ++ decimal n
  | rxReady b => "rx " ++ flag b
  | txReady b => "tx " ++ flag b
  | txEmpty b => "txe " ++ flag b
  | readByte b => "read " ++ hex 2 b.toNat
  | writeByte b => "write " ++ hex 2 b.toNat
  | clock b => "clock " ++ flag b
  | delay ticks => "delay " ++ decimal ticks.toNat
  | readRegister offset w => "r " ++ hex 6 offset ++ " " ++ word w
  | writeRegister offset w => "w " ++ hex 6 offset ++ " " ++ word w
  | mapMemory base length => "map " ++ word base ++ " " ++ hex 1 length
  | mapDevice base length protection flags =>
    "map " ++ word base ++ " " ++ hex 1 length ++ " prot " ++ hex 1 protection ++
      " flags " ++ hex 1 flags

end Event

/-- Events of a run, newest first, and how many there were in all its steps. -/
structure Trace where
  events : List Event := []
  total : Nat := 0
  deriving DecidableEq, Repr

namespace Trace

def push (t : Trace) (e : Event) : Trace := ⟨e :: t.events, t.total + 1⟩

/-- Forgets the events of the step before. -/
def nextStep (t : Trace) : Trace := { t with events := [] }

/-- Equal elements in a row with their number, oldest first. -/
def runs : List Event → List (Event × Nat) :=
  List.foldl (fun seen e =>
    match seen with
    | (f, n) :: rest => if e = f then (f, n + 1) :: rest else (e, 1) :: seen
    | [] => [(e, 1)]) []

/-- One line for each run of equal events. -/
def lines (t : Trace) : List String :=
  (runs t.events).map fun (e, n) => if n = 1 then e.text else s!"{e.text} x{decimal n}"

end Trace

end Bcm2835.Simulation
