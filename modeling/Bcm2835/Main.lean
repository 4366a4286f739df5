import Bcm2835.CommandLine.Session

/-! The program, on a simulated board: a memory device, no device tree record, a counter that runs,
and a firmware with a few clocks. -/

namespace Bcm2835.CommandLine

open Simulation

def demonstrationClocks : ClockBank where
  entries := [
    (Clock.uart.number, { state := 1, rate := 48000000, measured := 47999000 }),
    (Clock.arm.number, { state := 1, rate := 700000000, measured := 699998000 }),
    (Clock.core.number, { state := 1, rate := 250000000, measured := 249999000 })]

def demonstration : MachineBench where
  board := {
    timer := some { counter := 0, step := 1 }
    firmware := some (Firmware.new {} demonstrationClocks []) }
  files := { entries := [(["dev", "mem"], .file [])] }

/-- Rounds after which a loop of the demonstration is given up. -/
def demonstrationLimit : Nat := 100000000

/-- Runs the program and answers with its exit code. -/
def perform (args : List String) : IO UInt32 := do
  match Session.run demonstrationLimit demonstration args with
  | none => return 1
  | some session =>
    session.shown.forM fun notice => (noticeLines notice).forM fun line => IO.eprintln line
    IO.print session.ending.output
    session.ending.complaint.forM fun line => IO.eprintln line
    return session.ending.code.toUInt32

end Bcm2835.CommandLine

def main (args : List String) : IO UInt32 := Bcm2835.CommandLine.perform args
