import Bcm2835.Machine
import Bcm2835.Simulation.BoardBench
import Bcm2835.Simulation.Files

/-! A simulated machine: a simulated board, files, and what was printed. The device file is a file
like any other; it has to be there, and what it holds does not matter. -/

namespace Bcm2835.Simulation

structure MachineBench where
  board : BoardBench := {}
  files : Files
  /-- Printed texts, newest first. -/
  printed : List String := []

namespace MachineBench

/-- Where the device is mapped. -/
def address : Nat := 0x1000

/-- Bytes of the longest stretch of addresses that is free. Of the 47 bits of addresses the program
lies behind the first two thirds; the stretch goes from the second page up to it. -/
def freeStretch : Nat := 0x555555553000

/-- What the system says to a mapping: it starts at a page, has at least one byte, and fits into a
free stretch. -/
def mapDevice (base : UInt32) (length : Nat) : Except FileError Nat :=
  if base.toNat % Machine.pageSize ≠ 0 ∨ length = 0 then .error .invalidArgument
  else if freeStretch < length then .error .outOfMemory
  else .ok address

def respond : (r : Machine.Request) → MachineBench → Option (Machine.Answer r × MachineBench)
  | .board r, b => (BoardBench.respond r b.board).map fun (a, board) => (a, { b with board })
  | .readFile path, b => some (b.files.read path, b)
  | .openDevice path, b => some (discard (b.files.read path), b)
  | .mapDevice base length, b =>
    let event := .mapDevice base length Machine.protection Machine.mapFlags
    let board := { b.board with trace := b.board.trace.push event }
    some (mapDevice base length, { b with board })
  | .print text, b => some ((), { b with printed := text :: b.printed })

def device : Device Machine MachineBench := ⟨respond⟩

/-- All that was printed, in order. -/
def output (b : MachineBench) : String := String.join b.printed.reverse

end MachineBench

end Bcm2835.Simulation
