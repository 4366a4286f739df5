import Bcm2835.Device
import Bcm2835.SpiSlave.Port
import Bcm2835.Simulation.Trace

/-! A PCM port that is fed from a script of bytes and pauses. It gives up after a fixed number of
events. -/

namespace Bcm2835.Simulation

/-- What the receiver shows next. -/
inductive Arrival where
  | byte (b : UInt8)
  /-- So many polls find nothing. -/
  | quiet (polls : Nat)
  deriving DecidableEq, Repr

structure PcmBench where
  script : List Arrival := []
  /-- The byte that comes in for ever behind the script. -/
  idle : Option UInt8 := none
  /-- The script that takes over with the write of that number. -/
  after : List (List Arrival) := []
  /-- Answers to the next polls of the transmitter; then it always has room. -/
  room : List Bool := []
  /-- Answers to the next polls for an empty transmitter; then it always is. -/
  sent : List Bool := []
  writes : Nat := 0
  trace : Trace := {}

namespace PcmBench

/-- Events after which a bench gives up. -/
def patience : Nat := 5000

/-- Whether a byte is there, and the script after that was asked. -/
def poll (b : PcmBench) : Bool × List Arrival :=
  match b.script with
  | .byte _ :: _ => (true, b.script)
  | .quiet n :: rest => (false, if n ≤ 1 then rest else .quiet (n - 1) :: rest)
  | [] => (b.idle.isSome, [])

def respond : (r : PcmPort.Request) → PcmBench → Option (PcmPort.Answer r × PcmBench)
  | .rxReady, b =>
    let (answer, script) := b.poll
    some (answer, { b with script, trace := b.trace.push (.rxReady answer) })
  | .txReady, b =>
    let answer := b.room.headD true
    some (answer, { b with room := b.room.tail, trace := b.trace.push (.txReady answer) })
  | .txEmpty, b =>
    let answer := b.sent.headD true
    some (answer, { b with sent := b.sent.tail, trace := b.trace.push (.txEmpty answer) })
  | .readFifo, b =>
    let (byte, script) :=
      match b.script with
      | .byte byte :: rest => (byte, rest)
      | script => (b.idle.getD 0, script)
    some (byte, { b with script, trace := b.trace.push (.readByte byte) })
  | .writeFifo byte, b =>
    some ((), { b with
      script := b.after.getD b.writes b.script
      writes := b.writes + 1
      trace := b.trace.push (.writeByte byte) })
  | .setClock enabled, b => some ((), { b with trace := b.trace.push (.clock enabled) })
  | .delay ticks, b => some ((), { b with trace := b.trace.push (.delay ticks) })

/-- The bench answers as long as its patience lasts. -/
def device : Device PcmPort PcmBench where
  respond r b := (respond r b).filter fun (_, b) => b.trace.total ≤ patience

end PcmBench

end Bcm2835.Simulation
