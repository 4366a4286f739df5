import Bcm2835.Device
import Bcm2835.SocRanges
import Bcm2835.Simulation.Files
import Bcm2835.Simulation.Trace

/-! A simulated system that maps memory as a list of results says. -/

namespace Bcm2835.Simulation

/-- How a request to map memory ends. -/
inductive MapResult where
  | mapped
  /-- The system refuses that base and length. -/
  | refused (cause : FileError)
  | failed (e : Error)
  deriving DecidableEq, Repr

structure HostBench where
  files : Files
  /-- Results of the next requests; then every request succeeds. -/
  results : List MapResult := []
  /-- Requests that succeeded so far. -/
  successes : Nat := 0
  trace : Trace := {}

namespace HostBench

/-- The address of the mapping with that number. -/
def address (n : Nat) : Nat := n * 0x1000

def respond : (r : Host.Request) → HostBench → Host.Answer r × HostBench
  | .readFile path, b => (b.files.read path, b)
  | .mapMemory base length, b =>
    let result := b.results.headD .mapped
    let b := { b with results := b.results.tail, trace := b.trace.push (.mapMemory base length) }
    match result with
    | .mapped => (.ok (address (b.successes + 1)), { b with successes := b.successes + 1 })
    | .refused cause => (.error (.cannotMap base length cause), b)
    | .failed e => (.error e, b)

def device : Device Host HostBench := ⟨fun r b => some (respond r b)⟩

end HostBench

end Bcm2835.Simulation
