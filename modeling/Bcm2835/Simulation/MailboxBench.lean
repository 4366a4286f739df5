import Bcm2835.Device
import Bcm2835.Mailbox.Port
import Bcm2835.Simulation.Firmware
import Bcm2835.Simulation.Trace

/-! A mailbox port with a simulated firmware behind it. Buffers have tokens for addresses, a new
one each time an address is asked for. The bench gives up after a fixed number of events, so that
a wait without end comes to an end. -/

namespace Bcm2835.Simulation

structure MailboxBench where
  firmware : Firmware
  /-- Buffers lie at this address, which no firmware reaches. -/
  unreachable : Option Nat := none
  /-- Addresses given out so far. -/
  tokens : Nat := 0
  /-- The message buffer. -/
  memory : List UInt32 := []
  trace : Trace := {}

namespace MailboxBench

/-- Events after which a bench gives up. -/
def patience : Nat := 5000

/-- The address of the buffer with that number. -/
def token (n : Nat) : UInt32 := UInt32.ofNat (n * 16)

def respond :
    (r : MailboxPort.Request) → MailboxBench → Option (MailboxPort.Answer r × MailboxBench)
  | .isFull, b =>
    let (word, firmware) := b.firmware.status
    let answer := MboxStatus.full.isSet word
    some (answer, { b with firmware, trace := b.trace.push (.full answer) })
  | .isEmpty, b =>
    let (word, firmware) := b.firmware.status
    let answer := MboxStatus.empty.isSet word
    some (answer, { b with firmware, trace := b.trace.push (.empty answer) })
  | .read, b =>
    let (word, firmware) := b.firmware.read
    some (word, { b with firmware, trace := b.trace.push (.readWord word) })
  | .write word, b =>
    let (firmware, _) := b.firmware.write word none
    some ((), { b with firmware, trace := b.trace.push (.writeWord word) })
  | .busAddress, b =>
    match b.unreachable with
    | some addr => some (.error (.bufferAddress addr), b)
    | none =>
      let number := b.tokens + 1
      let trace := b.trace.push (.address number)
      some (.ok (token number), { b with tokens := number, trace })
  | .post word message, b =>
    let (firmware, left) := b.firmware.write word (some message)
    let trace := b.trace.push (.writeWord word)
    let trace := if b.firmware.listens then trace.push (.message message) else trace
    some ((), { b with firmware, trace, memory := left.getD message })
  | .collect size, b => some (Vector.ofFn fun i : Fin size => b.memory.getD i.val 0, b)

/-- The bench answers as long as its patience lasts. -/
def device : Device MailboxPort MailboxBench where
  respond r b := (respond r b).filter fun (_, b) => b.trace.total ≤ patience

end MailboxBench

end Bcm2835.Simulation
