import Bcm2835.Failure
import Bcm2835.Mailbox.Names

/-! What the library reports while it works. A notice is kept as its cause; `Notice.text` is the
wording. -/

namespace Bcm2835

open Numeral (decimal address)

inductive Level where
  | trace
  | debug
  | info
  | warn
  deriving DecidableEq, Repr

namespace Level

def name : Level → String
  | trace => "TRACE"
  | debug => "DEBUG"
  | info => "INFO"
  | warn => "WARN"

def rank : Level → Nat
  | trace => 0
  | debug => 1
  | info => 2
  | warn => 3

end Level

inductive Notice where
  /-- A mailbox word that answers something else was thrown away. -/
  | discarded (word wanted : UInt32)
  /-- The firmware answered a message with a code other than success. -/
  | answerCode (code : UInt32)
  | answered (tag : Tag) (bytes : UInt32)
  | aligned (consumed glitches : Nat)
  | synchronized
  | attached
  | awaitingMarker
  | blinking (pin : UInt8) (milliseconds : Nat)
  /-- The board wires the peripherals to a bus address no register offset here is made for. -/
  | foreignBus (path : String) (bus expected : UInt32)
  | noRecord (path : String) (cause : FileError) (fallback : UInt32)
  | mapping (length : Nat) (base : UInt32)
  | mapped (addr : Nat)
  deriving DecidableEq, Repr

namespace Notice

def level : Notice → Level
  | discarded .. => .trace
  | answerCode .. | answered .. | aligned .. | noRecord .. | mapped .. => .debug
  | synchronized | attached | awaitingMarker | blinking .. | mapping .. => .info
  | foreignBus .. => .warn

def text : Notice → String
  | discarded word wanted =>
    s!"mailbox: discarding {address 8 word.toNat} while waiting for {address 8 wanted.toNat}"
  | answerCode code => s!"mailbox: firmware answered with code {address 8 code.toNat}"
  | answered tag bytes => s!"mailbox: {tag.name} answered with {decimal bytes.toNat} bytes"
  | aligned consumed glitches =>
    s!"spi slave: aligned after {decimal consumed} bytes and {decimal glitches} glitches"
  | synchronized => "spi slave: synchronized with master"
  | attached => "spi slave: PCM attached to GPIO 28..=31"
  | awaitingMarker => "waiting for the master to send the sync marker"
  | blinking pin milliseconds =>
    s!"blinking GPIO {decimal pin.toNat} every {decimal milliseconds} ms"
  | foreignBus path bus expected =>
    s!"{path} maps the peripherals to bus address {address 8 bus.toNat}, " ++
      s!"expected {address 8 expected.toNat}; this board revision is not supported"
  | noRecord path cause fallback =>
    s!"no usable record in {path} ({cause.message}), using {address 8 fallback.toNat}"
  | mapping length base =>
    s!"mapping {address 1 length} bytes of peripherals at {address 8 base.toNat}"
  | mapped addr => s!"peripherals mapped at {address 1 addr}"

/-- One line of a log. -/
def line (n : Notice) : String := s!"{n.level.name} {n.text}"

end Notice

end Bcm2835
