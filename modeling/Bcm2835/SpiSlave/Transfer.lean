import Bcm2835.Budget
import Bcm2835.SpiSlave.Port
import Bcm2835.SystemTimer

/-! Bytes in and out of the SPI slave, and the search for their boundaries. The interface knows no
bytes; the master repeats a marker, and as long as something else comes in the receive clock is
held off for a moment, which shifts the position of the bits. After enough markers in a row the
marker is sent back, and the master answers with an acknowledgement. -/

namespace Bcm2835.SpiSlave

open Program PcmPort

/-- What the master repeats until the slave is aligned. -/
def marker : UInt8 := 0x81

/-- What the master sends once the marker came back. -/
def acknowledgement : UInt8 := marker ^^^ 0xFF

/-- Markers in a row that count as aligned. -/
def syncRun : Nat := 10

/-- How long the receive clock is held off. -/
def glitchTicks : UInt32 := SystemTimer.ticksPerMicrosecond

inductive Observation where
  | matched
  /-- Not a marker: the run starts over. -/
  | glitch
  deriving DecidableEq, Repr

/-- The markers seen in a row so far. -/
structure Alignment where
  run : Nat := 0
  deriving DecidableEq, Repr

namespace Alignment

def observe (a : Alignment) (byte : UInt8) : Alignment × Observation :=
  if byte = marker then (⟨a.run + 1⟩, .matched) else (⟨0⟩, .glitch)

def isAligned (a : Alignment) : Bool := syncRun ≤ a.run

end Alignment

structure SyncReport where
  /-- Bytes read until the run of markers was complete. -/
  consumed : Nat := 0
  /-- How often the receive clock was held off. -/
  glitches : Nat := 0
  /-- Bytes read after the marker was sent back, the acknowledgement included. -/
  handshakeBytes : Nat := 0
  deriving DecidableEq, Repr

/-- Whether `count` bytes are waiting. Counts above 1 are answered as 1 is. -/
def poll (count : Nat) : Program PcmPort Bool :=
  if count = 0 then pure true else rxReady

def nextByte : Program PcmPort UInt8 := do
  waitUntil rxReady
  readFifo

/-- Queues a byte and throws away what came in meanwhile. -/
def putByte (byte : UInt8) : Program PcmPort Unit := do
  waitUntil txReady
  writeFifo byte
  drain rxReady (discard readFifo)

def read (budget : Budget) : Program PcmPort UInt8 := within budget nextByte

/-- The byte goes out only while the master clocks in the next one. -/
def write (budget : Budget) (byte : UInt8) : Program PcmPort Unit := within budget (putByte byte)

/-- Waits until the transmit FIFO is empty. -/
def flush (budget : Budget) : Program PcmPort Unit := within budget (waitUntil txEmpty)

/-- Holds the receive clock off for a moment. -/
def holdClock : Program PcmPort Unit := do
  setClock false
  delay glitchTicks
  setClock true

/-- Reads one byte, unless the run of markers is complete. Every byte but a marker holds the clock
off and costs one unit of waiting. -/
def seekMarker :
    Alignment × SyncReport → Program PcmPort (Step (Alignment × SyncReport) SyncReport)
  | (alignment, report) => do
    if alignment.isAligned then return .done report
    let byte ← nextByte
    let (alignment, observation) := alignment.observe byte
    let report := { report with consumed := report.consumed + 1 }
    match observation with
    | .matched => return .again (alignment, report)
    | .glitch =>
      holdClock
      let report := { report with glitches := report.glitches + 1 }
      tick
      return .again (alignment, report)

/-- Reads until the run of markers is complete. -/
def align : Program PcmPort SyncReport := loop seekMarker ({}, {})

/-- Reads one byte, and counts it. Every byte but the acknowledgement costs one unit of waiting. -/
def seekAcknowledgement (count : Nat) : Program PcmPort (Step Nat Nat) := do
  if (← nextByte) = acknowledgement then return .done (count + 1)
  tick
  return .again (count + 1)

/-- Reads until the acknowledgement, and counts the bytes. -/
def awaitAcknowledgement : Program PcmPort Nat := loop seekAcknowledgement 0

/-- Aligns to the master's bytes, then runs the handshake. -/
def exchangeMarkers : Program PcmPort SyncReport := do
  let found ← align
  report (.aligned found.consumed found.glitches)
  putByte marker
  let handshakeBytes ← awaitAcknowledgement
  report .synchronized
  return { found with handshakeBytes }

/-- The exchange of markers under one budget. A single wrong byte throws away all progress, so on a
noisy line this may never end without a bound on the budget. -/
def synchronize (budget : Budget) : Program PcmPort SyncReport := within budget exchangeMarkers

end Bcm2835.SpiSlave
