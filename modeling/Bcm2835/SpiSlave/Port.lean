import Bcm2835.Board

/-! The PCM interface as the SPI slave uses it: a FIFO each way, a receive clock that can be
stopped, and a delay. -/

namespace Bcm2835

namespace PcmPort

inductive Request where
  /-- The receive FIFO holds a byte. -/
  | rxReady
  /-- The transmit FIFO takes a byte. -/
  | txReady
  | txEmpty
  | readFifo
  | writeFifo (byte : UInt8)
  | setClock (enabled : Bool)
  | delay (ticks : UInt32)
  deriving DecidableEq, Repr

def Answer : Request → Type
  | .rxReady | .txReady | .txEmpty => Bool
  | .readFifo => UInt8
  | .writeFifo _ | .setClock _ | .delay _ => Unit

end PcmPort

abbrev PcmPort : Interface := ⟨PcmPort.Request, PcmPort.Answer⟩

namespace PcmPort

variable {α : Type}

def rxReady : Program PcmPort Bool := Program.request (I := PcmPort) .rxReady

def txReady : Program PcmPort Bool := Program.request (I := PcmPort) .txReady

def txEmpty : Program PcmPort Bool := Program.request (I := PcmPort) .txEmpty

def readFifo : Program PcmPort UInt8 := Program.request (I := PcmPort) .readFifo

def writeFifo (byte : UInt8) : Program PcmPort Unit :=
  Program.request (I := PcmPort) (.writeFifo byte)

def setClock (enabled : Bool) : Program PcmPort Unit :=
  Program.request (I := PcmPort) (.setClock enabled)

def delay (ticks : UInt32) : Program PcmPort Unit := Program.request (I := PcmPort) (.delay ticks)

/-- The port as the board wires it, with a delay of the caller's choice. -/
def onBoard (pause : UInt32 → Driver Unit) : (r : Request) → Driver (Answer r)
  | .rxReady => PcmBlock.cs.isSet PcmCs.rxd
  | .txReady => PcmBlock.cs.isSet PcmCs.txd
  | .txEmpty => PcmBlock.cs.isSet PcmCs.txe
  | .readFifo => UInt32.toUInt8 <$> PcmBlock.fifo.get
  | .writeFifo byte => PcmBlock.fifo.set byte.toUInt32
  | .setClock enabled =>
    PcmBlock.mode.modify (if enabled then PcmMode.clkDis.clear else PcmMode.clkDis.set)
  | .delay ticks => pause ticks

/-- A program on the port, run on the board. -/
def drive (pause : UInt32 → Driver Unit) (p : Program PcmPort α) : Driver α :=
  p.lower (onBoard pause)

end PcmPort

end Bcm2835
