import Bcm2835.Budget
import Bcm2835.Gpio

/-! The mini UART on pins 14 and 15, with eight data bits and no interrupts. -/

namespace Bcm2835.Uart1

open Program

/-- The clock the divisor counts from, in Hz. -/
def coreClock : UInt32 := 250000000

/-- Transmitter, receiver. -/
def pins : List UInt8 := [14, 15]

/-- What the baud register takes for a bit rate: an eighth of the core clock in units of the rate,
less one. -/
def baudDivisor (bitrate : UInt32) : Except Fault UInt32 := do
  let units ← Fault.quotient (coreClock / 8) bitrate
  return if units = 0 then 0 else units - 1

/-- Attaches the port to its pins. It is reprogrammed with both directions off, once the receiver
is idle. -/
def init (budget : Budget) (bitrate : UInt32) : Driver Unit :=
  within budget do
    pins.forM fun pin => do
      Gpio.setPull pin .off
      Gpio.configure pin .alt5
    AuxBlock.irq.modify AuxDevices.miniUart.clear
    AuxBlock.enables.modify AuxDevices.miniUart.set
    Uart1Block.cntl.set 0
    waitUntil (Uart1Block.stat.isSet MuStat.rxIdle)
    Uart1Block.ier.set 0
    Uart1Block.lcr.write (MuLcr.dataSize.val 3)
    Uart1Block.baud.write (MuBaud.baud.val (← ofFaulty (baudDivisor bitrate)))
    Uart1Block.iir.write (MuIir.fifo.val 3)
    Uart1Block.cntl.modify (MuCntl.txEnable.set + MuCntl.rxEnable.set)

/-- Whether `count` bytes are waiting. Counts above 1 are answered as 1 is. -/
def poll (count : Nat) : Driver Bool := do
  if count = 0 then return true
  Uart1Block.stat.isSet MuStat.rxReady

def read (budget : Budget) : Driver UInt8 :=
  within budget do
    waitUntil (Uart1Block.stat.isSet MuStat.rxReady)
    return (← Uart1Block.io.read MuIo.data).toUInt8

def write (budget : Budget) (byte : UInt8) : Driver Unit :=
  within budget do
    waitUntil (Uart1Block.stat.isSet MuStat.txReady)
    Uart1Block.io.write (MuIo.data.val byte.toUInt32)

/-- Waits until the transmitter is idle with an empty FIFO. -/
def flush (budget : Budget) : Driver Unit :=
  within budget (waitUntil (Uart1Block.stat.isSet MuStat.txDone))

/-- Writes the UTF-8 bytes of a text, each under a budget of its own. -/
def writeText (budget : Budget) (text : String) : Driver Unit :=
  text.toUTF8.toList.forM (write budget)

/-- The same for a formatter, which is not told why a text failed. -/
def formatText (budget : Budget) (text : String) : Driver (Except FormatError Unit) :=
  (writeText budget text).wrapping fun _ => .failed

end Bcm2835.Uart1
