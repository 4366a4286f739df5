import Bcm2835.Budget
import Bcm2835.Gpio

/-! The SPI master on pins 7 to 11, in mode 1: the clock rests low, data are taken on its second
edge. -/

namespace Bcm2835.Spi0

open Program

/-- The clock the divisor counts from, in Hz. -/
def coreClock : UInt32 := 250000000

/-- Depth of the FIFO in each direction. -/
def fifoSize : Nat := 16

/-- Both chip selects, MISO, MOSI and the clock. -/
def pins : List UInt8 := [7, 8, 9, 10, 11]

/-- The divisor for a speed in bit/s. 0 stands for 65536, the slowest; 2 is the fastest. -/
def clockDivisor (speed : UInt32) : Except Fault UInt32 := do
  let divisor ← Fault.quotient coreClock speed
  return if 0xFFFF < divisor then 0 else max divisor 2

def init (speed : UInt32) : Driver Unit := do
  Spi0Block.clk.write (Spi0Clk.cdiv.val (← ofFaulty (clockDivisor speed)))
  Spi0Block.cs.modify (Spi0Cs.cpol.clear + Spi0Cs.cpha.set)
  pins.forM fun pin => do
    Gpio.configure pin .alt0

/-- Begins a transfer to a chip select with an empty receive FIFO. -/
def start (chipSelect : UInt8) : Driver Unit :=
  Spi0Block.cs.modify
    (Spi0Cs.cs.val chipSelect.toUInt32 + Spi0Cs.clear.val 2 + Spi0Cs.ta.set)

/-- Ends the transfer once all that was queued is sent. -/
def stop (budget : Budget) : Driver Unit :=
  within budget do
    waitUntil (Spi0Block.cs.isSet Spi0Cs.done)
    Spi0Block.cs.modify Spi0Cs.ta.clear

/-- Whether `count` bytes are waiting. Counts above 1 are judged by the fill flags of the FIFO,
which may say yes early. -/
def poll (count : Nat) : Driver Bool :=
  if count = 0 then pure true
  else if count < fifoSize * 3 / 4 then Spi0Block.cs.isSet Spi0Cs.rxd
  else if count < fifoSize then Spi0Block.cs.isSet Spi0Cs.rxr
  else Spi0Block.cs.isSet Spi0Cs.rxf

/-- A byte comes in only while one goes out. -/
def read (budget : Budget) : Driver UInt8 :=
  within budget do
    waitUntil (Spi0Block.cs.isSet Spi0Cs.rxd)
    return (← Spi0Block.fifo.get).toUInt8

def write (budget : Budget) (byte : UInt8) : Driver Unit :=
  within budget do
    waitUntil (Spi0Block.cs.isSet Spi0Cs.txd)
    Spi0Block.fifo.set byte.toUInt32

/-- Whether no transfer is active, or all of it is sent. The second is looked at only if the first
does not hold. -/
def drained : Driver Bool := do
  if ← Spi0Block.cs.isSet Spi0Cs.ta then
    Spi0Block.cs.isSet Spi0Cs.done
  else
    return true

def flush (budget : Budget) : Driver Unit := within budget (waitUntil drained)

end Bcm2835.Spi0
