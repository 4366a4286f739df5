import Bcm2835.Gpio
import Bcm2835.Mailbox.Calls

/-! The full UART on pins 14 and 15, with eight data bits, no parity, one stop bit and the FIFOs
on. -/

namespace Bcm2835.Uart0

open Program

/-- The reference clock asked of the firmware, in Hz. -/
def referenceClock : UInt32 := 3000000

/-- Transmitter, receiver. -/
def pins : List UInt8 := [14, 15]

/-- The divisor of the reference clock: the bit rate is a sixteenth of what it leaves. -/
def integerDivisor (bitrate : UInt32) : Except Fault UInt32 := do
  return (← Fault.quotient referenceClock bitrate) / 16

/-- The 64ths that belong to the divisor. -/
def fractionalDivisor (bitrate : UInt32) : Except Fault UInt32 := do
  return (← Fault.quotient (referenceClock * 4) bitrate) % 64

/-- Programs the port for a reference clock that runs already. It is switched off while it is
reprogrammed, which has to wait for the byte on the line. -/
def configure (budget : Budget) (bitrate : UInt32) : Driver Unit :=
  within budget do
    Uart0Block.cr.modify Uart0Cr.uarten.clear
    waitUntil (not <$> Uart0Block.fr.isSet Uart0Fr.busy)
    Uart0Block.cr.write (Uart0Cr.txe.set + Uart0Cr.rxe.set)
    Uart0Block.lcrh.write (Uart0Lcrh.fen.set + Uart0Lcrh.wlen.val 3)
    Uart0Block.ibrd.write (Uart0Ibrd.ibrd.val (← ofFaulty (integerDivisor bitrate)))
    Uart0Block.fbrd.write (Uart0Fbrd.fbrd.val (← ofFaulty (fractionalDivisor bitrate)))
    Uart0Block.cr.modify Uart0Cr.uarten.set
    pins.forM fun pin => do
      Gpio.setPull pin .off
      Gpio.configure pin .alt0

/-- Has the firmware set the reference clock, then programs the port. Each call to the firmware
and the programming have the whole budget. -/
def init (budget : Budget) (bitrate : UInt32) : Driver Unit := do
  MailboxPort.drive (Mailbox.setClockRate budget .uart referenceClock)
  configure budget bitrate

/-- Whether a byte can be read without waiting. -/
def poll : Driver Bool := not <$> Uart0Block.fr.isSet Uart0Fr.rxfe

def read (budget : Budget) : Driver UInt8 :=
  within budget do
    waitUntil poll
    return (← Uart0Block.dr.read Uart0Dr.data).toUInt8

def write (budget : Budget) (byte : UInt8) : Driver Unit :=
  within budget do
    waitUntil (not <$> Uart0Block.fr.isSet Uart0Fr.txff)
    Uart0Block.dr.write (Uart0Dr.data.val byte.toUInt32)

/-- Whether the FIFO is empty and the line at rest. The line is looked at only if the FIFO is
empty. -/
def drained : Driver Bool := do
  if ← Uart0Block.fr.isSet Uart0Fr.txfe then
    not <$> Uart0Block.fr.isSet Uart0Fr.busy
  else
    return false

/-- Waits until the last byte has left. -/
def flush (budget : Budget) : Driver Unit := within budget (waitUntil drained)

/-- Writes the UTF-8 bytes of a text, each under a budget of its own. -/
def writeText (budget : Budget) (text : String) : Driver Unit :=
  text.toUTF8.toList.forM (write budget)

/-- The same for a formatter, which is not told why a text failed. -/
def formatText (budget : Budget) (text : String) : Driver (Except FormatError Unit) :=
  (writeText budget text).wrapping fun _ => .failed

end Bcm2835.Uart0
