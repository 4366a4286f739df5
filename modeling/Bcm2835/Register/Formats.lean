import Bcm2835.Register.Field

/-! The formats of the registers that have named fields, with the fields under their datasheet
names. `RegisterFormat.all` lists the formats. Words that are exchanged through memory have fields
too; they come last and belong to no register. -/

namespace Bcm2835

namespace StCs

def m0 : Field := { name := "M0", offset := 0, width := 1 }
def m1 : Field := { name := "M1", offset := 1, width := 1 }
def m2 : Field := { name := "M2", offset := 2, width := 1 }
def m3 : Field := { name := "M3", offset := 3, width := 1 }

/-- System timer: a match flag for each compare register. -/
def format : RegisterFormat where
  name := "ST_CS"
  fields := [m0, m1, m2, m3]

end StCs

namespace CmCtl

def src : Field := {
  name := "SRC", offset := 0, width := 4
  values := [("Gnd", 0), ("Oscillator", 1), ("PllA", 4), ("PllC", 5), ("PllD", 6), ("Hdmi", 7)] }
def enab : Field := { name := "ENAB", offset := 4, width := 1 }
def kill : Field := { name := "KILL", offset := 5, width := 1 }
def busy : Field := { name := "BUSY", offset := 7, width := 1 }
def flip : Field := { name := "FLIP", offset := 8, width := 1 }
def mash : Field := { name := "MASH", offset := 9, width := 2 }
def passwd : Field := {
  name := "PASSWD", offset := 24, width := 8
  values := [("Passwd", 0x5a)] }

/-- Clock manager: source and state of one clock. -/
def format : RegisterFormat where
  name := "CM_CTL"
  fields := [src, enab, kill, busy, flip, mash, passwd]

end CmCtl

namespace CmDiv

def divf : Field := { name := "DIVF", offset := 0, width := 12 }
def divi : Field := { name := "DIVI", offset := 12, width := 12 }
def passwd : Field := {
  name := "PASSWD", offset := 24, width := 8
  values := [("Passwd", 0x5a)] }

/-- Clock manager: divisor of one clock, with 12 fractional bits. -/
def format : RegisterFormat where
  name := "CM_DIV"
  fields := [divf, divi, passwd]

end CmDiv

namespace GpioPud

def pud : Field := {
  name := "PUD", offset := 0, width := 2
  values := [("Off", 0), ("Down", 1), ("Up", 2)] }

/-- Pull-up and pull-down control. -/
def format : RegisterFormat where
  name := "GPIO_PUD"
  fields := [pud]

end GpioPud

namespace PcmCs

def en : Field := { name := "EN", offset := 0, width := 1 }
def rxon : Field := { name := "RXON", offset := 1, width := 1 }
def txon : Field := { name := "TXON", offset := 2, width := 1 }
def txclr : Field := { name := "TXCLR", offset := 3, width := 1 }
def rxclr : Field := { name := "RXCLR", offset := 4, width := 1 }
def txthr : Field := { name := "TXTHR", offset := 5, width := 2 }
def rxthr : Field := { name := "RXTHR", offset := 7, width := 2 }
def dmaen : Field := { name := "DMAEN", offset := 9, width := 1 }
def txsync : Field := { name := "TXSYNC", offset := 13, width := 1 }
def rxsync : Field := { name := "RXSYNC", offset := 14, width := 1 }
def txerr : Field := { name := "TXERR", offset := 15, width := 1 }
def rxerr : Field := { name := "RXERR", offset := 16, width := 1 }
def txw : Field := { name := "TXW", offset := 17, width := 1 }
def rxr : Field := { name := "RXR", offset := 18, width := 1 }
def txd : Field := { name := "TXD", offset := 19, width := 1 }
def rxd : Field := { name := "RXD", offset := 20, width := 1 }
def txe : Field := { name := "TXE", offset := 21, width := 1 }
def rxf : Field := { name := "RXF", offset := 22, width := 1 }
def rxsex : Field := { name := "RXSEX", offset := 23, width := 1 }
def sync : Field := { name := "SYNC", offset := 24, width := 1 }
def stby : Field := { name := "STBY", offset := 25, width := 1 }

/-- PCM control and status. -/
def format : RegisterFormat where
  name := "PCM_CS"
  fields := [
    en, rxon, txon, txclr, rxclr, txthr, rxthr, dmaen, txsync, rxsync, txerr, rxerr, txw, rxr,
    txd, rxd, txe, rxf, rxsex, sync, stby]

end PcmCs

namespace PcmMode

def fslen : Field := { name := "FSLEN", offset := 0, width := 10 }
def flen : Field := { name := "FLEN", offset := 10, width := 10 }
def fsi : Field := { name := "FSI", offset := 20, width := 1 }
def fsm : Field := { name := "FSM", offset := 21, width := 1 }
def clki : Field := { name := "CLKI", offset := 22, width := 1 }
def clkm : Field := { name := "CLKM", offset := 23, width := 1 }
def ftxp : Field := { name := "FTXP", offset := 24, width := 1 }
def frxp : Field := { name := "FRXP", offset := 25, width := 1 }
def pdme : Field := { name := "PDME", offset := 26, width := 1 }
def pdmn : Field := { name := "PDMN", offset := 27, width := 1 }
def clkDis : Field := { name := "CLK_DIS", offset := 28, width := 1 }

/-- PCM frame, clock and frame sync mode. -/
def format : RegisterFormat where
  name := "PCM_MODE"
  fields := [fslen, flen, fsi, fsm, clki, clkm, ftxp, frxp, pdme, pdmn, clkDis]

end PcmMode

namespace PcmChannel

def ch2wid : Field := { name := "CH2WID", offset := 0, width := 4 }
def ch2pos : Field := { name := "CH2POS", offset := 4, width := 10 }
def ch2en : Field := { name := "CH2EN", offset := 14, width := 1 }
def ch2wex : Field := { name := "CH2WEX", offset := 15, width := 1 }
def ch1wid : Field := { name := "CH1WID", offset := 16, width := 4 }
def ch1pos : Field := { name := "CH1POS", offset := 20, width := 10 }
def ch1en : Field := { name := "CH1EN", offset := 30, width := 1 }
def ch1wex : Field := { name := "CH1WEX", offset := 31, width := 1 }

/-- Channel widths and positions, of the receiver as of the transmitter. -/
def format : RegisterFormat where
  name := "PCM_CHANNEL"
  fields := [ch2wid, ch2pos, ch2en, ch2wex, ch1wid, ch1pos, ch1en, ch1wex]

end PcmChannel

namespace PcmDreq

def rx : Field := { name := "RX", offset := 0, width := 7 }
def tx : Field := { name := "TX", offset := 8, width := 7 }
def rxPanic : Field := { name := "RX_PANIC", offset := 16, width := 7 }
def txPanic : Field := { name := "TX_PANIC", offset := 24, width := 7 }

/-- PCM levels at which DMA is requested. -/
def format : RegisterFormat where
  name := "PCM_DREQ"
  fields := [rx, tx, rxPanic, txPanic]

end PcmDreq

namespace PcmInt

def txw : Field := { name := "TXW", offset := 0, width := 1 }
def rxr : Field := { name := "RXR", offset := 1, width := 1 }
def txerr : Field := { name := "TXERR", offset := 2, width := 1 }
def rxerr : Field := { name := "RXERR", offset := 3, width := 1 }

/-- PCM interrupts: enable and status share this format. -/
def format : RegisterFormat where
  name := "PCM_INT"
  fields := [txw, rxr, txerr, rxerr]

end PcmInt

namespace PcmGray

def en : Field := { name := "EN", offset := 0, width := 1 }
def clr : Field := { name := "CLR", offset := 1, width := 1 }
def flush : Field := { name := "FLUSH", offset := 2, width := 1 }
def rxlevel : Field := { name := "RXLEVEL", offset := 4, width := 6 }
def flushed : Field := { name := "FLUSHED", offset := 10, width := 6 }
def rxfifolevel : Field := { name := "RXFIFOLEVEL", offset := 16, width := 6 }

/-- PCM gray mode. -/
def format : RegisterFormat where
  name := "PCM_GRAY"
  fields := [en, clr, flush, rxlevel, flushed, rxfifolevel]

end PcmGray

namespace MboxStatus

def empty : Field := { name := "EMPTY", offset := 30, width := 1 }
def full : Field := { name := "FULL", offset := 31, width := 1 }

/-- Fill state of a mailbox. -/
def format : RegisterFormat where
  name := "MBOX_STATUS"
  fields := [empty, full]

end MboxStatus

namespace Uart0Dr

def data : Field := { name := "DATA", offset := 0, width := 8 }
def fe : Field := { name := "FE", offset := 8, width := 1 }
def pe : Field := { name := "PE", offset := 9, width := 1 }
def be : Field := { name := "BE", offset := 10, width := 1 }
def oe : Field := { name := "OE", offset := 11, width := 1 }

/-- UART0 data and receive errors. -/
def format : RegisterFormat where
  name := "UART0_DR"
  fields := [data, fe, pe, be, oe]

end Uart0Dr

namespace Uart0Fr

def cts : Field := { name := "CTS", offset := 0, width := 1 }
def dsr : Field := { name := "DSR", offset := 1, width := 1 }
def dcd : Field := { name := "DCD", offset := 2, width := 1 }
def busy : Field := { name := "BUSY", offset := 3, width := 1 }
def rxfe : Field := { name := "RXFE", offset := 4, width := 1 }
def txff : Field := { name := "TXFF", offset := 5, width := 1 }
def rxff : Field := { name := "RXFF", offset := 6, width := 1 }
def txfe : Field := { name := "TXFE", offset := 7, width := 1 }
def ri : Field := { name := "RI", offset := 8, width := 1 }

/-- UART0 flags. -/
def format : RegisterFormat where
  name := "UART0_FR"
  fields := [cts, dsr, dcd, busy, rxfe, txff, rxff, txfe, ri]

end Uart0Fr

namespace Uart0Ibrd

def ibrd : Field := { name := "IBRD", offset := 0, width := 16 }

/-- Integer part of the UART0 divisor. -/
def format : RegisterFormat where
  name := "UART0_IBRD"
  fields := [ibrd]

end Uart0Ibrd

namespace Uart0Fbrd

def fbrd : Field := { name := "FBRD", offset := 0, width := 6 }

/-- Fraction of the UART0 divisor, in 64ths. -/
def format : RegisterFormat where
  name := "UART0_FBRD"
  fields := [fbrd]

end Uart0Fbrd

namespace Uart0Lcrh

def brk : Field := { name := "BRK", offset := 0, width := 1 }
def pen : Field := { name := "PEN", offset := 1, width := 1 }
def eps : Field := { name := "EPS", offset := 2, width := 1 }
def stp2 : Field := { name := "STP2", offset := 3, width := 1 }
def fen : Field := { name := "FEN", offset := 4, width := 1 }
def wlen : Field := {
  name := "WLEN", offset := 5, width := 2
  values := [("FiveBit", 0), ("SixBit", 1), ("SevenBit", 2), ("EightBit", 3)] }
def sps : Field := { name := "SPS", offset := 7, width := 1 }

/-- UART0 line control. -/
def format : RegisterFormat where
  name := "UART0_LCRH"
  fields := [brk, pen, eps, stp2, fen, wlen, sps]

end Uart0Lcrh

namespace Uart0Cr

def uarten : Field := { name := "UARTEN", offset := 0, width := 1 }
def siren : Field := { name := "SIREN", offset := 1, width := 1 }
def sirlp : Field := { name := "SIRLP", offset := 2, width := 1 }
def lbe : Field := { name := "LBE", offset := 7, width := 1 }
def txe : Field := { name := "TXE", offset := 8, width := 1 }
def rxe : Field := { name := "RXE", offset := 9, width := 1 }
def dtr : Field := { name := "DTR", offset := 10, width := 1 }
def rts : Field := { name := "RTS", offset := 11, width := 1 }
def out1 : Field := { name := "OUT1", offset := 12, width := 1 }
def out2 : Field := { name := "OUT2", offset := 13, width := 1 }
def rtsen : Field := { name := "RTSEN", offset := 14, width := 1 }
def ctsen : Field := { name := "CTSEN", offset := 15, width := 1 }

/-- UART0 control. -/
def format : RegisterFormat where
  name := "UART0_CR"
  fields := [uarten, siren, sirlp, lbe, txe, rxe, dtr, rts, out1, out2, rtsen, ctsen]

end Uart0Cr

namespace Spi0Cs

def cs : Field := { name := "CS", offset := 0, width := 2 }
def cpha : Field := { name := "CPHA", offset := 2, width := 1 }
def cpol : Field := { name := "CPOL", offset := 3, width := 1 }
def clear : Field := {
  name := "CLEAR", offset := 4, width := 2
  values := [("Keep", 0), ("Tx", 1), ("Rx", 2), ("Both", 3)] }
def cspol : Field := { name := "CSPOL", offset := 6, width := 1 }
def ta : Field := { name := "TA", offset := 7, width := 1 }
def dmaen : Field := { name := "DMAEN", offset := 8, width := 1 }
def intd : Field := { name := "INTD", offset := 9, width := 1 }
def intr : Field := { name := "INTR", offset := 10, width := 1 }
def adcs : Field := { name := "ADCS", offset := 11, width := 1 }
def ren : Field := { name := "REN", offset := 12, width := 1 }
def len : Field := { name := "LEN", offset := 13, width := 1 }
def lmono : Field := { name := "LMONO", offset := 14, width := 1 }
def teEn : Field := { name := "TE_EN", offset := 15, width := 1 }
def done : Field := { name := "DONE", offset := 16, width := 1 }
def rxd : Field := { name := "RXD", offset := 17, width := 1 }
def txd : Field := { name := "TXD", offset := 18, width := 1 }
def rxr : Field := { name := "RXR", offset := 19, width := 1 }
def rxf : Field := { name := "RXF", offset := 20, width := 1 }
def cspol0 : Field := { name := "CSPOL0", offset := 21, width := 1 }
def cspol1 : Field := { name := "CSPOL1", offset := 22, width := 1 }
def cspol2 : Field := { name := "CSPOL2", offset := 23, width := 1 }
def dmaLen : Field := { name := "DMA_LEN", offset := 24, width := 1 }
def lenLong : Field := { name := "LEN_LONG", offset := 25, width := 1 }

/-- SPI0 control and status. -/
def format : RegisterFormat where
  name := "SPI0_CS"
  fields := [
    cs, cpha, cpol, clear, cspol, ta, dmaen, intd, intr, adcs, ren, len, lmono, teEn, done,
    rxd, txd, rxr, rxf, cspol0, cspol1, cspol2, dmaLen, lenLong]

end Spi0Cs

namespace Spi0Clk

def cdiv : Field := { name := "CDIV", offset := 0, width := 16 }

/-- SPI0 clock divisor. -/
def format : RegisterFormat where
  name := "SPI0_CLK"
  fields := [cdiv]

end Spi0Clk

namespace AuxDevices

def miniUart : Field := { name := "MINI_UART", offset := 0, width := 1 }
def spi1 : Field := { name := "SPI1", offset := 1, width := 1 }
def spi2 : Field := { name := "SPI2", offset := 2, width := 1 }

/-- The auxiliary devices: interrupt and enable bits share this format. -/
def format : RegisterFormat where
  name := "AUX_DEVICES"
  fields := [miniUart, spi1, spi2]

end AuxDevices

namespace MuIo

def data : Field := { name := "DATA", offset := 0, width := 8 }

/-- Mini UART data. -/
def format : RegisterFormat where
  name := "MU_IO"
  fields := [data]

end MuIo

namespace MuIer

def rx : Field := { name := "RX", offset := 0, width := 1 }
def tx : Field := { name := "TX", offset := 1, width := 1 }

/-- Mini UART interrupt enable. -/
def format : RegisterFormat where
  name := "MU_IER"
  fields := [rx, tx]

end MuIer

namespace MuIir

def pending : Field := { name := "PENDING", offset := 0, width := 1 }
def fifo : Field := {
  name := "FIFO", offset := 1, width := 2
  values := [("Keep", 0), ("ClearRx", 1), ("ClearTx", 2), ("ClearBoth", 3)] }

/-- Mini UART interrupts. Writes clear the FIFOs, reads tell the pending interrupt. -/
def format : RegisterFormat where
  name := "MU_IIR"
  fields := [pending, fifo]

end MuIir

namespace MuLcr

def dataSize : Field := {
  name := "DATA_SIZE", offset := 0, width := 2
  values := [("SevenBit", 0), ("EightBit", 3)] }
def brk : Field := { name := "BREAK", offset := 6, width := 1 }
def dlab : Field := { name := "DLAB", offset := 7, width := 1 }

/-- Mini UART line control. -/
def format : RegisterFormat where
  name := "MU_LCR"
  fields := [dataSize, brk, dlab]

end MuLcr

namespace MuCntl

def rxEnable : Field := { name := "RX_ENABLE", offset := 0, width := 1 }
def txEnable : Field := { name := "TX_ENABLE", offset := 1, width := 1 }
def rtsAuto : Field := { name := "RTS_AUTO", offset := 2, width := 1 }
def ctsAuto : Field := { name := "CTS_AUTO", offset := 3, width := 1 }

/-- Mini UART control. -/
def format : RegisterFormat where
  name := "MU_CNTL"
  fields := [rxEnable, txEnable, rtsAuto, ctsAuto]

end MuCntl

namespace MuStat

def rxReady : Field := { name := "RX_READY", offset := 0, width := 1 }
def txReady : Field := { name := "TX_READY", offset := 1, width := 1 }
def rxIdle : Field := { name := "RX_IDLE", offset := 2, width := 1 }
def txIdle : Field := { name := "TX_IDLE", offset := 3, width := 1 }
def rxOverrun : Field := { name := "RX_OVERRUN", offset := 4, width := 1 }
def txFull : Field := { name := "TX_FULL", offset := 5, width := 1 }
def txEmpty : Field := { name := "TX_EMPTY", offset := 8, width := 1 }
def txDone : Field := { name := "TX_DONE", offset := 9, width := 1 }
def rxLevel : Field := { name := "RX_LEVEL", offset := 16, width := 4 }
def txLevel : Field := { name := "TX_LEVEL", offset := 24, width := 4 }

/-- Mini UART status. -/
def format : RegisterFormat where
  name := "MU_STAT"
  fields := [rxReady, txReady, rxIdle, txIdle, rxOverrun, txFull, txEmpty, txDone, rxLevel, txLevel]

end MuStat

namespace MuBaud

def baud : Field := { name := "BAUD", offset := 0, width := 16 }

/-- Mini UART divisor. -/
def format : RegisterFormat where
  name := "MU_BAUD"
  fields := [baud]

end MuBaud

namespace RegisterFormat

def all : List RegisterFormat := [
  StCs.format, CmCtl.format, CmDiv.format, GpioPud.format, PcmCs.format, PcmMode.format,
  PcmChannel.format, PcmDreq.format, PcmInt.format, PcmGray.format, MboxStatus.format,
  Uart0Dr.format, Uart0Fr.format, Uart0Ibrd.format, Uart0Fbrd.format, Uart0Lcrh.format,
  Uart0Cr.format, Spi0Cs.format, Spi0Clk.format, AuxDevices.format, MuIo.format, MuIer.format,
  MuIir.format, MuLcr.format, MuCntl.format, MuStat.format, MuBaud.format]

/-- The format of a name. -/
def find? (name : String) : Option RegisterFormat := all.find? fun r => r.name == name

end RegisterFormat

namespace MboxWord

/-- The channel of a mailbox word; the rest of the word is an address. -/
def channel : Field := { name := "CHANNEL", offset := 0, width := 4 }

end MboxWord

namespace TagStatus

/-- Bytes of the value in a tag: of the request, then of the response. -/
def length : Field := { name := "LENGTH", offset := 0, width := 31 }

/-- The tag was answered. -/
def response : Field := { name := "RESPONSE", offset := 31, width := 1 }

end TagStatus

namespace ClockStateWord

/-- The clock runs. -/
def on : Field := { name := "ON", offset := 0, width := 1 }

end ClockStateWord

end Bcm2835
