import Bcm2835.Layout

/-! The registers of each block at their offsets within the peripheral block, under their short
datasheet names. A block keeps the proof that its registers lie inside its region. -/

namespace Bcm2835

/-- A register, or a row of registers of equal meaning in consecutive words. -/
structure Register where
  name : String
  offset : Nat
  /-- Length of the row, for a row. -/
  count : Option Nat := none
  deriving DecidableEq, Repr

namespace Register

/-- Bytes from the first to behind the last word. -/
def extent (r : Register) : Nat := 4 * r.count.getD 1

/-- Offset of the register at a position of the row. -/
def slot (r : Register) (i : Nat) : Nat := r.offset + 4 * i

/-- Offset of a register chosen by position, which has to lie within the row. -/
def slot? (r : Register) (i : Nat) : Except Fault Nat :=
  let length := r.count.getD 1
  if i < length then .ok (r.slot i) else .error (.indexOutOfRange length i)

end Register

structure Block where
  name : String
  region : Region
  registers : List Register
  inside : ∀ r ∈ registers, region.offset.toNat ≤ r.offset ∧
    r.offset + r.extent ≤ region.offset.toNat + region.size.toNat := by decide

/-- The register of a name. -/
def Block.register? (b : Block) (name : String) : Option Register :=
  b.registers.find? fun r => r.name == name

namespace StBlock

def cs : Register := { name := "cs", offset := 0x003000 }
def clo : Register := { name := "clo", offset := 0x003004 }
def chi : Register := { name := "chi", offset := 0x003008 }
def compare : Register := { name := "compare", offset := 0x00300C, count := some 4 }

/-- System timer. -/
def block : Block where
  name := "st"
  region := Layout.st
  registers := [cs, clo, chi, compare]

end StBlock

namespace GpioBlock

def fsel : Register := { name := "fsel", offset := 0x200000, count := some 6 }
def set : Register := { name := "set", offset := 0x20001C, count := some 2 }
def clr : Register := { name := "clr", offset := 0x200028, count := some 2 }
def lev : Register := { name := "lev", offset := 0x200034, count := some 2 }
def eds : Register := { name := "eds", offset := 0x200040, count := some 2 }
def ren : Register := { name := "ren", offset := 0x20004C, count := some 2 }
def fen : Register := { name := "fen", offset := 0x200058, count := some 2 }
def hen : Register := { name := "hen", offset := 0x200064, count := some 2 }
def len : Register := { name := "len", offset := 0x200070, count := some 2 }
def aren : Register := { name := "aren", offset := 0x20007C, count := some 2 }
def afen : Register := { name := "afen", offset := 0x200088, count := some 2 }
def pud : Register := { name := "pud", offset := 0x200094 }
def pudclk : Register := { name := "pudclk", offset := 0x200098, count := some 2 }
def test : Register := { name := "test", offset := 0x2000B0 }

/-- General purpose pins: function, level, events and pulls. -/
def block : Block where
  name := "gpio"
  region := Layout.gpio
  registers := [fsel, set, clr, lev, eds, ren, fen, hen, len, aren, afen, pud, pudclk, test]

end GpioBlock

namespace PcmBlock

def cs : Register := { name := "cs", offset := 0x203000 }
def fifo : Register := { name := "fifo", offset := 0x203004 }
def mode : Register := { name := "mode", offset := 0x203008 }
def rxc : Register := { name := "rxc", offset := 0x20300C }
def txc : Register := { name := "txc", offset := 0x203010 }
def dreq : Register := { name := "dreq", offset := 0x203014 }
def inten : Register := { name := "inten", offset := 0x203018 }
def intstc : Register := { name := "intstc", offset := 0x20301C }
def gray : Register := { name := "gray", offset := 0x203020 }

/-- PCM audio interface. -/
def block : Block where
  name := "pcm"
  region := Layout.pcm
  registers := [cs, fifo, mode, rxc, txc, dreq, inten, intstc, gray]

end PcmBlock

namespace MailboxBlock

def read : Register := { name := "read", offset := 0x00B880 }
def peek0 : Register := { name := "peek0", offset := 0x00B890 }
def sender0 : Register := { name := "sender0", offset := 0x00B894 }
def status0 : Register := { name := "status0", offset := 0x00B898 }
def config0 : Register := { name := "config0", offset := 0x00B89C }
def write : Register := { name := "write", offset := 0x00B8A0 }
def peek1 : Register := { name := "peek1", offset := 0x00B8B0 }
def sender1 : Register := { name := "sender1", offset := 0x00B8B4 }
def status1 : Register := { name := "status1", offset := 0x00B8B8 }
def config1 : Register := { name := "config1", offset := 0x00B8BC }

/-- Mailboxes: 0 carries words from the firmware, 1 words to it. -/
def block : Block where
  name := "mailbox"
  region := Layout.mbox
  registers := [read, peek0, sender0, status0, config0, write, peek1, sender1, status1, config1]

end MailboxBlock

namespace Uart0Block

def dr : Register := { name := "dr", offset := 0x201000 }
def rsrecr : Register := { name := "rsrecr", offset := 0x201004 }
def fr : Register := { name := "fr", offset := 0x201018 }
def ilpr : Register := { name := "ilpr", offset := 0x201020 }
def ibrd : Register := { name := "ibrd", offset := 0x201024 }
def fbrd : Register := { name := "fbrd", offset := 0x201028 }
def lcrh : Register := { name := "lcrh", offset := 0x20102C }
def cr : Register := { name := "cr", offset := 0x201030 }
def ifls : Register := { name := "ifls", offset := 0x201034 }
def imsc : Register := { name := "imsc", offset := 0x201038 }
def ris : Register := { name := "ris", offset := 0x20103C }
def mis : Register := { name := "mis", offset := 0x201040 }
def icr : Register := { name := "icr", offset := 0x201044 }
def dmacr : Register := { name := "dmacr", offset := 0x201048 }
def itcr : Register := { name := "itcr", offset := 0x201080 }
def itip : Register := { name := "itip", offset := 0x201084 }
def itop : Register := { name := "itop", offset := 0x201088 }
def tdr : Register := { name := "tdr", offset := 0x20108C }

/-- The PL011 UART. -/
def block : Block where
  name := "uart0"
  region := Layout.uart0
  registers := [
    dr, rsrecr, fr, ilpr, ibrd, fbrd, lcrh, cr, ifls, imsc, ris, mis, icr, dmacr, itcr, itip,
    itop, tdr]

end Uart0Block

namespace Spi0Block

def cs : Register := { name := "cs", offset := 0x204000 }
def fifo : Register := { name := "fifo", offset := 0x204004 }
def clk : Register := { name := "clk", offset := 0x204008 }
def dlen : Register := { name := "dlen", offset := 0x20400C }
def ltoh : Register := { name := "ltoh", offset := 0x204010 }
def dc : Register := { name := "dc", offset := 0x204014 }

/-- SPI master. -/
def block : Block where
  name := "spi0"
  region := Layout.spi0
  registers := [cs, fifo, clk, dlen, ltoh, dc]

end Spi0Block

namespace AuxBlock

def irq : Register := { name := "irq", offset := 0x215000 }
def enables : Register := { name := "enables", offset := 0x215004 }

/-- Interrupt and enable bits of the auxiliary devices. -/
def block : Block where
  name := "aux"
  region := Layout.aux
  registers := [irq, enables]

end AuxBlock

namespace Uart1Block

def io : Register := { name := "io", offset := 0x215040 }
def ier : Register := { name := "ier", offset := 0x215044 }
def iir : Register := { name := "iir", offset := 0x215048 }
def lcr : Register := { name := "lcr", offset := 0x21504C }
def mcr : Register := { name := "mcr", offset := 0x215050 }
def lsr : Register := { name := "lsr", offset := 0x215054 }
def msr : Register := { name := "msr", offset := 0x215058 }
def scratch : Register := { name := "scratch", offset := 0x21505C }
def cntl : Register := { name := "cntl", offset := 0x215060 }
def stat : Register := { name := "stat", offset := 0x215064 }
def baud : Register := { name := "baud", offset := 0x215068 }

/-- Mini UART. -/
def block : Block where
  name := "uart1"
  region := Layout.uart1
  registers := [io, ier, iir, lcr, mcr, lsr, msr, scratch, cntl, stat, baud]

end Uart1Block

/-- The clocks the clock manager generates. -/
inductive ClockGenerator where
  | vpu
  | h264
  | v3d
  | cam0Lp
  | dsiEsc
  | dpi
  | gp0
  | gp1
  | gp2
  | hsm
  | isp
  | pcm
  | pwm
  | slim
  | smi
  | emmc
  | tsens
  | time
  | uart
  | vec
  | arm
  deriving DecidableEq, Repr

namespace ClockGenerator

def all : List ClockGenerator := [
  vpu, h264, v3d, cam0Lp, dsiEsc, dpi, gp0, gp1, gp2, hsm, isp, pcm, pwm, slim, smi, emmc,
  tsens, time, uart, vec, arm]

def name : ClockGenerator → String
  | vpu => "Vpu"
  | h264 => "H264"
  | v3d => "V3d"
  | cam0Lp => "Cam0Lp"
  | dsiEsc => "DsiEsc"
  | dpi => "Dpi"
  | gp0 => "Gp0"
  | gp1 => "Gp1"
  | gp2 => "Gp2"
  | hsm => "Hsm"
  | isp => "Isp"
  | pcm => "Pcm"
  | pwm => "Pwm"
  | slim => "Slim"
  | smi => "Smi"
  | emmc => "Emmc"
  | tsens => "Tsens"
  | time => "Time"
  | uart => "Uart"
  | vec => "Vec"
  | arm => "Arm"

/-- Position among the generators. -/
def index : ClockGenerator → Nat
  | vpu => 1
  | h264 => 5
  | v3d => 7
  | cam0Lp => 8
  | dsiEsc => 11
  | dpi => 13
  | gp0 => 14
  | gp1 => 15
  | gp2 => 16
  | hsm => 17
  | isp => 18
  | pcm => 19
  | pwm => 20
  | slim => 21
  | smi => 22
  | emmc => 24
  | tsens => 28
  | time => 29
  | uart => 30
  | vec => 31
  | arm => 54

/-- Offset within the clock manager. -/
def offset (c : ClockGenerator) : Nat := c.index * 8

/-- Source and state. -/
def control (c : ClockGenerator) : Register := { name := "ctl", offset := 0x101000 + c.offset }

def divisor (c : ClockGenerator) : Register := { name := "div", offset := 0x101004 + c.offset }

/-- Every write to the clock manager carries this in its top byte. -/
def password : UInt32 := 0x5a

end ClockGenerator

/-- The blocks that have drivers here. -/
def Block.all : List Block := [
  StBlock.block, GpioBlock.block, PcmBlock.block, MailboxBlock.block, Uart0Block.block,
  Spi0Block.block, AuxBlock.block, Uart1Block.block]

end Bcm2835
