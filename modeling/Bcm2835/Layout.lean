import Bcm2835.Failure

/-! Where the register blocks lie within the mapped peripheral block. Offsets count from the start
of the block; what no region covers is padding. `validate` accepts the tables that are aligned,
sorted, disjoint and inside the block, and `paddings` gives what follows each region. -/

namespace Bcm2835

structure Region where
  name : String
  offset : UInt64
  size : UInt64
  deriving DecidableEq, Repr

namespace Layout

/-- Size of the whole peripheral block. -/
def blockSize : UInt64 := 0xF00000

/-- Where the block starts for the DMA controller and the firmware. -/
def busBase : UInt32 := 0x7E000000

/-- Bus address of an offset, of which the low 32 bits count. -/
def busAddress (offset : UInt64) : Except Fault UInt32 := Fault.sum32 busBase offset.toUInt32

end Layout

namespace Region

/-- The first offset behind the region. -/
def stop (r : Region) : Except Fault UInt64 := Fault.sum64 r.offset r.size

/-- One line on the region: name, extent and bus address. -/
def describe (r : Region) : Except Fault String := do
  let stop ← r.stop
  let bus ← Layout.busAddress r.offset
  let name := String.ofList (r.name.toList ++ List.replicate (10 - r.name.length) ' ')
  let start := Numeral.address 6 r.offset.toNat
  return s!"{name} {start}..{Numeral.address 6 stop.toNat} (bus {Numeral.address 8 bus.toNat})"

end Region

namespace Layout

/-- Number of generators, each a control and a divisor word, of the clock manager. -/
def clockGenerators : UInt64 := 57

/-- The general purpose clocks within the clock manager. -/
def generalClocks : UInt64 := 0x101070

def st : Region := ⟨"ST", 0x003000, 0x1C⟩
def dma : Region := ⟨"DMA", 0x007000, 15 * 0x100⟩
def dmaGlobal : Region := ⟨"DMA_GLOBAL", 0x007FE0, 0x14⟩
def irq : Region := ⟨"IRQ", 0x00B200, 0x28⟩
def timer : Region := ⟨"TIMER", 0x00B400, 0x24⟩
def mbox : Region := ⟨"MBOX", 0x00B880, 0x40⟩
def pm : Region := ⟨"PM", 0x100000, 0x7C⟩
def cm : Region := ⟨"CM", 0x101000, clockGenerators * 8⟩
def rng : Region := ⟨"RNG", 0x104000, 0x14⟩
def gpio : Region := ⟨"GPIO", 0x200000, 0xB4⟩
def uart0 : Region := ⟨"UART0", 0x201000, 0x90⟩
def mmc : Region := ⟨"MMC", 0x202000, 0x54⟩
def pcm : Region := ⟨"PCM", 0x203000, 0x24⟩
def spi0 : Region := ⟨"SPI0", 0x204000, 0x18⟩
def bsc0 : Region := ⟨"BSC0", 0x205000, 0x20⟩
def pwm : Region := ⟨"PWM", 0x20C000, 0x28⟩
def bscsl : Region := ⟨"BSCSL", 0x214000, 0x40⟩
def aux : Region := ⟨"AUX", 0x215000, 0x08⟩
def uart1 : Region := ⟨"UART1", 0x215040, 0x2C⟩
def spi1 : Region := ⟨"SPI1", 0x215080, 0x40⟩
def spi2 : Region := ⟨"SPI2", 0x2150C0, 0x40⟩
def emmc : Region := ⟨"EMMC", 0x300000, 0x100⟩
def bsc1 : Region := ⟨"BSC1", 0x804000, 0x20⟩
def bsc2 : Region := ⟨"BSC2", 0x805000, 0x20⟩
def usb : Region := ⟨"USB", 0x980000, 0x8C⟩
def dma15 : Region := ⟨"DMA15", 0xE05000, 0x100⟩

/-- Every documented region, sorted by offset. -/
def regions : List Region := [
  st, dma, dmaGlobal, irq, timer, mbox, pm, cm, rng, gpio, uart0, mmc, pcm, spi0, bsc0, pwm, bscsl,
  aux, uart1, spi1, spi2, emmc, bsc1, bsc2, usb, dma15]

/-- The documented region of a name, in which the case of ASCII letters does not matter. -/
def find? (name : String) : Option Region :=
  regions.find? fun r => r.name.toList.map Char.toLower == name.toList.map Char.toLower

/-- Each region on its own: word aligned and inside the block. -/
def validateExtents : List Region → Outcome Unit
  | [] => .ok ()
  | r :: rest =>
    if r.offset % 4 ≠ 0 ∨ r.size % 4 ≠ 0 then
      .error (.layout (.unaligned r.name r.offset))
    else
      match r.stop with
      | .error f => .fault f
      | .ok stop =>
        if blockSize < stop then .error (.layout (.outOfBounds r.name stop))
        else validateExtents rest

/-- Each region ends before the next begins. -/
def validateOrder : List Region → Outcome Unit
  | r :: s :: rest =>
    match r.stop with
    | .error f => .fault f
    | .ok stop =>
      if s.offset < stop then .error (.layout (.overlap r.name s.name))
      else validateOrder (s :: rest)
  | _ => .ok ()

def validate (layout : List Region) : Outcome Unit :=
  match validateExtents layout with
  | .ok () => validateOrder layout
  | refused => refused

/-- Each region with the bytes up to the next one, or to the end of the block. -/
def paddings : List Region → Except Fault (List (Region × UInt64))
  | [] => .ok []
  | r :: rest => do
    let next := (rest.head?.map (·.offset)).getD blockSize
    let gap ← Fault.difference64 next (← r.stop)
    return (r, gap) :: (← paddings rest)

end Layout

end Bcm2835
