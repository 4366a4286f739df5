import Bcm2835.Layout
import Bcm2835.Program

/-! The device tree record that tells where the processor sees the peripheral block: two big-endian
words, the bus address and the processor's address. Boards without the record have the block at a
fixed place. -/

namespace Bcm2835

namespace Host

inductive Request where
  /-- The bytes of a file. -/
  | readFile (path : String)
  /-- Maps physical memory and answers where it is mapped. -/
  | mapMemory (base : UInt32) (length : Nat)
  deriving DecidableEq, Repr

def Answer : Request → Type
  | .readFile _ => Except FileError (List UInt8)
  | .mapMemory .. => Except Error Nat

end Host

/-- What the lookup and the mapping of the block ask of the system they run on. -/
abbrev Host : Interface := ⟨Host.Request, Host.Answer⟩

namespace Host

def readFile (path : String) : Program Host (Except FileError (List UInt8)) :=
  Program.request (I := Host) (.readFile path)

def mapMemory (base : UInt32) (length : Nat) : Program Host (Except Error Nat) :=
  Program.request (I := Host) (.mapMemory base length)

end Host

structure SocRanges where
  bus : UInt32
  cpu : UInt32
  deriving DecidableEq, Repr

namespace SocRanges

open Program

/-- Where device trees keep the record. -/
def defaultPath : String := "/proc/device-tree/soc/ranges"

/-- The processor's address on boards that have no record. -/
def legacyBase : UInt32 := 0x20000000

/-- Bytes of a record. -/
def recordLength : Nat := 8

/-- The word of four bytes, most significant first. -/
def bigEndian (a b c d : UInt8) : UInt32 :=
  a.toUInt32 <<< 24 ||| b.toUInt32 <<< 16 ||| c.toUInt32 <<< 8 ||| d.toUInt32

/-- The bytes of a word, most significant first. -/
def bytesOf (word : UInt32) : List UInt8 :=
  [(word >>> 24).toUInt8, (word >>> 16).toUInt8, (word >>> 8).toUInt8, word.toUInt8]

def encode (r : SocRanges) : List UInt8 := bytesOf r.bus ++ bytesOf r.cpu

def ofRecord (v : Vector UInt8 recordLength) : SocRanges :=
  ⟨bigEndian v[0] v[1] v[2] v[3], bigEndian v[4] v[5] v[6] v[7]⟩

/-- Decodes the first record; what follows it does not matter. -/
def parse (bytes : List UInt8) : Option SocRanges :=
  if h : (bytes.take recordLength).length = recordLength then
    some (ofRecord ⟨(bytes.take recordLength).toArray, by simpa using h⟩)
  else
    none

/-- Takes bytes from a stream until the buffer is full. -/
def fill : (n : Nat) → List UInt8 → Except FileError (Vector UInt8 n)
  | 0, _ => .ok #v[]
  | _ + 1, [] => .error .unexpectedEnd
  | n + 1, b :: bs => do
    let rest ← fill n bs
    return (#v[b] ++ rest).cast (Nat.add_comm 1 n)

/-- Reads the first record of a file. -/
def readFrom (path : String) : Program Host (Except FileError SocRanges) := do
  let content ← Host.readFile path
  return do
    let bytes ← content
    return ofRecord (← fill recordLength bytes)

/-- Whether the board wires the block to the bus address the register offsets are made for. -/
def matchesBus (r : SocRanges) : Bool := r.bus = Layout.busBase

/-- The processor's address of the block, or `fallback` without a usable record. -/
def peripheralBase (path : String) (fallback : UInt32) : Program Host UInt32 := do
  match ← readFrom path with
  | .ok ranges =>
    if !ranges.matchesBus then
      report (.foreignBus path ranges.bus Layout.busBase)
    return ranges.cpu
  | .error cause =>
    report (.noRecord path cause fallback)
    return fallback

end SocRanges

end Bcm2835
