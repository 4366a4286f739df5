import Bcm2835.Board
import Bcm2835.Mapper

/-! The machine a whole command runs on: its files, a device file that gives access to physical
memory, the board behind that, and a place to print to. -/

namespace Bcm2835

namespace Machine

inductive Request where
  | board (r : Board.Request)
  | readFile (path : String)
  /-- Opens a device file for reading and writing. -/
  | openDevice (path : String)
  /-- Maps memory of the opened device, shared and locked, and answers where. -/
  | mapDevice (base : UInt32) (length : Nat)
  | print (text : String)
  deriving DecidableEq, Repr

def Answer : Request → Type
  | .board r => Board.Answer r
  | .readFile _ => Except FileError (List UInt8)
  | .openDevice _ => Except FileError Unit
  | .mapDevice .. => Except FileError Nat
  | .print _ => Unit

end Machine

abbrev Machine : Interface := ⟨Machine.Request, Machine.Answer⟩

namespace Machine

variable {α : Type}

/-- The protection of the mapping: read and write. -/
def protection : Nat := 0x3

/-- The flags of the mapping: shared, locked, populated. -/
def mapFlags : Nat := 0xa001

/-- Bases of mappings are multiples of this. -/
def pageSize : Nat := 4096

def print (text : String) : Program Machine Unit := Program.request (I := Machine) (.print text)

/-- A program on registers, run on the board of the machine. -/
def onBoard (p : Driver α) : Program Machine α :=
  p.lower fun r => Program.request (I := Machine) (.board r)

/-- Maps physical memory through a device file. -/
def mapThrough (device : String) (base : UInt32) (length : Nat) :
    Program Machine (Except Error Nat) := do
  match ← Program.request (I := Machine) (.openDevice device) with
  | .error cause => return .error (.cannotOpen device cause)
  | .ok () =>
    match ← Program.request (I := Machine) (.mapDevice base length) with
    | .error cause => return .error (.cannotMap base length cause)
    | .ok 0 => return .error (.cannotMap base length (.other "mmap returned a null mapping"))
    | .ok addr => return .ok addr

/-- Carries out what the system is asked for, with a device file for physical memory. -/
def onDevice (device : String) : (r : Host.Request) → Program Machine (Host.Answer r)
  | .readFile path => Program.request (I := Machine) (.readFile path)
  | .mapMemory base length => mapThrough device base length

/-- A program on the system, run on the machine. -/
def onHost (device : String) (p : Program Host α) : Program Machine α := p.lower (onDevice device)

end Machine

end Bcm2835
