import Bcm2835.Program
import Bcm2835.Register.Blocks
import Bcm2835.Register.Formats

/-! The board as a driver sees it: words at offsets of the peripheral block, a stretch of memory
shared with the firmware, and the passing of time. A run accesses them one after the other, so there
are no memory barriers, and pauses of the processor that access nothing are left out. -/

namespace Bcm2835

namespace Board

inductive Request where
  | read (offset : Nat)
  | write (offset : Nat) (word : UInt32)
  /-- Where the message buffer lies in memory. -/
  | locate
  /-- A write to the mailbox of a word that leads the firmware to this message. -/
  | post (word : UInt32) (message : List UInt32)
  /-- The words of the message buffer as they are now. -/
  | collect (size : Nat)
  /-- Lets some microseconds pass, without looking at a timer of the board. -/
  | pause (ticks : UInt32)
  deriving DecidableEq, Repr

def Answer : Request → Type
  | .read _ => UInt32
  | .write .. => Unit
  | .locate => Nat
  | .post .. => Unit
  | .collect size => Vector UInt32 size
  | .pause _ => Unit

end Board

/-- What drivers on registers ask for. -/
abbrev Board : Interface := ⟨Board.Request, Board.Answer⟩

/-- A program on registers. -/
abbrev Driver (α : Type) : Type := Program Board α

namespace Register

def getAt (offset : Nat) : Driver UInt32 := Program.request (I := Board) (.read offset)

def setAt (offset : Nat) (word : UInt32) : Driver Unit :=
  Program.request (I := Board) (.write offset word)

def get (r : Register) : Driver UInt32 := getAt r.offset

def set (r : Register) (word : UInt32) : Driver Unit := setAt r.offset word

/-- The number in a field. -/
def read (r : Register) (f : Field) : Driver UInt32 := f.read <$> r.get

def isSet (r : Register) (f : Field) : Driver Bool := f.isSet <$> r.get

/-- Writes the assigned bits, and zeros elsewhere. -/
def write (r : Register) (a : Assignment) : Driver Unit := r.set a.value

/-- Reads the word and writes it back with the assigned bits replaced. -/
def modify (r : Register) (a : Assignment) : Driver Unit := do
  r.set (a.applyTo (← r.get))

end Register

end Bcm2835
