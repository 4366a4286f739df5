import Bcm2835.Board

/-! The pair of mailboxes between processor and firmware: one word each way at a time, and message
buffers in shared memory that the words lead to. -/

namespace Bcm2835

namespace MailboxPort

inductive Request where
  /-- The mailbox to the firmware takes no word at the moment. -/
  | isFull
  /-- There is no word from the firmware. -/
  | isEmpty
  | read
  | write (word : UInt32)
  /-- The address under which the firmware finds the message buffer. -/
  | busAddress
  /-- Writes a word that leads the firmware to this message. -/
  | post (word : UInt32) (message : List UInt32)
  /-- The words of the message buffer as they are now. -/
  | collect (size : Nat)
  deriving DecidableEq, Repr

def Answer : Request → Type
  | .isFull | .isEmpty => Bool
  | .read => UInt32
  | .write _ | .post .. => Unit
  | .busAddress => Except Error UInt32
  | .collect size => Vector UInt32 size

end MailboxPort

abbrev MailboxPort : Interface := ⟨MailboxPort.Request, MailboxPort.Answer⟩

namespace MailboxPort

variable {α : Type}

def isFull : Program MailboxPort Bool := Program.request (I := MailboxPort) .isFull

def isEmpty : Program MailboxPort Bool := Program.request (I := MailboxPort) .isEmpty

def read : Program MailboxPort UInt32 := Program.request (I := MailboxPort) .read

def write (word : UInt32) : Program MailboxPort Unit :=
  Program.request (I := MailboxPort) (.write word)

def busAddress : Program MailboxPort (Except Error UInt32) :=
  Program.request (I := MailboxPort) .busAddress

def post (word : UInt32) (message : List UInt32) : Program MailboxPort Unit :=
  Program.request (I := MailboxPort) (.post word message)

def collect (size : Nat) : Program MailboxPort (Vector UInt32 size) :=
  Program.request (I := MailboxPort) (.collect size)

/-- Memory addresses are handed to the firmware as they are, so only those of 32 bits reach it. -/
def firmwareAddress (addr : Nat) : Except Error UInt32 :=
  if addr < UInt32.size then .ok (UInt32.ofNat addr) else .error (.bufferAddress addr)

/-- The port as the board wires it. One status register holds both fill flags. -/
def onBoard : (r : Request) → Driver (Answer r)
  | .isFull => MailboxBlock.status0.isSet MboxStatus.full
  | .isEmpty => MailboxBlock.status0.isSet MboxStatus.empty
  | .read => MailboxBlock.read.get
  | .write word => MailboxBlock.write.set word
  | .busAddress => firmwareAddress <$> Program.request (I := Board) .locate
  | .post word message => Program.request (I := Board) (.post word message)
  | .collect size => Program.request (I := Board) (.collect size)

/-- A program on the port, run on the board. -/
def drive (p : Program MailboxPort α) : Driver α := p.lower onBoard

end MailboxPort

end Bcm2835
