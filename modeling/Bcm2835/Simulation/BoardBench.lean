import Bcm2835.Board
import Bcm2835.Device
import Bcm2835.Simulation.Firmware
import Bcm2835.Simulation.Trace

/-! A simulated board: words that keep what is written, masks of bits that always read as set,
scripts of readings, a running timer, and a firmware behind the mailbox. -/

namespace Bcm2835.Simulation

/-- Words by offset, in the order of the offsets; those not listed are zero. -/
structure WordMap where
  entries : List (Nat × UInt32) := []
  deriving DecidableEq, Repr

namespace WordMap

def get (m : WordMap) (offset : Nat) : UInt32 :=
  ((m.entries.find? fun e => e.1 == offset).map (·.2)).getD 0

private def insert (offset : Nat) (word : UInt32) : List (Nat × UInt32) → List (Nat × UInt32)
  | [] => [(offset, word)]
  | (o, w) :: rest =>
    if offset < o then (offset, word) :: (o, w) :: rest
    else if offset = o then (offset, word) :: rest
    else (o, w) :: insert offset word rest

def set (m : WordMap) (offset : Nat) (word : UInt32) : WordMap := ⟨insert offset word m.entries⟩

def nonzero (m : WordMap) : List (Nat × UInt32) := m.entries.filter fun e => e.2 != 0

end WordMap

/-- Readings of a script: so many times this word, or the word that is there anyway. -/
structure Reading where
  times : Nat
  word : Option UInt32
  deriving DecidableEq, Repr

/-- A counter and what every look at it adds. -/
structure RunningTimer where
  counter : UInt64
  step : UInt64
  deriving DecidableEq, Repr

structure BoardBench where
  words : WordMap := {}
  masks : WordMap := {}
  scripts : List (Nat × List Reading) := []
  timer : Option RunningTimer := none
  firmware : Option Firmware := none
  /-- Message buffers lie where the firmware does not reach. -/
  highBuffers : Bool := false
  /-- Messages posted so far. -/
  tokens : Nat := 0
  /-- The message buffer. -/
  memory : List UInt32 := []
  trace : Trace := {}

namespace BoardBench

/-- The first address beyond the firmware's reach. -/
def highAddress : Nat := 0x100000000

/-- The address of the message buffer with that number. -/
def token (n : Nat) : Nat := n * 16

/-- Takes the next reading of a script, and the rest of the script. A reading for no times is
skipped. -/
def nextReading : List Reading → Option (Option UInt32 × List Reading)
  | [] => none
  | ⟨0, _⟩ :: rest => nextReading rest
  | ⟨1, word⟩ :: rest => some (word, rest)
  | ⟨n + 2, word⟩ :: rest => some (word, ⟨n + 1, word⟩ :: rest)

/-- The readings that are still to come at an offset. -/
def scriptAt (b : BoardBench) (offset : Nat) : List Reading :=
  ((b.scripts.find? fun s => s.1 == offset).map (·.2)).getD []

def setScript (b : BoardBench) (offset : Nat) (script : List Reading) : BoardBench :=
  { b with scripts := (offset, script) :: b.scripts.filter fun s => s.1 != offset }

/-- Appends readings to the script of an offset. -/
def appendScript (b : BoardBench) (offset : Nat) (script : List Reading) : BoardBench :=
  b.setScript offset (b.scriptAt offset ++ script)

/-- A reading that no script decides: timer and mailbox first, else what is stored, with the mask
put over it. -/
def readThrough (b : BoardBench) (offset : Nat) : UInt32 × BoardBench :=
  let stored := (b.words.get offset ||| b.masks.get offset, b)
  match b.timer, b.firmware with
  | some t, firmware =>
    if offset = StBlock.clo.offset then
      (t.counter.toUInt32, { b with timer := some { t with counter := t.counter + t.step } })
    else if offset = StBlock.chi.offset then
      ((t.counter >>> 32).toUInt32, b)
    else
      match firmware with
      | some f => throughMailbox f stored
      | none => stored
  | none, some f => throughMailbox f stored
  | none, none => stored
where
  throughMailbox (f : Firmware) (stored : UInt32 × BoardBench) : UInt32 × BoardBench :=
    if offset = MailboxBlock.status0.offset then
      let (word, f) := f.status
      (word, { b with firmware := some f })
    else if offset = MailboxBlock.read.offset then
      let (word, f) := f.read
      (word, { b with firmware := some f })
    else
      stored

def read (b : BoardBench) (offset : Nat) : UInt32 × BoardBench :=
  match nextReading (b.scriptAt offset) with
  | some (some word, rest) => (word, b.setScript offset rest)
  | some (none, rest) => (b.setScript offset rest).readThrough offset
  | none => b.readThrough offset

/-- Stores a word. A word for the mailbox also goes to the firmware, with the message it leads to
if there is one. -/
def write (b : BoardBench) (offset : Nat) (word : UInt32) (message : Option (List UInt32)) :
    BoardBench :=
  let b := { b with
    words := b.words.set offset word
    trace := b.trace.push (.writeRegister offset word) }
  match b.firmware with
  | some f =>
    if offset = MailboxBlock.write.offset then
      let (after, left) := f.write word message
      let trace :=
        match message with
        | some ws => if f.listens then b.trace.push (.message ws) else b.trace
        | none => b.trace
      { b with firmware := some after, trace, memory := left.getD b.memory }
    else
      b
  | none => b

def respond : (r : Board.Request) → BoardBench → Option (Board.Answer r × BoardBench)
  | .read offset, b =>
    let (word, b) := b.read offset
    some (word, { b with trace := b.trace.push (.readRegister offset word) })
  | .write offset word, b => some ((), b.write offset word none)
  | .locate, b => some (if b.highBuffers then highAddress else token (b.tokens + 1), b)
  | .post word message, b =>
    let b := { b with tokens := b.tokens + 1, memory := message }
    some ((), b.write MailboxBlock.write.offset word (some message))
  | .collect size, b => some (Vector.ofFn fun i : Fin size => b.memory.getD i.val 0, b)
  | .pause ticks, b => some ((), { b with trace := b.trace.push (.delay ticks) })

def device : Device Board BoardBench := ⟨respond⟩

end BoardBench

end Bcm2835.Simulation
