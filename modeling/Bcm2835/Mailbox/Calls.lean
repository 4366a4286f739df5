import Bcm2835.Budget
import Bcm2835.Mailbox.Message
import Bcm2835.Mailbox.Port

/-! Calls to the firmware. A call posts a word and waits until the same word comes back; words that
come in between answer somebody else and are thrown away. A property call leads the firmware to a
message, which it answers in place. -/

namespace Bcm2835.Mailbox

open Program MailboxPort

/-- The word that carries an address on a channel. Addresses are multiples of 16. -/
def compose (channel : Channel) (addr : UInt32) : UInt32 :=
  (MboxWord.channel.val channel.number).applyTo addr

/-- Waits for room, then hands the word over. -/
def deliver (handOver : Program MailboxPort Unit) : Program MailboxPort Unit := do
  waitUntil (not <$> isFull)
  handOver

/-- Waits for a word and takes it. -/
def nextWord : Program MailboxPort UInt32 := do
  waitUntil (not <$> isEmpty)
  read

/-- Takes one word. The wanted one ends the wait, every other costs one unit of waiting. -/
def takeEcho (wanted : UInt32) : Program MailboxPort (Step Unit Unit) := do
  let word ← nextWord
  if word = wanted then return .done ()
  report (.discarded word wanted)
  tick
  return .again ()

/-- Takes words until the wanted one comes. -/
def awaitEcho (wanted : UInt32) : Program MailboxPort Unit := loop (fun _ => takeEcho wanted) ()

/-- Posts an address without waiting for an answer. -/
def send (budget : Budget) (channel : Channel) (addr : UInt32) : Program MailboxPort Unit :=
  within budget (deliver (write (compose channel addr)))

/-- The next word, whatever channel it belongs to. -/
def receive (budget : Budget) : Program MailboxPort UInt32 := within budget nextWord

/-- Posts an address and waits for its echo. -/
def call (budget : Budget) (channel : Channel) (addr : UInt32) : Program MailboxPort Unit :=
  within budget do
    let wanted := compose channel addr
    deliver (write wanted)
    awaitEcho wanted

variable {β : Type} [Payload β]

/-- The message as the firmware left it, and how its call ended. -/
def readBack (message : Message β) (echoed : Except Error Unit) :
    Program MailboxPort (Message β × Except Error Unit) := do
  let left := message.refill (← collect message.words.length).toList
  if echoed.isOk && left.code ≠ Message.successCode then
    report (.answerCode left.code)
  return (left, echoed)

/-- Goes on once the word of a message was posted, or could not be, with what is left of the
budget. -/
def afterPost (message : Message β) (word : UInt32) :
    Except Error Unit × Budget → Program MailboxPort (Message β × Except Error Unit)
  | (.error e, _) => return (message, .error e)
  | (.ok (), budget) => do
    let (echoed, _) ← metered budget (awaitEcho word)
    readBack message echoed

/-- Posts a message and waits for its echo. The result is the message as the firmware left it,
if it was posted at all, and how the call ended. -/
def callMessage (budget : Budget) (message : Message β) :
    Program MailboxPort (Message β × Except Error Unit) := do
  match ← busAddress with
  | .error e => return (message, .error e)
  | .ok addr =>
    let word := compose .property addr
    let posted ← metered budget (deliver (post word message.words))
    afterPost message word posted

/-- A message as a request for one tag. -/
def requestFor (tag : Tag) (message : Message Property) : Message Property :=
  let size := UInt32.ofNat (4 * message.body.data.length)
  { message.resetHeader with
    body := { message.body with header := TagHeader.request tag size } }

/-- Runs one tag. The response takes the place of the data. -/
def propertyCall (budget : Budget) (tag : Tag) (message : Message Property) :
    Program MailboxPort (Message Property × Except Error Unit) := do
  let (left, result) ← callMessage budget (requestFor tag message)
  if result.isOk then
    report (.answered tag left.body.header.responseLength)
  return (left, result)

/-- Runs the tags of a message as they stand; only the header is filled in. -/
def propertyCallMulti (budget : Budget) (message : Message (List Property)) :
    Program MailboxPort (Message (List Property) × Except Error Unit) :=
  callMessage budget message.resetHeader

/-- Runs one tag and goes on with the answered message, or fails as the call does. -/
def query (budget : Budget) (tag : Tag) (message : Message Property) :
    Program MailboxPort (Message Property) := do
  let (left, result) ← propertyCall budget tag message
  ofExcept result
  return left

/-- A value word of the answer. -/
def value (message : Message Property) (i : Nat) : UInt32 := message.body.data.getD i 0

/-- Switches a clock on, then sets its rate in Hz. Each of the two calls has the whole budget. -/
def setClockRate (budget : Budget) (clock : Clock) (rate : UInt32) :
    Program MailboxPort Unit := do
  let _ ← query budget .setClockState (.new { data := [clock.number, 1] })
  let _ ← query budget .setClockRate (.new { data := [clock.number, rate, 0] })

/-- The rate of a clock in Hz, or 0 if it does not run. Each call has the whole budget. -/
def clockRate (budget : Budget) (clock : Clock) : Program MailboxPort UInt32 := do
  let state ← query budget .clockState (.new { data := [clock.number, 0] })
  if ClockStateWord.on.isSet (value state 1) then
    let request := { state with body := { state.body with data := [clock.number, 0] } }
    return value (← query budget .clockRate request) 1
  else
    return 0

/-- The rate the firmware measures, in Hz. -/
def measuredClockRate (budget : Budget) (clock : Clock) : Program MailboxPort UInt32 := do
  let answer ← query budget .clockRateMeasured (.new { data := [clock.number, 0] })
  return value answer 1

def firmwareRevision (budget : Budget) : Program MailboxPort UInt32 := do
  let answer ← query budget .firmwareRevision (.new { data := [0] })
  return value answer 0

end Bcm2835.Mailbox
