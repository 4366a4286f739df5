import Bcm2835.Mailbox.Message

/-! A simulated firmware. It keeps a bank of clocks, answers the tags of a message in order and in
place, and passes words back through a queue. A script says how it strays from that: words of
others before and after an echo, missing echoes, flags that hold up a poll, and words patched into
an answer. -/

namespace Bcm2835.Simulation

structure ClockState where
  state : UInt32 := 0
  rate : UInt32 := 0
  measured : UInt32 := 0
  deriving DecidableEq, Repr

/-- Clocks by number; those not listed are all zero. -/
structure ClockBank where
  entries : List (UInt32 × ClockState) := []
  deriving DecidableEq, Repr

namespace ClockBank

def get (b : ClockBank) (clock : UInt32) : ClockState :=
  ((b.entries.find? fun e => e.1 == clock).map (·.2)).getD {}

def put (b : ClockBank) (clock : UInt32) (s : ClockState) : ClockBank := ⟨(clock, s) :: b.entries⟩

@[simp] theorem get_put_self (b : ClockBank) (clock : UInt32) (s : ClockState) :
    (b.put clock s).get clock = s := by
  simp [get, put]

theorem get_put_of_ne (b : ClockBank) {clock other : UInt32} (s : ClockState) (h : clock ≠ other) :
    (b.put clock s).get other = b.get other := by
  simp [get, put, h]

end ClockBank

/-- How tags are answered: from a state, the id of a tag and its values to the state afterwards and
the words of the response. -/
abbrev TagHandler (σ : Type) : Type := σ → UInt32 → List UInt32 → σ × List UInt32

/-- Answers from a bank of clocks. A tag that is not known has an empty response. -/
def ClockBank.handler (revision : UInt32) : TagHandler ClockBank := fun clocks id values =>
  let a := values.getD 0 0
  let b := values.getD 1 0
  if id = Tag.firmwareRevision.id then
    (clocks, [revision])
  else if id = Tag.clockState.id then
    (clocks, [a, (clocks.get a).state])
  else if id = Tag.clockRate.id then
    (clocks, [a, (clocks.get a).rate])
  else if id = Tag.clockRateMeasured.id then
    (clocks, [a, (clocks.get a).measured])
  else if id = Tag.setClockState.id then
    let state := b &&& 1
    (clocks.put a { clocks.get a with state }, [a, state])
  else if id = Tag.setClockRate.id then
    (clocks.put a { clocks.get a with rate := b, measured := b }, [a, b])
  else
    (clocks, [])

/-- Stores words over the first of others, as far as there is room. -/
def overlay : List UInt32 → List UInt32 → List UInt32
  | w :: ws, _ :: room => w :: overlay ws room
  | _, room => room

/-- Answers the tags of a message from the first tag on: id, size of the value buffer in bytes,
status, values. The walk stops at an id of zero or where no whole header is left. -/
def answerTags {σ : Type} (handle : TagHandler σ) (s : σ) (words : List UInt32) :
    σ × List UInt32 :=
  match words with
  | id :: size :: _ :: rest =>
    if id = 0 then
      (s, words)
    else
      let room := size.toNat / 4
      let (s, response) := handle s id (rest.take room)
      let answered := TagStatus.response.mask ||| UInt32.ofNat (4 * response.length)
      let (s, behind) := answerTags handle s (rest.drop room)
      (s, id :: size :: answered :: (overlay response (rest.take room) ++ behind))
  | _ => (s, words)
termination_by words.length
decreasing_by simp only [List.length_drop, List.length_cons]; omega

/-- How a firmware departs from a prompt and plain echo. The lists go by the number of the mailbox
write or read; what they do not say is nothing, or zero. -/
structure FirmwareScript where
  revision : UInt32 := 0x5f3e2a10
  /-- The code of an answered message. -/
  code : UInt32 := Message.successCode
  /-- Writes have no effect. -/
  silent : Bool := false
  /-- Messages are echoed and not looked at. -/
  echoOnly : Bool := false
  /-- Words queued before the echo. -/
  before : List (List UInt32) := []
  /-- No echo. -/
  mute : List Bool := []
  /-- Words queued after the echo. -/
  after : List (List UInt32) := []
  /-- Words stored into the answered message, by position. -/
  patches : List (List (Nat × UInt32)) := []
  /-- Polls that show no room before a write. -/
  fullPolls : List Nat := []
  /-- Polls that show no word although there is one, before a read. -/
  emptyPolls : List Nat := []
  deriving DecidableEq, Repr

structure Firmware where
  script : FirmwareScript
  clocks : ClockBank
  queue : List UInt32
  writes : Nat := 0
  reads : Nat := 0
  /-- Polls that will still show no room. -/
  fullLeft : Nat
  /-- Polls that will still show no word. -/
  emptyLeft : Nat
  deriving DecidableEq, Repr

namespace Firmware

def new (script : FirmwareScript) (clocks : ClockBank) (pending : List UInt32) : Firmware where
  script := script
  clocks := clocks
  queue := pending
  fullLeft := script.fullPolls.getD 0 0
  emptyLeft := script.emptyPolls.getD 0 0

/-- The status word. There may be no room while no word is queued. -/
def status (f : Firmware) : UInt32 × Firmware :=
  match f.queue with
  | [] =>
    if f.fullLeft = 0 then (MboxStatus.empty.mask, f)
    else (MboxStatus.empty.mask ||| MboxStatus.full.mask, { f with fullLeft := f.fullLeft - 1 })
  | _ :: _ =>
    if f.emptyLeft = 0 then (0, f)
    else (MboxStatus.empty.mask, { f with emptyLeft := f.emptyLeft - 1 })

/-- Takes the first word of the queue. -/
def read (f : Firmware) : UInt32 × Firmware :=
  (f.queue.headD 0, { f with
    queue := f.queue.tail
    reads := f.reads + 1
    emptyLeft := f.script.emptyPolls.getD (f.reads + 1) 0 })

/-- The answered message. -/
def process (f : Firmware) (message : List UInt32) : ClockBank × List UInt32 :=
  match message with
  | size :: _ :: tags =>
    let (clocks, tags) := answerTags (ClockBank.handler f.script.revision) f.clocks tags
    let answered := size :: f.script.code :: tags
    (clocks, (f.script.patches.getD f.writes []).foldl (fun ws (i, w) => ws.set i w) answered)
  | _ => (f.clocks, message)

/-- Whether a message written now would be looked at. -/
def listens (f : Firmware) : Bool := !f.script.silent && !f.script.echoOnly

/-- Takes a word that may lead to a message. The result is the firmware afterwards and the message
as it leaves it. -/
def write (f : Firmware) (word : UInt32) (message : Option (List UInt32)) :
    Firmware × Option (List UInt32) :=
  let counted := { f with
    writes := f.writes + 1
    fullLeft := f.script.fullPolls.getD (f.writes + 1) 0 }
  if f.script.silent then
    (counted, message)
  else
    let (clocks, left) :=
      match message with
      | some ws =>
        if f.listens then
          let (clocks, ws) := f.process ws
          (clocks, some ws)
        else
          (f.clocks, message)
      | none => (f.clocks, none)
    let echo := if f.script.mute.getD f.writes false then [] else [word]
    let words := f.script.before.getD f.writes [] ++ echo ++ f.script.after.getD f.writes []
    ({ counted with clocks, queue := f.queue ++ words }, left)

end Firmware

end Bcm2835.Simulation
