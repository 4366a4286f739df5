import Bcm2835.Board

/-! The system timer: a counter of 64 bits that advances once a microsecond and is read in two
words. Waiting looks at the low word only, which is right across one wrap of it. -/

namespace Bcm2835

/-- A length of time, to the nanosecond. -/
structure Duration where
  nanoseconds : Nat
  deriving DecidableEq, Repr

namespace Duration

def ofSeconds (seconds nanoseconds : Nat) : Duration := ⟨seconds * 1000000000 + nanoseconds⟩

def ofMilliseconds (n : Nat) : Duration := ⟨n * 1000000⟩

def half (d : Duration) : Duration := ⟨d.nanoseconds / 2⟩

/-- Whole microseconds. -/
def microseconds (d : Duration) : Nat := d.nanoseconds / 1000

end Duration

namespace SystemTimer

open Program

def ticksPerSecond : UInt32 := 1000000

def ticksPerMillisecond : UInt32 := ticksPerSecond / 1000

def ticksPerMicrosecond : UInt32 := ticksPerSecond / 1000000

/-- Whether `after` is at least `ticks` past `before`, across one wrap of the counter. -/
def elapsed (before after ticks : UInt32) : Bool := ticks ≤ after - before

/-- The low word of the counter. -/
def now : Driver UInt32 := StBlock.clo.get

/-- The whole counter. If the low word wraps between the two reads, the high word moves, and the
words are read again. -/
def uptime : Driver UInt64 :=
  loop (fun _ => do
    let high ← StBlock.chi.get
    let low ← StBlock.clo.get
    if (← StBlock.chi.get) = high then
      return .done (high.toUInt64 <<< 32 ||| low.toUInt64)
    return .again ()) ()

/-- Returns once that many ticks have passed since the first look at the counter. -/
def delay (ticks : UInt32) : Driver Unit := do
  let start ← now
  loop (fun _ => do
    if elapsed start (← now) ticks then return .done ()
    return .again ()) ()

/-- The longest single delay: half the range, so that a late look does not miss the end. -/
def longestDelay : Nat := 0x7FFFFFFF

/-- Waits microseconds of any number, in delays of at most `longestDelay`. -/
def waitMicroseconds (remaining : Nat) : Driver Unit :=
  if _h : remaining = 0 then
    pure ()
  else do
    delay (UInt32.ofNat (min remaining longestDelay))
    waitMicroseconds (remaining - min remaining longestDelay)
termination_by remaining
decreasing_by simp only [longestDelay]; omega

def waitFor (time : Duration) : Driver Unit := waitMicroseconds time.microseconds

end SystemTimer

end Bcm2835
