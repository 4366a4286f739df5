import Bcm2835.Mailbox.Names
import Bcm2835.Text.Numeral
import Bcm2835.Text.Quoted

/-! The values that command line arguments spell. -/

namespace Bcm2835.CommandLine

/-- A base address: hexadecimal behind `0x` or `0X`, else decimal. -/
def readBase (text : String) : Except Numeral.ReadError UInt32 :=
  UInt32.ofNat <$>
    match text.toList with
    | '0' :: 'x' :: digits | '0' :: 'X' :: digits => Numeral.readNat 16 0xFFFFFFFF digits
    | digits => Numeral.readNat 10 0xFFFFFFFF digits

inductive ClockError where
  | unknownNumber (n : Nat)
  | unknownName (text : String)
  deriving DecidableEq, Repr

def ClockError.message : ClockError → String
  | .unknownNumber n => s!"unknown clock id {Numeral.decimal n}"
  | .unknownName text => s!"unknown clock {Text.quoted text}"

/-- The names clocks are called by. The reserved clock has a number only. -/
def clockNames : List (String × Clock) := [
  ("emmc", .emmc), ("uart", .uart), ("arm", .arm), ("core", .core), ("v3d", .v3d), ("h264", .h264),
  ("isp", .isp), ("sdram", .sdram), ("pixel", .pixel), ("pwm", .pwm), ("hevc", .hevc),
  ("emmc2", .emmc2), ("m2mc", .m2mc), ("pixel-bvb", .pixelBvb)]

/-- A clock by its name in either case of letters. -/
def clockOfName? (text : String) : Option Clock :=
  (clockNames.find? fun e => e.1.toList == text.toList.map Char.toLower).map (·.2)

/-- A clock, by number if the text is a numeral of 32 bits, else by name. -/
def readClock (text : String) : Except ClockError Clock :=
  match Numeral.readNat 10 0xFFFFFFFF text.toList with
  | .ok n =>
    match Clock.ofNumber? n with
    | some c => .ok c
    | none => .error (.unknownNumber n)
  | .error _ =>
    match clockOfName? text with
    | some c => .ok c
    | none => .error (.unknownName text)

/-- A number from 0 to `limit`, of which the message tells if the numeral is outside. -/
def readBounded (limit : Nat) (text : String) : Except String Nat :=
  match Numeral.readInt 0x7FFFFFFFFFFFFFFF text.toList with
  | .error e => .error e.message
  | .ok n =>
    if 0 ≤ n ∧ n ≤ limit then
      .ok n.toNat
    else
      let numeral :=
        if n < 0 then "-" ++ Numeral.decimal n.natAbs else Numeral.decimal n.natAbs
      .error s!"{numeral} is not in 0..={Numeral.decimal limit}"

/-- A number of 64 bits. -/
def readCount (text : String) : Except String Nat :=
  match Numeral.readNat 10 0xFFFFFFFFFFFFFFFF text.toList with
  | .error e => .error e.message
  | .ok n => .ok n

end Bcm2835.CommandLine
