import Bcm2835.Text.Numeral

/-! How an operation can end: with a value, with an error its caller can handle, with a fault, which
nobody handles, or not at all. -/

namespace Bcm2835

open Numeral (decimal address)

/-- What the operating system says about a file. -/
inductive FileError where
  | notFound
  | isDirectory
  | notDirectory
  | nameTooLong
  | zeroInName
  | invalidArgument
  | outOfMemory
  | unexpectedEnd
  | other (text : String)
  deriving DecidableEq, Repr

def FileError.message : FileError → String
  | .notFound => "No such file or directory (os error 2)"
  | .isDirectory => "Is a directory (os error 21)"
  | .notDirectory => "Not a directory (os error 20)"
  | .nameTooLong => "File name too long (os error 36)"
  | .zeroInName => "file name contained an unexpected NUL byte"
  | .invalidArgument => "Invalid argument (os error 22)"
  | .outOfMemory => "Cannot allocate memory (os error 12)"
  | .unexpectedEnd => "failed to fill whole buffer"
  | .other text => text

/-- Why a table of sub-regions is refused. -/
inductive LayoutError where
  | unaligned (name : String) (offset : UInt64)
  | overlap (first second : String)
  | outOfBounds (name : String) (limit : UInt64)
  deriving DecidableEq, Repr

def LayoutError.message : LayoutError → String
  | .unaligned name offset => s!"{name} at {address 1 offset.toNat} is not 32-bit aligned"
  | .overlap first second => s!"{first} overlaps {second}"
  | .outOfBounds name limit =>
    s!"{name} ends at {address 1 limit.toNat}, past the end of the peripheral block"

/-- The errors of the library. -/
inductive Error where
  | cannotOpen (path : String) (cause : FileError)
  | cannotMap (base : UInt32) (length : Nat) (cause : FileError)
  | layout (cause : LayoutError)
  | bufferAddress (addr : Nat)
  | invalidPin (pin : UInt8)
  | timeout
  deriving DecidableEq, Repr

namespace Error

def message : Error → String
  | .cannotOpen path cause => s!"cannot open {path}: {cause.message}"
  | .cannotMap base length cause =>
    s!"cannot map {address 1 length} bytes of physical memory at {address 8 base.toNat}: " ++
      cause.message
  | .layout cause => s!"peripheral layout is inconsistent: {cause.message}"
  | .bufferAddress addr =>
    s!"mailbox buffer at {address 1 addr} is not addressable by the firmware"
  | .invalidPin pin => s!"invalid GPIO pin {decimal pin.toNat}"
  | .timeout => "hardware did not respond within the spin budget"

/-- The error an error reports on, if it wraps one. -/
def cause? : Error → Option String
  | .cannotOpen _ cause | .cannotMap _ _ cause => some cause.message
  | .layout cause => some cause.message
  | .bufferAddress _ | .invalidPin _ | .timeout => none

end Error

/-- What a formatter learns of an error: that there was one. -/
inductive FormatError where
  | failed
  deriving DecidableEq, Repr

def FormatError.message : FormatError → String
  | .failed => "an error occurred when formatting an argument"

/-- Arithmetic without a result, or a position that is not there. It ends the whole operation; no
caller handles it. -/
inductive Fault where
  | divisionByZero
  | additionOverflow
  | subtractionOverflow
  | indexOutOfRange (length index : Nat)
  deriving DecidableEq, Repr

def Fault.message : Fault → String
  | .divisionByZero => "attempt to divide by zero"
  | .additionOverflow => "attempt to add with overflow"
  | .subtractionOverflow => "attempt to subtract with overflow"
  | .indexOutOfRange length index =>
    s!"index out of bounds: the len is {decimal length} but the index is {decimal index}"

/-- How a run ended. A stalled run has not ended: it was given up while it was still waiting. -/
inductive Outcome (α : Type) where
  | ok (value : α)
  | error (e : Error)
  | fault (f : Fault)
  | stalled
  deriving DecidableEq, Repr

namespace Fault

theorem bind_eq_ok {α β : Type} {x : Except Fault α} {f : α → Except Fault β} {b : β} :
    x >>= f = .ok b ↔ ∃ a, x = .ok a ∧ f a = .ok b := by
  cases x with
  | error e =>
    constructor
    · intro h
      cases h
    · rintro ⟨a, h, -⟩
      cases h
  | ok a =>
    constructor
    · intro h
      exact ⟨a, rfl, h⟩
    · rintro ⟨a, h, hf⟩
      cases h
      exact hf

/-- A quotient; there is none by zero. -/
def quotient (a b : UInt32) : Except Fault UInt32 :=
  if b = 0 then .error divisionByZero else .ok (a / b)

/-- A sum that fits into 32 bits. -/
def sum32 (a b : UInt32) : Except Fault UInt32 :=
  if a.toNat + b.toNat < UInt32.size then .ok (a + b) else .error additionOverflow

/-- A sum that fits into 64 bits. -/
def sum64 (a b : UInt64) : Except Fault UInt64 :=
  if a.toNat + b.toNat < UInt64.size then .ok (a + b) else .error additionOverflow

/-- A difference that is not negative. -/
def difference64 (a b : UInt64) : Except Fault UInt64 :=
  if b ≤ a then .ok (a - b) else .error subtractionOverflow

theorem sum32_eq_ok {a b c : UInt32} : sum32 a b = .ok c ↔ c.toNat = a.toNat + b.toNat := by
  have hadd : (a + b).toNat = (a.toNat + b.toNat) % UInt32.size := UInt32.toNat_add a b
  rw [sum32]
  split
  · next h =>
    rw [Except.ok.injEq, ← UInt32.toNat_inj, hadd, Nat.mod_eq_of_lt h, eq_comm]
  · next h =>
    have hc : c.toNat < UInt32.size := c.toNat_lt
    constructor
    · intro h
      cases h
    · intro h
      omega

theorem sum64_eq_ok {a b c : UInt64} : sum64 a b = .ok c ↔ c.toNat = a.toNat + b.toNat := by
  have hadd : (a + b).toNat = (a.toNat + b.toNat) % UInt64.size := UInt64.toNat_add a b
  rw [sum64]
  split
  · next h =>
    rw [Except.ok.injEq, ← UInt64.toNat_inj, hadd, Nat.mod_eq_of_lt h, eq_comm]
  · next h =>
    have hc : c.toNat < UInt64.size := c.toNat_lt
    constructor
    · intro h
      cases h
    · intro h
      omega

theorem sum64_eq_error {a b : UInt64} {f : Fault} :
    sum64 a b = .error f ↔ UInt64.size ≤ a.toNat + b.toNat ∧ f = additionOverflow := by
  rw [sum64]
  split
  · next h => simp [Nat.not_le.2 h]
  · next h => simp [Nat.not_lt.1 h, eq_comm]

theorem difference64_eq_ok {a b c : UInt64} :
    difference64 a b = .ok c ↔ a.toNat = b.toNat + c.toNat := by
  rw [difference64]
  split
  · next h =>
    have hsub : (a - b).toNat = a.toNat - b.toNat := UInt64.toNat_sub_of_le a b h
    rw [UInt64.le_iff_toNat_le] at h
    rw [Except.ok.injEq, ← UInt64.toNat_inj, hsub]
    omega
  · next h =>
    rw [UInt64.le_iff_toNat_le] at h
    constructor
    · intro h
      cases h
    · intro h
      omega

end Fault

end Bcm2835
