/-! Numerals: the digits of a number in any radix up to 36, and the reader that goes with them.
A reader works from left to right and stops at the first fault, so a number that is already too
large is reported as such even if a later character is no digit. -/

namespace Bcm2835.Numeral

/-- The digit of value `d`: 0 to 9, then the small letters. -/
def digitChar (d : Nat) : Char :=
  if d < 10 then Char.ofNat (48 + d) else Char.ofNat (87 + d)

/-- Most significant digit first, one digit at least, no leading zeros. -/
def digits (radix n : Nat) : List Char :=
  if _h : 2 ≤ radix ∧ radix ≤ n then
    digits radix (n / radix) ++ [digitChar (n % radix)]
  else
    [digitChar n]
termination_by n
decreasing_by exact Nat.div_lt_self (by omega) (by omega)

/-- At least `width` digits, filled up with zeros on the left. -/
def padded (radix width n : Nat) : List Char :=
  let ds := digits radix n
  List.replicate (width - ds.length) '0' ++ ds

def decimal (n : Nat) : String := String.ofList (digits 10 n)

/-- Small hexadecimal digits, at least `width` of them. -/
def hex (width n : Nat) : String := String.ofList (padded 16 width n)

/-- The digits behind the marker `0x`. -/
def address (width n : Nat) : String := String.ofList ('0' :: 'x' :: padded 16 width n)

inductive ReadError where
  | empty
  | invalidDigit
  | tooLarge
  | tooSmall
  deriving DecidableEq, Repr

def ReadError.message : ReadError → String
  | .empty => "cannot parse integer from empty string"
  | .invalidDigit => "invalid digit found in string"
  | .tooLarge => "number too large to fit in target type"
  | .tooSmall => "number too small to fit in target type"

/-- Letters count as digits in either case. -/
def digitValue (radix : Nat) (c : Char) : Option Nat :=
  let v :=
    if '0' ≤ c ∧ c ≤ '9' then c.toNat - 48
    else if 'a' ≤ c ∧ c ≤ 'z' then c.toNat - 87
    else if 'A' ≤ c ∧ c ≤ 'Z' then c.toNat - 55
    else radix
  if v < radix then some v else none

/-- Continues a value with further digits as long as it stays within `limit`. -/
def extend (radix limit : Nat) (overflow : ReadError) : Nat → List Char → Except ReadError Nat
  | value, [] => .ok value
  | value, c :: cs =>
    match digitValue radix c with
    | none => .error .invalidDigit
    | some d =>
      if value * radix + d ≤ limit then
        extend radix limit overflow (value * radix + d) cs
      else
        .error overflow

/-- A sign that stands alone is an invalid digit. -/
def readMagnitude (radix limit : Nat) (overflow : ReadError) (cs : List Char) :
    Except ReadError Nat :=
  if cs.isEmpty then .error .invalidDigit else extend radix limit overflow 0 cs

/-- An optional plus sign, then digits of a value up to `limit`. -/
def readNat (radix limit : Nat) : List Char → Except ReadError Nat
  | [] => .error .empty
  | '+' :: cs => readMagnitude radix limit .tooLarge cs
  | cs => readMagnitude radix limit .tooLarge cs

/-- An optional sign, then decimal digits of a value from `-(limit + 1)` to `limit`. -/
def readInt (limit : Nat) : List Char → Except ReadError Int
  | [] => .error .empty
  | '+' :: cs => Int.ofNat <$> readMagnitude 10 limit .tooLarge cs
  | '-' :: cs => (fun n => -Int.ofNat n) <$> readMagnitude 10 (limit + 1) .tooSmall cs
  | cs => Int.ofNat <$> readMagnitude 10 limit .tooLarge cs

end Bcm2835.Numeral
