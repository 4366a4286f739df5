/-! Text as it comes out of a stream that is no terminal. Control characters are left out, and with
them what an escape character begins; blanks and line ends stay. A blank or line end within an
escape sequence comes out, and so does what follows it, up to the next control character: there the
sequence goes on where it was. -/

namespace Bcm2835.Text

/-- Where a text is within what an escape character began. -/
inductive Escaping where
  | outside
  | begun
  /-- Behind the first of the characters that delay the end of a short sequence. -/
  | delayed
  /-- Parameters, up to a final letter. -/
  | parameters
  /-- A string that a bell ends. -/
  | command
  /-- The head of a device control string, up to its final letter. -/
  | device
  | deviceParameters
  | deviceDelayed
  /-- A string that the byte `0x9c` ends, also as a part of a longer character. -/
  | string
  deriving DecidableEq, Repr

/-- Whether the byte `0x9c` is in the encoding of a character. -/
def holdsTerminator (c : Char) : Bool := (String.utf8EncodeChar c).contains 0x9c

/-- Line ends, tabs and form feeds. -/
def isSpacing (c : Char) : Bool := c = '\t' ∨ c = '\n' ∨ c = '\r' ∨ c.toNat = 0x0c

/-- The control characters of ASCII. -/
def isControl (c : Char) : Bool := c.toNat < 0x20 ∨ c.toNat = 0x7f

namespace Escaping

/-- Where the text is behind a character that does not come out. -/
def next (e : Escaping) (c : Char) : Escaping :=
  let n := c.toNat
  let delays : Bool := 0x20 ≤ n ∧ n < 0x30
  let ends : Bool := 0x40 ≤ n ∧ n < 0x7f
  if n = 0x1b then begun
  else if n = 0x18 ∨ n = 0x1a then outside
  else
    match e with
    | outside => outside
    | begun =>
      if c = '[' then parameters
      else if c = ']' then command
      else if c = 'P' then device
      else if c = 'X' ∨ c = '^' ∨ c = '_' then string
      else if delays then delayed
      else if 0x30 ≤ n ∧ n < 0x7f then outside
      else begun
    | delayed => if 0x30 ≤ n ∧ n < 0x7f then outside else delayed
    | parameters => if ends then outside else parameters
    | command => if n = 0x07 then outside else command
    | device =>
      if delays then deviceDelayed
      else if 0x30 ≤ n ∧ n < 0x40 then deviceParameters
      else if ends then string
      else device
    | deviceParameters =>
      if delays then deviceDelayed
      else if 0x3c ≤ n ∧ n < 0x7f then string
      else deviceParameters
    | deviceDelayed => if 0x30 ≤ n ∧ n < 0x7f then string else deviceDelayed
    | string => if holdsTerminator c then outside else string

/-- Whether blanks and line ends come out from within. -/
def letsSpacingOut : Escaping → Bool
  | outside | begun | delayed | parameters => true
  | command | device | deviceParameters | deviceDelayed | string => false

end Escaping

/-- The state between two characters of a text. -/
structure PlainState where
  escaping : Escaping := .outside
  /-- Whether the last character came out. -/
  flowing : Bool := false
  deriving DecidableEq, Repr

namespace PlainState

/-- Whether a character comes out. -/
def shows (s : PlainState) (c : Char) : Bool :=
  if s.flowing || s.escaping = .outside then isSpacing c || !isControl c
  else isSpacing c && s.escaping.letsSpacingOut

/-- The state behind a character. One beyond ASCII that comes out ends the sequence it is in. -/
def next (s : PlainState) (c : Char) : PlainState :=
  if s.shows c then
    { escaping := if c.toNat < 0x80 then s.escaping else .outside, flowing := true }
  else
    { escaping := s.escaping.next c, flowing := false }

end PlainState

/-- What comes out of a text that begins in the state `s`. -/
def plainFrom (s : PlainState) : List Char → List Char
  | [] => []
  | c :: cs =>
    let rest := plainFrom (s.next c) cs
    if s.shows c then c :: rest else rest

def plain (text : String) : String := String.ofList (plainFrom {} text.toList)

end Bcm2835.Text
