import Bcm2835.Text.Invisible
import Bcm2835.Text.Numeral

/-! Quoted text: between double quotes, with an escape for every character that would not show as
itself. -/

namespace Bcm2835.Text

/-- The code point in hexadecimal, between braces behind a marker. -/
def escapeCode (c : Char) : List Char :=
  '\\' :: 'u' :: Char.ofNat 0x7b :: (Numeral.digits 16 c.toNat ++ [Char.ofNat 0x7d])

def escape (c : Char) : List Char :=
  if c.toNat = 0 then ['\\', '0']
  else if c = '\t' then ['\\', 't']
  else if c = '\n' then ['\\', 'n']
  else if c = '\r' then ['\\', 'r']
  else if c = '"' then ['\\', '"']
  else if c = '\\' then ['\\', '\\']
  else if c.toNat < 0x20 ∨ c.toNat = 0x7f then escapeCode c
  else if 0x80 ≤ c.toNat ∧ isInvisible c then escapeCode c
  else [c]

def quoted (text : String) : String :=
  String.ofList ('"' :: (text.toList.flatMap escape ++ ['"']))

end Bcm2835.Text
