/-! Lines of a text. -/

namespace Bcm2835.Text

/-- A line without the carriage return at its end. -/
def trimReturn (line : List Char) : List Char :=
  if line.getLast? = some '\r' then line.dropLast else line

/-- The lines of the text that is `line` backwards and then the given characters. -/
def linesFrom (line : List Char) : List Char → List (List Char)
  | [] => if line.isEmpty then [] else [line.reverse]
  | '\n' :: cs => trimReturn line.reverse :: linesFrom [] cs
  | c :: cs => linesFrom (c :: line) cs

/-- The lines of a text. Each ends with a line feed, which may follow a carriage return; the last
one may also end with the text. -/
def lines (text : String) : List String := (linesFrom [] text.toList).map String.ofList

/-- Puts a margin of blanks before every line but the first. -/
def hang (width : Nat) (text : String) : String :=
  String.ofList <| text.toList.flatMap fun c =>
    if c = '\n' then c :: List.replicate width ' ' else [c]

end Bcm2835.Text
