import Bcm2835.CommandLine.Values

/-! The grammar of the command line. Each command takes options, values by position, and perhaps
one of several commands below it. Arguments are taken from left to right; an option may wait for
its value in the next argument, and that value is looked at only when something else begins. -/

namespace Bcm2835.CommandLine

/-- The commands, by their way down from the program itself. -/
inductive CommandName where
  | program
  | info
  | blink
  | clock
  | clockGet
  | clockMeasured
  | clockSet
  | spisl
  deriving DecidableEq, Repr

inductive ParameterName where
  | device
  | ranges
  | base
  | firmware
  | pin
  | period
  | count
  | clock
  | rate
  | version
  | help
  deriving DecidableEq, Repr

/-- A value as the command line spells it, read. -/
inductive Value where
  | path (text : String)
  | base (b : UInt32)
  | number (n : Nat)
  | clock (c : Clock)
  | present
  deriving DecidableEq, Repr

/-- Why the arguments do not make a command to run. -/
inductive Refusal where
  /-- The version was asked for, of the command of that name. -/
  | version (name : String)
  | help
  | invalidValue (text parameter reason : String)
  /-- Anything else that does not fit the grammar. -/
  | usage
  deriving DecidableEq, Repr

namespace ParameterName

/-- The name behind two dashes. -/
def long : ParameterName → Option String
  | device => some "mem"
  | ranges => some "ranges"
  | base => some "base"
  | firmware => some "firmware"
  | pin => some "pin"
  | period => some "period-ms"
  | count => some "count"
  | version => some "version"
  | help => some "help"
  | clock | rate => none

/-- The letter behind one dash. -/
def short : ParameterName → Option Char
  | pin => some 'p'
  | count => some 'c'
  | version => some 'V'
  | help => some 'h'
  | _ => none

def takesValue : ParameterName → Bool
  | firmware | version | help => false
  | _ => true

/-- How messages call the parameter. -/
def display : ParameterName → String
  | device => "--mem <MEM>"
  | ranges => "--ranges <RANGES>"
  | base => "--base <BASE>"
  | pin => "--pin <PIN>"
  | period => "--period-ms <PERIOD_MS>"
  | count => "--count <COUNT>"
  | clock => "<CLOCK>"
  | rate => "<RATE>"
  | firmware => "--firmware"
  | version => "--version"
  | help => "--help"

private def orInvalid (p : ParameterName) (text : String) :
    Except String Value → Except Refusal Value
  | .ok v => .ok v
  | .error reason => .error (.invalidValue text p.display reason)

/-- Reads a value. An empty path counts as no value at all. -/
def read (p : ParameterName) (text : String) : Except Refusal Value :=
  match p with
  | device | ranges => if text.isEmpty then .error .usage else .ok (.path text)
  | base => p.orInvalid text <|
    match readBase text with
    | .ok b => .ok (.base b)
    | .error e => .error e.message
  | pin => p.orInvalid text (Value.number <$> readBounded 255 text)
  | rate => p.orInvalid text (Value.number <$> readBounded 0xFFFFFFFF text)
  | period | count => p.orInvalid text (Value.number <$> readCount text)
  | clock => p.orInvalid text <|
    match readClock text with
    | .ok c => .ok (.clock c)
    | .error e => .error e.message
  | firmware | version | help => .ok .present

end ParameterName

namespace CommandName

/-- The name a command has in messages about versions. -/
def display : CommandName → String
  | program => "directhw"
  | info => "directhw-info"
  | blink => "directhw-blink"
  | clock => "directhw-clock"
  | clockGet => "directhw-clock-get"
  | clockMeasured => "directhw-clock-measured"
  | clockSet => "directhw-clock-set"
  | spisl => "directhw-spisl"

/-- Options that every command takes. -/
def commonOptions : List ParameterName := [.device, .ranges, .base, .version, .help]

def options : CommandName → List ParameterName
  | info => .firmware :: commonOptions
  | blink => .pin :: .period :: .count :: commonOptions
  | _ => commonOptions

/-- The values by position, all of which are required. -/
def positions : CommandName → List ParameterName
  | clockGet | clockMeasured => [.clock]
  | clockSet => [.clock, .rate]
  | _ => []

/-- The commands below, one of which is required if there are any. -/
def commands : CommandName → List (String × CommandName)
  | program => [("info", info), ("blink", blink), ("clock", clock), ("spisl", spisl)]
  | clock => [("get", clockGet), ("measured", clockMeasured), ("set", clockSet)]
  | _ => []

def command? (c : CommandName) (text : String) : Option CommandName :=
  (c.commands.find? fun e => e.1 == text).map (·.2)

def long? (c : CommandName) (text : String) : Option ParameterName :=
  c.options.find? fun p => p.long == some text

def short? (c : CommandName) (letter : Char) : Option ParameterName :=
  c.options.find? fun p => p.short == some letter

/-- Whether the words name a command on the way down from `c`. -/
def leadsDown (c : CommandName) : List String → Bool
  | [] => true
  | word :: words =>
    match c.command? word with
    | some below => below.leadsDown words
    | none => false

end CommandName

/-- The values given to one command. -/
abbrev Given : Type := List (ParameterName × Value)

/-- A command whose arguments are being taken. -/
structure Level where
  command : CommandName
  given : Given := []
  /-- A parameter with its value, or an option that waits for one. -/
  pending : Option (ParameterName × Option String) := none
  /-- Values by position taken so far. -/
  taken : Nat := 0
  /-- Two dashes by themselves were passed: the rest are values by position. -/
  escaped : Bool := false

namespace Level

/-- Keeps a value; no parameter is given twice. -/
def keep (l : Level) (p : ParameterName) (text : String) : Except Refusal Level :=
  if l.given.any fun g => g.1 == p then
    .error .usage
  else do
    return { l with given := (p, ← p.read text) :: l.given }

/-- Looks at the pending value. -/
def settle (l : Level) : Except Refusal Level :=
  match l.pending with
  | none => .ok l
  | some (_, none) => .error .usage
  | some (p, some text) => { l with pending := none }.keep p text

/-- An option without a value takes effect. -/
def flag (l : Level) (p : ParameterName) : Except Refusal Level := do
  let l ← l.settle
  match p with
  | .version => .error (.version l.command.display)
  | .help => .error .help
  | _ => l.keep p ""

/-- An option, with the value attached to it if there is one. -/
def option (l : Level) (p : ParameterName) (attached : Option String) : Except Refusal Level :=
  match p.takesValue, attached with
  | false, none => l.flag p
  | false, some _ => .error .usage
  | true, some text => do (← l.settle).keep p text
  | true, none => do return { ← l.settle with pending := some (p, none) }

/-- The letters behind one dash. The first that takes a value has the rest for it. -/
def letters (l : Level) : List Char → Except Refusal Level
  | [] => .ok l
  | letter :: rest =>
    match l.command.short? letter with
    | none => .error .usage
    | some p =>
      if p.takesValue then
        match rest with
        | [] => l.option p none
        | '=' :: text | text => l.option p (some (String.ofList text))
      else do
        (← l.option p none).letters rest

/-- The name and, behind an equals sign, the value that follow two dashes. -/
def long (l : Level) (text : List Char) : Except Refusal Level :=
  let name := String.ofList (text.takeWhile (· != '='))
  let attached :=
    match text.dropWhile (· != '=') with
    | [] => none
    | _ :: value => some (String.ofList value)
  match l.command.long? name with
  | none => .error .usage
  | some p => l.option p attached

/-- A value by position. -/
def position (l : Level) (text : String) : Except Refusal Level :=
  match l.command.positions[l.taken]? with
  | none => .error .usage
  | some p => do
    let l ← l.settle
    return { l with pending := some (p, some text), taken := l.taken + 1 }

/-- Whether an option waits for its value. -/
def isWaiting (l : Level) : Bool :=
  match l.pending with
  | some (_, none) => true
  | _ => false

/-- One argument that begins no command below. -/
def argument (l : Level) (text : String) : Except Refusal Level :=
  if l.escaped then
    l.position text
  else
    match text.toList with
    | ['-', '-'] => .ok { l with escaped := true }
    | '-' :: '-' :: name => l.long name
    | '-' :: c :: letters => l.letters (c :: letters)
    | _ =>
      match l.pending with
      | some (p, none) => .ok { l with pending := some (p, some text) }
      | _ => l.position text

/-- The values of a command whose arguments are all taken. -/
def finish (l : Level) : Except Refusal Given := do
  let l ← l.settle
  if l.command.positions.all fun p => l.given.any fun g => g.1 == p then
    return l.given
  else
    .error .usage

end Level

/-- Takes the arguments of a command and of the commands below it. The result names them from the
top down, with the values each was given. A value that still waits to be looked at when a command
below begins is looked at after that command. -/
def parse (l : Level) : List String → Except Refusal (List (CommandName × Given))
  | [] => do
    let given ← l.finish
    if l.command.commands.isEmpty then return [(l.command, given)] else .error .usage
  | text :: rest =>
    let below := if l.escaped || l.isWaiting then none else l.command.command? text
    match below with
    | some command => do
      let found ← parse { command } rest
      return (l.command, ← l.finish) :: found
    | none =>
      if !l.escaped && !l.isWaiting && !l.command.commands.isEmpty && text == "help" then
        .error (if l.command.leadsDown rest then .help else .usage)
      else do
        parse (← l.argument text) rest

end Bcm2835.CommandLine
