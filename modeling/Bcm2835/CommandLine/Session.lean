import Bcm2835.CommandLine.Commands
import Bcm2835.Simulation.MachineBench
import Bcm2835.Text.Lines
import Bcm2835.Text.Plain

/-! A whole run of the program on a simulated machine, from the arguments to the exit code. -/

namespace Bcm2835.CommandLine

open Simulation

/-- The version of the program. -/
def programVersion : String := "0.1.0"

/-- How a process ends: its exit code, what it prints, and what it complains about. -/
structure Ending where
  code : UInt8
  output : String := ""
  /-- Lines without their ends. -/
  complaint : List String := []
  deriving DecidableEq, Repr

/-- The ending of a process whose arguments were refused. Only the line on an invalid value is told
here; the texts on usage are not. -/
def Refusal.ending : Refusal → Ending
  | .version name => { code := 0, output := s!"{name} {programVersion}\n" }
  | .help => { code := 0 }
  | .invalidValue text parameter reason =>
    { code := 2
      complaint :=
        let message := s!"error: invalid value '{Text.plain text}' for '{parameter}': {reason}"
        (Text.lines (message ++ "\n")).take 1 }
  | .usage => { code := 2 }

/-- The ending of a process whose command has ended. -/
def Ending.ofOutcome (output : String) : Outcome (Except Failure Unit) → Option Ending
  | .ok (.ok ()) => some { code := 0, output }
  | .ok (.error f) => some { code := 1, output, complaint := f.lines }
  | .error e => some { code := 1, output, complaint := (Failure.ofError e).lines }
  | .fault f => some { code := 101, output, complaint := [f.message] }
  | .stalled => none

/-- A notice as it is shown, line by line; lines behind the first have a margin. -/
def noticeLines (n : Notice) : List String :=
  Text.lines (Text.plain (Text.hang 4 n.line ++ "\n"))

structure Session where
  ending : Ending
  notices : List Notice := []
  /-- The machine as it was left, if a command was run on it. -/
  machine : Option MachineBench := none

namespace Session

/-- Runs the program with these arguments. There is no session if the command still runs when one
of its loops has taken as many rounds as the limit says. -/
def run (limit : Nat) (m : MachineBench) (args : List String) : Option Session :=
  match Invocation.read args with
  | .error refusal => some { ending := refusal.ending }
  | .ok invocation => do
    let r := Program.run (ExceptT.run invocation.action) limit MachineBench.device m
    let ending ← Ending.ofOutcome r.state.output r.outcome
    return { ending, notices := r.notices, machine := some r.state }

/-- The notices that are shown. -/
def shown (s : Session) : List Notice :=
  s.notices.filter fun n => Level.info.rank ≤ n.level.rank

/-- The log: the first line of each notice. -/
def log (s : Session) : List String := s.shown.filterMap fun n => (noticeLines n).head?

/-- The further lines of notices, then the complaint of the process. -/
def complaints (s : Session) : List String :=
  s.shown.flatMap (fun n => (noticeLines n).tail) ++ s.ending.complaint

end Session

end Bcm2835.CommandLine
