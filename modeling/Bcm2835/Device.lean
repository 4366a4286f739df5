import Bcm2835.Program

/-! Running a program against hardware that answers from a state of its own. -/

namespace Bcm2835

/-- Hardware with state `σ`. It may refuse to answer any further, which stalls the run. -/
structure Device (I : Interface) (σ : Type) where
  respond : (r : I.Request) → σ → Option (I.Answer r × σ)

/-- A finished run: how it ended, what it left, and the notices in order. -/
structure Run (σ α : Type) where
  outcome : Outcome α
  state : σ
  notices : List Notice

namespace Tree

variable {I : Interface} {α σ : Type}

/-- Follows the one branch that the device's answers select. Notices are gathered newest first. -/
def runFrom (d : Device I σ) : Tree I α → σ → List Notice → Run σ α
  | halt o, s, seen => ⟨o, s, seen.reverse⟩
  | tick next, s, seen => next.runFrom d s seen
  | report n next, s, seen => next.runFrom d s (n :: seen)
  | request r next, s, seen =>
    match d.respond r s with
    | some (a, s) => (next a).runFrom d s seen
    | none => ⟨.stalled, s, seen.reverse⟩

end Tree

/-- Runs a program with a limit on the rounds of each of its loops. -/
def Program.run {I : Interface} {α σ : Type} (p : Program I α) (limit : Nat) (d : Device I σ)
    (s : σ) : Run σ α :=
  (p limit).runFrom d s []

end Bcm2835
