import Bcm2835.Device

/-! Something to wait for that is ready from a certain poll on. -/

namespace Bcm2835.Simulation

namespace Poll

inductive Request where
  | ready
  deriving DecidableEq, Repr

def Answer : Request → Type
  | .ready => Bool

end Poll

abbrev Poll : Interface := ⟨Poll.Request, Poll.Answer⟩

def Poll.ready : Program Poll Bool := Program.request (I := Poll) .ready

structure PollBench where
  /-- The number of the first poll that finds it ready. -/
  readyAt : Nat
  polls : Nat := 0
  deriving DecidableEq, Repr

namespace PollBench

def respond : (r : Poll.Request) → PollBench → Poll.Answer r × PollBench
  | .ready, b =>
    let polls := b.polls + 1
    (decide (b.readyAt ≤ polls), { b with polls })

def device : Device Poll PollBench := ⟨fun r b => some (respond r b)⟩

end PollBench

end Bcm2835.Simulation
