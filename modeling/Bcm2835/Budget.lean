import Bcm2835.Program

/-! How long an operation may wait. Registers are polled in plain loops, so without a bound an
operation on dead hardware never returns; a bounded budget is shared by all the loops of one
operation and ends it with a timeout once it is used up. -/

namespace Bcm2835

inductive Budget where
  | unlimited
  /-- That many units of waiting are left. -/
  | bounded (left : Nat)
  deriving DecidableEq, Repr

namespace Budget

/-- Takes one unit; there is none to take from an empty budget. -/
def take? : Budget → Option Budget
  | unlimited => some unlimited
  | bounded 0 => none
  | bounded (n + 1) => some (bounded n)

def left? : Budget → Option Nat
  | unlimited => none
  | bounded n => some n

end Budget

variable {I : Interface} {α : Type}

/-- Charges every unit of waiting to a budget. The result is how the tree ended and what is left;
the first unit that cannot be paid ends it with a timeout. -/
def Tree.metered : Budget → Tree I α → Tree I (Except Error α × Budget)
  | b, halt (.ok a) => halt (.ok (.ok a, b))
  | b, halt (.error e) => halt (.ok (.error e, b))
  | _, halt (.fault f) => halt (.fault f)
  | _, halt .stalled => halt .stalled
  | b, tick next =>
    match b.take? with
    | some b => tick (next.metered b)
    | none => halt (.ok (.error .timeout, b))
  | b, report n next => report n (next.metered b)
  | b, request r next => request r fun a => (next a).metered b

namespace Program

def metered (b : Budget) (p : Program I α) : Program I (Except Error α × Budget) :=
  fun limit => (p limit).metered b

/-- A whole operation under one budget. -/
def within (b : Budget) (p : Program I α) : Program I α := do
  let (result, _) ← p.metered b
  ofExcept result

end Program

end Bcm2835
