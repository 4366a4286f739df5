import Bcm2835.Notice

/-! Programs that talk to hardware. A program is the tree of everything it may do: each request it
makes branches over all answers, so one definition is run against a simulated board, mapped onto
another interface, or reasoned about for every behaviour the hardware may show.

Waiting has no bound of its own. A program is therefore a family of trees, one for each limit on
the rounds a single loop may take; a loop that reaches the limit leaves the run `stalled`, and a
larger limit only follows it further. -/

namespace Bcm2835

/-- The requests some hardware takes, and the type of the answer to each. -/
structure Interface where
  Request : Type
  Answer : Request → Type

inductive Tree (I : Interface) (α : Type) where
  | halt (o : Outcome α)
  /-- One unit of waiting, to be charged to a budget. -/
  | tick (next : Tree I α)
  | report (n : Notice) (next : Tree I α)
  | request (r : I.Request) (next : I.Answer r → Tree I α)

namespace Tree

variable {I J : Interface} {α β γ σ : Type}

def bind : Tree I α → (α → Tree I β) → Tree I β
  | halt (.ok a), f => f a
  | halt (.error e), _ => halt (.error e)
  | halt (.fault x), _ => halt (.fault x)
  | halt .stalled, _ => halt .stalled
  | tick next, f => tick (next.bind f)
  | report n next, f => report n (next.bind f)
  | request r next, f => request r fun a => (next a).bind f

@[simp] theorem bind_ok (a : α) (f : α → Tree I β) : bind (halt (.ok a)) f = f a := rfl

theorem bind_halt_ok (t : Tree I α) : t.bind (fun a => halt (.ok a)) = t := by
  induction t with
  | halt o => cases o <;> rfl
  | tick next ih => simp [bind, ih]
  | report n next ih => simp [bind, ih]
  | request r next ih => simp [bind, ih]

theorem bind_assoc (t : Tree I α) (f : α → Tree I β) (g : β → Tree I γ) :
    (t.bind f).bind g = t.bind fun a => (f a).bind g := by
  induction t with
  | halt o => cases o <;> rfl
  | tick next ih => simp [bind, ih]
  | report n next ih => simp [bind, ih]
  | request r next ih => simp [bind, ih]

/-- Turns an error into a value. Faults and stalls pass through. -/
def attempt : Tree I α → Tree I (Except Error α)
  | halt (.ok a) => halt (.ok (.ok a))
  | halt (.error e) => halt (.ok (.error e))
  | halt (.fault x) => halt (.fault x)
  | halt .stalled => halt .stalled
  | tick next => tick next.attempt
  | report n next => report n next.attempt
  | request r next => request r fun a => (next a).attempt

/-- Carries out every request by a program on another interface. -/
def lower (f : (r : I.Request) → Tree J (I.Answer r)) : Tree I α → Tree J α
  | halt o => halt o
  | tick next => tick (next.lower f)
  | report n next => report n (next.lower f)
  | request r next => (f r).bind fun a => (next a).lower f

end Tree

/-- Whether a loop takes another round. -/
inductive Step (σ α : Type) where
  | again (s : σ)
  | done (a : α)

/-- Rounds of `step` up to the limit. -/
def Tree.rounds {I : Interface} {σ α : Type} (step : σ → Tree I (Step σ α)) : Nat → σ → Tree I α
  | 0, _ => .halt .stalled
  | n + 1, s => (step s).bind fun
    | .again s => rounds step n s
    | .done a => .halt (.ok a)

/-- A program over an interface: for each limit on the rounds of a loop, its tree. -/
def Program (I : Interface) (α : Type) : Type := Nat → Tree I α

namespace Program

variable {I J : Interface} {α β σ : Type}

instance : Monad (Program I) where
  pure a := fun _ => .halt (.ok a)
  bind p f := fun limit => (p limit).bind fun a => f a limit

instance : LawfulMonad (Program I) := LawfulMonad.mk' _
  (fun p => funext fun limit => Tree.bind_halt_ok (p limit))
  (fun _ _ => rfl)
  (fun p _ _ => funext fun limit => Tree.bind_assoc (p limit) _ _)

def request (r : I.Request) : Program I (I.Answer r) := fun _ => .request r fun a => .halt (.ok a)

def tick : Program I Unit := fun _ => .tick (.halt (.ok ()))

def report (n : Notice) : Program I Unit := fun _ => .report n (.halt (.ok ()))

def raise (e : Error) : Program I α := fun _ => .halt (.error e)

def ofExcept : Except Error α → Program I α
  | .ok a => pure a
  | .error e => raise e

def ofFaulty : Except Fault α → Program I α
  | .ok a => pure a
  | .error f => fun _ => .halt (.fault f)

def ofOutcome (o : Outcome α) : Program I α := fun _ => .halt o

def attempt (p : Program I α) : Program I (Except Error α) := fun limit => (p limit).attempt

/-- Hands on what `wrap` makes of an error. Faults and stalls pass through. -/
def wrapping {ε : Type} (wrap : Error → ε) (p : Program I α) : Program I (Except ε α) := do
  match ← p.attempt with
  | .ok a => return .ok a
  | .error e => return .error (wrap e)

def lower (f : (r : I.Request) → Program J (I.Answer r)) (p : Program I α) : Program J α :=
  fun limit => (p limit).lower fun r => f r limit

/-- Repeats `step` until it is done. -/
def loop (step : σ → Program I (Step σ α)) (s : σ) : Program I α :=
  fun limit => Tree.rounds (fun s => step s limit) limit s

/-- Asks until the answer is yes; every no is one unit of waiting. -/
def waitUntil (ready : Program I Bool) : Program I Unit :=
  loop (fun _ => do
    if ← ready then return .done ()
    tick
    return .again ()) ()

/-- Throws away what is there as long as there is something, one unit of waiting for each. -/
def drain (ready : Program I Bool) (discard : Program I Unit) : Program I Unit :=
  loop (fun _ => do
    if ← ready then
      discard
      tick
      return .again ()
    return .done ()) ()

end Program

end Bcm2835
