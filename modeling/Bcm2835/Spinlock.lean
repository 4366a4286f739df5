/-! A lock that waits in a loop, and threads that use it to add to a shared counter. A thread moves
in atomic steps: the exchange that takes the lock, the load it waits with, the read and the write
of the counter, and the release. -/

namespace Bcm2835

structure Spinlock where
  held : Bool := false
  deriving DecidableEq, Repr

namespace Spinlock

/-- Takes the lock if it is free, in one step. -/
def tryLock (l : Spinlock) : Bool × Spinlock := if l.held then (false, l) else (true, ⟨true⟩)

def unlock (_ : Spinlock) : Spinlock := ⟨false⟩

/-- Takes the lock of a single thread. It never returns if the lock is held. -/
def lock? (l : Spinlock) : Option Spinlock :=
  match l.tryLock with
  | (true, l) => some l
  | (false, _) => none

/-- What a thread does next. -/
inductive Phase where
  /-- It tries the exchange. -/
  | acquiring
  /-- The exchange failed; it loads the flag until that is clear. -/
  | waiting
  | reading
  | writing (seen : UInt32)
  | releasing
  deriving DecidableEq, Repr

structure Thread where
  phase : Phase := .acquiring
  /-- What it has yet to add to the counter. -/
  addends : List UInt32
  deriving DecidableEq, Repr

/-- A counter behind a lock, and its threads. -/
structure Shared where
  lock : Spinlock := {}
  counter : UInt32
  threads : List Thread
  deriving DecidableEq, Repr

/-- One atomic step of a thread. A thread without addends takes the lock no more. -/
def Thread.step (t : Thread) (lock : Spinlock) (counter : UInt32) : Thread × Spinlock × UInt32 :=
  match t.phase, t.addends with
  | .acquiring, [] => (t, lock, counter)
  | .acquiring, _ :: _ =>
    match lock.tryLock with
    | (true, lock) => ({ t with phase := .reading }, lock, counter)
    | (false, lock) => ({ t with phase := .waiting }, lock, counter)
  | .waiting, _ => (if lock.held then t else { t with phase := .acquiring }, lock, counter)
  | .reading, _ => ({ t with phase := .writing counter }, lock, counter)
  | .writing seen, addends =>
    ({ t with phase := .releasing }, lock, seen + addends.headD 0)
  | .releasing, addends => (⟨.acquiring, addends.tail⟩, lock.unlock, counter)

namespace Shared

/-- A step of the thread at a position; there is none at a position without a thread. -/
def step (s : Shared) (i : Nat) : Shared :=
  match s.threads[i]? with
  | none => s
  | some t =>
    let (t, lock, counter) := t.step s.lock s.counter
    ⟨lock, counter, s.threads.set i t⟩

/-- Steps in the order of a schedule. -/
def run (s : Shared) (schedule : List Nat) : Shared := schedule.foldl step s

/-- A schedule that finishes the threads one after the other: each addend takes four steps. -/
def sequential (s : Shared) : List Nat :=
  s.threads.zipIdx.flatMap fun (t, i) => List.replicate (4 * t.addends.length) i

end Shared

end Spinlock

end Bcm2835
