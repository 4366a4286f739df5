import Mathlib.Algebra.GroupWithZero.Nat
import Mathlib.Order.Monotone.Basic
import Mathlib.Order.Nat
import Bcm2835.Proofs.Behaviour
import Bcm2835.SystemTimer

/-! The counter behind the words of the system timer. It never goes back, and it may stand anywhere
when a register is read, so any amount of time may pass between two reads. The low word says how far
it has come modulo `2 ^ 32` (`Counter.toNat_low_sub`); both words of one moment say where it is
(`toNat_join`). -/

namespace Bcm2835

/-- A program that begins with a look at a register goes on behind it with the word it saw. -/
theorem Register.record_get {α : Type} {hw : Behaviour Board} {r : Register} {word : UInt32}
    {f : UInt32 → Driver α} {limit : Nat} {past : List (Access Board)}
    (h : hw past (Board.Request.read r.offset) = word) :
    ((r.get >>= f) limit).record hw past =
      ((f word limit).record hw (past ++ [⟨Board.Request.read r.offset, word⟩])).after
        (.access ⟨Board.Request.read r.offset, word⟩) := by
  subst h
  rfl

namespace SystemTimer

/-- Where the counter stands at each access to the board. -/
structure Counter where
  ticks : Nat → Nat
  mono : Monotone ticks

namespace Counter

def low (c : Counter) (n : Nat) : UInt32 := UInt32.ofNat (c.ticks n)

def high (c : Counter) (n : Nat) : UInt32 := UInt32.ofNat (c.ticks n / 2 ^ 32)

/-- The low register shows the counter. -/
def OnLow (c : Counter) (hw : Behaviour Board) : Prop :=
  ∀ past, (hw past (.read StBlock.clo.offset) : UInt32) = c.low past.length

/-- The high register shows the counter. -/
def OnHigh (c : Counter) (hw : Behaviour Board) : Prop :=
  ∀ past, (hw past (.read StBlock.chi.offset) : UInt32) = c.high past.length

/-- A look at the low word, as the access with this number. -/
def lowAt (c : Counter) (n : Nat) : Access Board := ⟨.read StBlock.clo.offset, c.low n⟩

def highAt (c : Counter) (n : Nat) : Access Board := ⟨.read StBlock.chi.offset, c.high n⟩

/-- A board that shows the counter and nothing else. -/
def board (c : Counter) : Behaviour Board := fun past r =>
  match r with
  | .read offset =>
    if offset = StBlock.clo.offset then c.low past.length
    else if offset = StBlock.chi.offset then c.high past.length
    else (0 : UInt32)
  | .write .. => ()
  | .locate => (0 : Nat)
  | .post .. => ()
  | .collect size => Vector.replicate size (0 : UInt32)
  | .pause _ => ()

theorem onLow_board (c : Counter) : c.OnLow c.board := fun _ => rfl

theorem onHigh_board (c : Counter) : c.OnHigh c.board := fun _ => rfl

variable {c : Counter} {k m n : Nat}

theorem toNat_low (c : Counter) (n : Nat) : (c.low n).toNat = c.ticks n % 2 ^ 32 :=
  UInt32.toNat_ofNat'

theorem toNat_high (h : c.ticks n < 2 ^ 64) : (c.high n).toNat = c.ticks n / 2 ^ 32 :=
  UInt32.toNat_ofNat_of_lt' (Nat.div_lt_of_lt_mul h)

/-- The words say how far the counter has come, up to whole turns. -/
theorem toNat_low_sub (h : k ≤ m) :
    (c.low m - c.low k).toNat = (c.ticks m - c.ticks k) % 2 ^ 32 := by
  have hle : c.ticks k ≤ c.ticks m := c.mono h
  rw [UInt32.toNat_sub, toNat_low, toNat_low]
  omega

end Counter

/-- Two words put together. -/
theorem toNat_join (high low : UInt32) :
    (high.toUInt64 <<< 32 ||| low.toUInt64).toNat = high.toNat * 2 ^ 32 + low.toNat := by
  have hhigh : high.toNat <<< 32 < 2 ^ 64 := by
    rw [Nat.shiftLeft_eq]
    have := high.toNat_lt
    omega
  rw [UInt64.toNat_or, UInt64.toNat_shiftLeft, UInt32.toNat_toUInt64, UInt32.toNat_toUInt64]
  rw [show (32 : UInt64).toNat % 64 = 32 from rfl, Nat.mod_eq_of_lt hhigh,
    ← Nat.shiftLeft_add_eq_or_of_lt low.toNat_lt, Nat.shiftLeft_eq]

end SystemTimer

end Bcm2835
