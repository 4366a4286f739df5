import Bcm2835.Proofs.Mailbox.Call
import Bcm2835.SpiSlave.Setup
import Bcm2835.Spi0
import Bcm2835.Uart0
import Bcm2835.Uart1

/-! A bounded budget changes nothing about an operation but where it ends. On the same hardware, the
bounded and the unbounded run are the same run as long as the units of waiting last; the first unit
too many is where the bounded run ends, and what went before it is what went before it in the
unbounded run. An operation that is a program `within` its budget is of this kind, whatever the
program is (`Truncates.within`). -/

namespace Bcm2835

variable {I : Interface} {α : Type}

/-- The budget of an operation only cuts its runs short, on hardware of any behaviour. -/
structure Truncates (op : Budget → Program I α) : Prop where
  /-- No unit is taken from an empty budget. -/
  affordable : ∀ hw limit n, ((op (.bounded n)).record hw limit).ticks ≤ n
  /-- While the units last the two runs are one. -/
  same : ∀ hw limit n, ((op .unlimited).record hw limit).ticks ≤ n →
    (op (.bounded n)).record hw limit = (op .unlimited).record hw limit
  /-- The bounded run ends at the first unit too many, and differs in nothing up to there. -/
  cut : ∀ hw limit n, n < ((op .unlimited).record hw limit).ticks →
    ∃ U V : Transcript I, ((op .unlimited).record hw limit).transcript = U ++ .tick :: V ∧
      U.ticks = n ∧ (op (.bounded n)).record hw limit = ⟨U, .error .timeout⟩
  /-- A success does not depend on the budget that sufficed for it. -/
  stable : ∀ hw limit n a, ((op (.bounded n)).record hw limit).outcome = .ok a →
    (op .unlimited).record hw limit = (op (.bounded n)).record hw limit ∧
      ∀ m, n ≤ m → (op (.bounded m)).record hw limit = (op (.bounded n)).record hw limit

namespace Truncates

theorem within (p : Program I α) : Truncates fun budget => p.within budget := by
  have same hw limit n (h : (p.record hw limit).ticks ≤ n) :
      (p.within (.bounded n)).record hw limit = p.record hw limit :=
    Program.record_within_of_le h
  have cut hw limit n (h : n < (p.record hw limit).ticks) : ∃ U V : Transcript I,
      (p.record hw limit).transcript = U ++ .tick :: V ∧ U.ticks = n ∧
        (p.within (.bounded n)).record hw limit = ⟨U, .error .timeout⟩ :=
    Program.record_within_of_lt h
  have free hw limit : (p.within .unlimited).record hw limit = p.record hw limit :=
    Program.record_within_unlimited
  refine ⟨?_, fun hw limit => free hw limit ▸ same hw limit,
    fun hw limit => free hw limit ▸ cut hw limit, ?_⟩
  · intro hw limit n
    rcases Nat.lt_or_ge n (p.record hw limit).ticks with h | h
    · obtain ⟨U, V, -, hU, hb⟩ := cut hw limit n h
      rw [hb]
      exact Nat.le_of_eq hU
    · rw [same hw limit n h]
      exact h
  · intro hw limit n a ha
    rcases Nat.lt_or_ge n (p.record hw limit).ticks with h | h
    · obtain ⟨U, V, -, -, hb⟩ := cut hw limit n h
      rw [hb] at ha
      cases ha
    · refine ⟨(free hw limit).trans (same hw limit n h).symm, fun m hm => ?_⟩
      rw [same hw limit n h, same hw limit m (Nat.le_trans h hm)]

end Truncates

/-- The operations that have one counter for all their waiting. -/
inductive OneCounter : {I : Interface} → {α : Type} → (Budget → Program I α) → Prop
  | send (channel : Channel) (addr : UInt32) :
    OneCounter fun budget => Mailbox.send budget channel addr
  | receive : OneCounter Mailbox.receive
  | call (channel : Channel) (addr : UInt32) :
    OneCounter fun budget => Mailbox.call budget channel addr
  | readSlave : OneCounter SpiSlave.read
  | writeSlave (byte : UInt8) : OneCounter fun budget => SpiSlave.write budget byte
  | flushSlave : OneCounter SpiSlave.flush
  | synchronize : OneCounter SpiSlave.synchronize
  | initSlave (pause : UInt32 → Driver Unit) : OneCounter fun budget => SpiSlave.init budget pause
  | configureUart0 (bitrate : UInt32) : OneCounter fun budget => Uart0.configure budget bitrate
  | readUart0 : OneCounter Uart0.read
  | writeUart0 (byte : UInt8) : OneCounter fun budget => Uart0.write budget byte
  | flushUart0 : OneCounter Uart0.flush
  | initUart1 (bitrate : UInt32) : OneCounter fun budget => Uart1.init budget bitrate
  | readUart1 : OneCounter Uart1.read
  | writeUart1 (byte : UInt8) : OneCounter fun budget => Uart1.write budget byte
  | flushUart1 : OneCounter Uart1.flush
  | readSpi0 : OneCounter Spi0.read
  | writeSpi0 (byte : UInt8) : OneCounter fun budget => Spi0.write budget byte
  | flushSpi0 : OneCounter Spi0.flush
  | stopSpi0 : OneCounter Spi0.stop

/-- Each of them is a program within its budget. -/
theorem OneCounter.exists_within {op : Budget → Program I α} (h : OneCounter op) :
    ∃ p : Program I α, op = fun budget => p.within budget := by
  cases h <;> exact ⟨_, rfl⟩

/-- Every operation that has one budget for all its waiting is only cut short by it. -/
theorem budgets_truncate {op : Budget → Program I α} (h : OneCounter op) : Truncates op := by
  obtain ⟨p, rfl⟩ := h.exists_within
  exact .within p

/-- A call that waits for room, for a word, and for another word than that, with enough budget for
all of it and for the first two only. -/
theorem budgets_truncate_call :
    ((Mailbox.call .unlimited .property 0x10).record Mailbox.busyPort 4).ticks = 3 ∧
    (Mailbox.call (.bounded 3) .property 0x10).record Mailbox.busyPort 4 =
      (Mailbox.call .unlimited .property 0x10).record Mailbox.busyPort 4 ∧
    ∃ U V : Transcript MailboxPort,
      ((Mailbox.call .unlimited .property 0x10).record Mailbox.busyPort 4).transcript =
        U ++ .tick :: V ∧ U.ticks = 2 ∧
      (Mailbox.call (.bounded 2) .property 0x10).record Mailbox.busyPort 4 =
        ⟨U, .error .timeout⟩ := by
  have hcall := budgets_truncate (.call .property 0x10)
  have hticks : ((Mailbox.call .unlimited .property 0x10).record Mailbox.busyPort 4).ticks = 3 := by
    decide
  exact ⟨hticks, hcall.same _ _ 3 (Nat.le_of_eq hticks),
    hcall.cut _ _ 2 (hticks ▸ Nat.lt_succ_self 2)⟩

end Bcm2835
