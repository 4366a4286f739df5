import Mathlib.Data.Finset.Lattice.Fold
import Mathlib.Logic.Function.Basic
import Bcm2835.Proofs.Mailbox.Station

/-! The clocks of a firmware as a map from clock numbers to states. Each operation on clocks changes
the map, answers from it and posts as many messages as `Operation` says (`completes_operation`); a
session does so operation by operation (`session_refines_map`), in any traffic. -/

namespace Bcm2835

open Program Transcript Simulation

theorem Clock.number_injective {c c' : Clock} (h : c.number = c'.number) : c = c' := by
  have hc := Clock.ofNumber?_number c
  rw [h, Clock.ofNumber?_number] at hc
  exact (Option.some.inj hc).symm

/-! ## The bank of clocks -/

namespace Simulation.ClockBank

variable (revisionWord : UInt32) (clocks : ClockBank) (clock v : UInt32) (rest : List UInt32)

theorem get_put (s : ClockState) :
    (clocks.put clock s).get = Function.update clocks.get clock s := by
  funext other
  by_cases h : other = clock
  · rw [h, get_put_self, Function.update_self]
  · rw [get_put_of_ne _ _ (Ne.symm h), Function.update_of_ne h]

theorem handler_firmwareRevision :
    handler revisionWord clocks Tag.firmwareRevision.id rest = (clocks, [revisionWord]) := rfl

theorem handler_clockState :
    handler revisionWord clocks Tag.clockState.id (clock :: rest) =
      (clocks, [clock, (clocks.get clock).state]) := rfl

theorem handler_clockRate :
    handler revisionWord clocks Tag.clockRate.id (clock :: rest) =
      (clocks, [clock, (clocks.get clock).rate]) := rfl

theorem handler_clockRateMeasured :
    handler revisionWord clocks Tag.clockRateMeasured.id (clock :: rest) =
      (clocks, [clock, (clocks.get clock).measured]) := rfl

theorem handler_setClockState :
    handler revisionWord clocks Tag.setClockState.id (clock :: v :: rest) =
      (clocks.put clock { clocks.get clock with state := v &&& 1 }, [clock, v &&& 1]) := rfl

theorem handler_setClockRate :
    handler revisionWord clocks Tag.setClockRate.id (clock :: v :: rest) =
      (clocks.put clock { clocks.get clock with rate := v, measured := v }, [clock, v]) := rfl

end Simulation.ClockBank

namespace Mailbox

open MailboxPort Station

/-! ## Operations -/

/-- Clocks by number. -/
abbrev ClockMap : Type := UInt32 → ClockState

inductive Operation where
  | setRate (clock : Clock) (hz : UInt32)
  | rate (clock : Clock)
  | measuredRate (clock : Clock)
  | revision
  deriving DecidableEq, Repr

namespace Operation

/-- The operation without a bound on its waiting. Setting a rate has no answer. -/
def program : Operation → Program MailboxPort (Option UInt32)
  | .setRate clock hz => do
    setClockRate .unlimited clock hz
    return none
  | .rate clock => return some (← clockRate .unlimited clock)
  | .measuredRate clock => return some (← measuredClockRate .unlimited clock)
  | .revision => return some (← firmwareRevision .unlimited)

/-- A clock whose rate is set runs at that rate. -/
def effect (m : ClockMap) : Operation → ClockMap
  | .setRate clock hz => Function.update m clock.number ⟨1, hz, hz⟩
  | .rate _ | .measuredRate _ | .revision => m

/-- Bit 0 of the state of a clock says whether it runs. -/
def running (m : ClockMap) (clock : Clock) : Bool :=
  ClockStateWord.on.isSet (m clock.number).state

def answer (revisionWord : UInt32) (m : ClockMap) : Operation → Option UInt32
  | .setRate .. => none
  | .rate clock => some (if running m clock then (m clock.number).rate else 0)
  | .measuredRate clock => some (m clock.number).measured
  | .revision => some revisionWord

/-- How many messages are posted. -/
def messages (m : ClockMap) : Operation → Nat
  | .setRate .. => 2
  | .rate clock => if running m clock then 2 else 1
  | .measuredRate _ | .revision => 1

end Operation

/-- A firmware with clocks. -/
abbrev clockDevice (revisionWord : UInt32) (traffic : Nat → Traffic) (code : Nat → UInt32) :
    Device MailboxPort (Station ClockBank) := device (ClockBank.handler revisionWord) traffic code

variable {traffic : Nat → Traffic} {limit : Nat} (revisionWord : UInt32) (code : Nat → UInt32)
  (clocks : ClockBank) (memory : List UInt32) (n : Nat)

theorem completes_setClockRate (clock : Clock) (hz : UInt32)
    (hl : ∀ i < n + 2, (traffic i).cost < limit) :
    ∃ clocks' memory', (setClockRate .unlimited clock hz).Completes
        (clockDevice revisionWord traffic code) limit (ready ⟨clocks, memory⟩ n) ()
        (ready ⟨clocks', memory'⟩ (n + 2)) ∧
      clocks'.get = Function.update clocks.get clock.number ⟨1, hz, hz⟩ := by
  have hstate := clocks.handler_setClockState revisionWord clock.number 1 []
  obtain ⟨left, memory₁, hswitched, -⟩ := completes_query code memory
    (.new { data := [clock.number, 1] }) hstate (show 2 < 2 ^ 30 by decide) (hl n (by omega))
  let switched := clocks.put clock.number { clocks.get clock.number with state := 1 }
  have hrate := switched.handler_setClockRate revisionWord clock.number hz [0]
  obtain ⟨left', memory₂, hset, -⟩ := completes_query code memory₁
    (.new { data := [clock.number, hz, 0] }) hrate (show 3 < 2 ^ 30 by decide)
    (hl (n + 1) (by omega))
  refine ⟨_, memory₂, hswitched.bind (hset.bind (completes_pure ())), ?_⟩
  rw [ClockBank.get_put, ClockBank.get_put, Function.update_idem, Function.update_self]

theorem completes_measuredClockRate (clock : Clock) (hl : ∀ i < n + 1, (traffic i).cost < limit) :
    ∃ memory', (measuredClockRate .unlimited clock).Completes
      (clockDevice revisionWord traffic code) limit (ready ⟨clocks, memory⟩ n)
      (clocks.get clock.number).measured (ready ⟨clocks, memory'⟩ (n + 1)) := by
  have hmeasured := clocks.handler_clockRateMeasured revisionWord clock.number [0]
  exact completes_value code memory (.new { data := [clock.number, 0] }) 1 hmeasured
    (show 2 < 2 ^ 30 by decide) (hl n (by omega))

theorem completes_firmwareRevision (hl : ∀ i < n + 1, (traffic i).cost < limit) :
    ∃ memory', (firmwareRevision .unlimited).Completes
      (clockDevice revisionWord traffic code) limit (ready ⟨clocks, memory⟩ n)
      revisionWord (ready ⟨clocks, memory'⟩ (n + 1)) := by
  have hrevision := clocks.handler_firmwareRevision revisionWord [0]
  exact completes_value code memory (.new { data := [0] }) 0 hrevision
    (show 1 < 2 ^ 30 by decide) (hl n (by omega))

theorem completes_clockRate (clock : Clock) (hl : ∀ i < n + 2, (traffic i).cost < limit) :
    ∃ memory', (clockRate .unlimited clock).Completes
      (clockDevice revisionWord traffic code) limit (ready ⟨clocks, memory⟩ n)
      (if Operation.running clocks.get clock then (clocks.get clock.number).rate else 0)
      (ready ⟨clocks, memory'⟩ (n + (Operation.rate clock).messages clocks.get)) := by
  have hstate := clocks.handler_clockState revisionWord clock.number [0]
  obtain ⟨left, memory₁, hasked, hleft⟩ := completes_query code memory
    (.new { data := [clock.number, 0] }) hstate (show 2 < 2 ^ 30 by decide) (hl n (by omega))
  have hrunning : ClockStateWord.on.isSet (value left 1) = Operation.running clocks.get clock := by
    rw [value, hleft]
    rfl
  rw [Operation.messages]
  by_cases h : Operation.running clocks.get clock
  · have hrate := clocks.handler_clockRate revisionWord clock.number [0]
    obtain ⟨memory₂, hread⟩ := completes_value code memory₁
      { left with body := { left.body with data := [clock.number, 0] } } 1 hrate
      (show 2 < 2 ^ 30 by decide) (hl (n + 1) (by omega))
    refine ⟨memory₂, hasked.bind ?_⟩
    rw [hrunning, if_pos h, if_pos h, if_pos h]
    exact hread
  · refine ⟨memory₁, hasked.bind ?_⟩
    rw [hrunning, if_neg h, if_neg h, if_neg h]
    exact completes_pure 0

/-- An operation answers from the map and changes it. -/
theorem completes_operation (op : Operation) (hl : ∀ i < n + 2, (traffic i).cost < limit) :
    ∃ clocks' memory', op.program.Completes (clockDevice revisionWord traffic code) limit
        (ready ⟨clocks, memory⟩ n) (op.answer revisionWord clocks.get)
        (ready ⟨clocks', memory'⟩ (n + op.messages clocks.get)) ∧
      clocks'.get = op.effect clocks.get := by
  have hl' : ∀ i < n + 1, (traffic i).cost < limit := fun i hi => hl i (by omega)
  cases op with
  | setRate clock hz =>
    obtain ⟨clocks', memory', hset, hget⟩ :=
      completes_setClockRate revisionWord code clocks memory n clock hz hl
    exact ⟨clocks', memory', hset.bind (completes_pure _), hget⟩
  | rate clock =>
    obtain ⟨memory', hread⟩ := completes_clockRate revisionWord code clocks memory n clock hl
    exact ⟨clocks, memory', hread.bind (completes_pure _), rfl⟩
  | measuredRate clock =>
    obtain ⟨memory', hread⟩ :=
      completes_measuredClockRate revisionWord code clocks memory n clock hl'
    exact ⟨clocks, memory', hread.bind (completes_pure _), rfl⟩
  | revision =>
    obtain ⟨memory', hread⟩ := completes_firmwareRevision revisionWord code clocks memory n hl'
    exact ⟨clocks, memory', hread.bind (completes_pure _), rfl⟩

/-! ## Sessions -/

/-- What operations in a row answer from a map. -/
def answers (revisionWord : UInt32) : ClockMap → List Operation → List (Option UInt32)
  | _, [] => []
  | m, op :: ops => op.answer revisionWord m :: answers revisionWord (op.effect m) ops

def messages : ClockMap → List Operation → Nat
  | _, [] => 0
  | m, op :: ops => op.messages m + messages (op.effect m) ops

/-- The rate that an operation sets for a clock. -/
def Operation.rateFor (clock : Clock) : Operation → Option UInt32
  | .setRate clock' hz => if clock' = clock then some hz else none
  | .rate _ | .measuredRate _ | .revision => none

/-- The rate that was last set for a clock. -/
def lastRate (clock : Clock) (ops : List Operation) : Option UInt32 :=
  ops.reverse.findSome? (Operation.rateFor clock)

theorem Operation.messages_le (m : ClockMap) (op : Operation) : op.messages m ≤ 2 := by
  cases op with
  | setRate clock hz => exact Nat.le_refl _
  | rate clock =>
    rw [messages]
    split <;> decide
  | measuredRate clock | revision => exact Nat.le_succ 1

theorem completes_session (ops : List Operation)
    (hl : ∀ i < n + 2 * ops.length, (traffic i).cost < limit) :
    ∃ clocks' memory', (ops.mapM Operation.program).Completes
        (clockDevice revisionWord traffic code) limit (ready ⟨clocks, memory⟩ n)
        (answers revisionWord clocks.get ops)
        (ready ⟨clocks', memory'⟩ (n + messages clocks.get ops)) ∧
      clocks'.get = ops.foldl Operation.effect clocks.get := by
  induction ops generalizing clocks memory n with
  | nil => exact ⟨clocks, memory, completes_pure [], rfl⟩
  | cons op ops ih =>
    rw [List.length_cons] at hl
    have hle := op.messages_le clocks.get
    obtain ⟨clocks₁, memory₁, hop, hget⟩ :=
      completes_operation revisionWord code clocks memory n op fun i hi => hl i (by omega)
    obtain ⟨clocks₂, memory₂, hops, hget'⟩ := ih clocks₁ memory₁ (n + op.messages clocks.get)
      fun i hi => hl i (by omega)
    rw [hget] at hops hget'
    refine ⟨clocks₂, memory₂, ?_, hget'⟩
    rw [List.mapM_cons, messages, ← Nat.add_assoc]
    exact hop.bind (hops.bind (completes_pure (_ :: _)))

theorem lastRate_concat (clock : Clock) (ops : List Operation) (op : Operation) :
    lastRate clock (ops ++ [op]) = (op.rateFor clock).or (lastRate clock ops) := by
  rw [lastRate, List.reverse_append, List.reverse_singleton, List.singleton_append,
    List.findSome?_cons, lastRate]
  cases op.rateFor clock <;> rfl

/-- A clock is as it was last set. -/
theorem foldl_effect_apply (m : ClockMap) (clock : Clock) (ops : List Operation) :
    ops.foldl Operation.effect m clock.number =
      ((lastRate clock ops).map fun hz => ⟨1, hz, hz⟩).getD (m clock.number) := by
  induction ops using List.reverseRecOn with
  | nil => rfl
  | append_singleton ops op ih =>
    rw [List.foldl_append, List.foldl_cons, List.foldl_nil, lastRate_concat]
    cases op with
    | setRate clock' hz =>
      by_cases h : clock' = clock
      · subst h
        simp [Operation.effect, Operation.rateFor]
      · have hne : clock.number ≠ clock'.number := fun hn => h (Clock.number_injective hn).symm
        simpa [Operation.effect, Operation.rateFor, h, Function.update_of_ne hne] using ih
    | rate _ | measuredRate _ | revision => exact ih

/-- A clock that was set answers the rate it was last set to. -/
theorem answer_rate_of_lastRate {m : ClockMap} {clock : Clock} {ops : List Operation} {hz : UInt32}
    (h : lastRate clock ops = some hz) :
    (Operation.rate clock).answer revisionWord (ops.foldl Operation.effect m) = some hz := by
  have hclock := foldl_effect_apply m clock ops
  rw [h, Option.map_some, Option.getD_some] at hclock
  have hon : ClockStateWord.on.isSet 1 = true := by decide
  rw [Operation.answer, Operation.running, hclock, if_pos hon]

/-- Whatever goes on around the messages, a session is a run of the map. -/
theorem session_refines_map (traffic : Nat → Traffic) (ops : List Operation) :
    ∃ bound, ∀ limit, bound ≤ limit →
      let run := (ops.mapM Operation.program).run limit (clockDevice revisionWord traffic code)
        (ready ⟨clocks, memory⟩ 0)
      run.outcome = .ok (answers revisionWord clocks.get ops) ∧
      run.state.responder.state.get = ops.foldl Operation.effect clocks.get ∧
      (∀ clock, run.state.responder.state.get clock.number =
        ((lastRate clock ops).map fun hz => ⟨1, hz, hz⟩).getD (clocks.get clock.number)) ∧
      (∀ clock hz, lastRate clock ops = some hz →
        (Operation.rate clock).answer revisionWord run.state.responder.state.get = some hz) ∧
      run.state.posts = messages clocks.get ops := by
  refine ⟨(Finset.range (2 * ops.length)).sup (fun i => (traffic i).cost) + 1, fun limit hle => ?_⟩
  have hl : ∀ i < 0 + 2 * ops.length, (traffic i).cost < limit := by
    intro i hi
    have hmem : i ∈ Finset.range (2 * ops.length) := Finset.mem_range.2 (by omega)
    have hcost : (traffic i).cost ≤ (Finset.range (2 * ops.length)).sup fun i => (traffic i).cost :=
      Finset.le_sup (f := fun i => (traffic i).cost) hmem
    omega
  obtain ⟨clocks', memory', hsession, hget⟩ :=
    completes_session revisionWord code clocks memory 0 ops hl
  obtain ⟨houtcome, hstate⟩ := hsession.run
  intro run
  have hrun : run.state = ready ⟨clocks', memory'⟩ (0 + messages clocks.get ops) := hstate
  have hclocks : run.state.responder.state.get = ops.foldl Operation.effect clocks.get := by
    rw [hrun]
    exact hget
  have hposts : run.state.posts = messages clocks.get ops := by
    rw [hrun]
    exact Nat.zero_add _
  refine ⟨houtcome, hclocks, ?_, ?_, hposts⟩
  · intro clock
    rw [hclocks]
    apply foldl_effect_apply
  · intro clock hz h
    rw [hclocks]
    exact answer_rate_of_lastRate revisionWord h

/-- A poll without room and a word for somebody else around every message. -/
def busyTraffic : Traffic := ⟨0x10, 1, [⟨2, 0x23⟩], 1, by decide⟩

theorem session_refines_map_busyTraffic :
    ∃ limit,
      let run := ([.setRate .uart 3000000, .rate .uart, .rate .emmc, .measuredRate .uart,
        .revision].mapM Operation.program).run limit
          (clockDevice 7 (fun _ => busyTraffic) fun _ => 0) (ready ⟨{}, []⟩ 0)
      run.outcome = .ok [none, some 3000000, some 0, some 3000000, some 7] ∧
        run.state.posts = 7 := by
  obtain ⟨bound, hrun⟩ := session_refines_map 7 (fun _ => 0) {} [] (fun _ => busyTraffic)
    [.setRate .uart 3000000, .rate .uart, .rate .emmc, .measuredRate .uart, .revision]
  obtain ⟨houtcome, -, -, -, hposts⟩ := hrun bound (Nat.le_refl _)
  have hanswers : answers 7 (ClockBank.get {}) [.setRate .uart 3000000, .rate .uart, .rate .emmc,
      .measuredRate .uart, .revision] = [none, some 3000000, some 0, some 3000000, some 7] := by
    decide
  exact ⟨bound, houtcome.trans (congrArg Outcome.ok hanswers), hposts⟩

end Mailbox

end Bcm2835
