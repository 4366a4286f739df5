import Bcm2835.Proofs.Coverage
import Bcm2835.Proofs.Mailbox.MessageCall

/-! Property calls under a budget. One budget covers the whole of a property call: what it does not
need to post its message is left for the echo (`query_follows`). A call may need all of it
(`exists_runs_query_patient`). -/

namespace Bcm2835

open Program Transcript

namespace Mailbox

open MailboxPort

variable {β γ : Type} [Payload β] {n limit : Nat} {message : Message β} {word : UInt32}
  {echoed : Except Error Unit}

/-! ## Coverage -/

/-- Reads of a message buffer. They are accesses to memory, not to the mailbox. -/
def IsCollect (r : MailboxPort.Request) : Prop := ∃ size, r = .collect size

section
variable {k : Message β × Except Error Unit → Tree MailboxPort γ}
  (hk : ∀ x, (k x).Costs 0) (hcut : ∀ left, (k (left, .error .timeout)).TimesOut IsCollect)
include hk

theorem readBack_costs : ((readBack message echoed limit).bind k).Costs 0 := by
  rw [readBack_apply]
  refine .request fun v => ?_
  dsimp only
  split
  · exact .report _ (hk _)
  · exact hk _

include hcut

theorem afterPost_follows {posted : Except Error Unit} :
    Tree.Follows IsCollect n ((afterPost message word (posted, .unlimited) limit).bind k)
      ((afterPost message word (posted, .bounded n) limit).bind k) := by
  cases posted with
  | error e => exact (hk _).follows n
  | ok u =>
    rw [afterPost_ok, afterPost_ok, Tree.bind_assoc, Tree.bind_assoc]
    refine Tree.follows_metered_bind (fun x m => (readBack_costs hk).follows m) ?_
    rw [readBack_apply]
    exact .request (Vector.replicate _ 0) ⟨_, rfl⟩ fun v => hcut _

/-- A call with something behind it that does not wait, and that fails where the call timed out. -/
theorem callMessage_follows :
    Tree.Follows IsCollect n ((callMessage .unlimited message limit).bind k)
      ((callMessage (.bounded n) message limit).bind k) := by
  rw [callMessage_apply, callMessage_apply]
  refine .request fun a => ?_
  cases a with
  | error e => exact (hk _).follows n
  | ok addr =>
    dsimp only
    rw [Tree.bind_assoc, Tree.bind_assoc]
    exact Tree.follows_metered_bind (fun x m => afterPost_follows hk hcut) (hcut message)

end

/-- A call whose caller goes on with the message, or fails as the call does. -/
def raising (p : Program MailboxPort (Message β × Except Error Unit)) :
    Program MailboxPort (Message β) := do
  let (left, result) ← p
  ofExcept result
  return left

theorem propertyCallMulti_follows {message : Message (List Property)} :
    Tree.Follows IsCollect n (raising (propertyCallMulti .unlimited message) limit)
      (raising (propertyCallMulti (.bounded n) message) limit) := by
  refine callMessage_follows (fun x => ?_) fun left => .halt
  obtain ⟨left, result⟩ := x
  cases result <;> exact .halt ..

variable {tag : Tag} {property : Message Property}

theorem settle_costs (x : Message Property × Except Error Unit) : (settle tag x).Costs 0 := by
  obtain ⟨left, result⟩ := x
  cases result with
  | ok u => exact .report _ (.halt ..)
  | error e => exact .halt ..

/-- A query follows its unbounded form. Where it times out, the message buffer may still be read. -/
theorem query_follows :
    Tree.Follows IsCollect n (query .unlimited tag property limit)
      (query (.bounded n) tag property limit) := by
  rw [query_apply, query_apply]
  exact callMessage_follows settle_costs fun left => .halt

/-- The run of a query on a mailbox that has room at once, and is empty for `k` polls. -/
theorem exists_runs_query_patient (tag : Tag) (property : Message Property) (addr : UInt32)
    {k : Nat} (v : Vector UInt32 (requestFor tag property).words.length) (hk : k ≤ n)
    (hl : k < limit) :
    ∃ T : Transcript MailboxPort,
      (query (.bounded n) tag property limit).Runs T
        (.ended (.ok ((requestFor tag property).refill v.toList))) ∧
      T.ticks = k ∧
      T.accesses = [located addr, fullPoll false,
          posted (compose .property addr) (requestFor tag property).words] ++
        Arrival.accesses ⟨k, compose .property addr⟩ ++ [collected v] := by
  have hcost : Traffic.cost ⟨addr, 0, [], k, by simp⟩ = k := by simp [Traffic.cost]
  obtain ⟨T, hT, hticks, hA⟩ := exists_runs_query ⟨addr, 0, [], k, by simp⟩ tag property v
    (Budget.spend?_bounded.2 ⟨hcost ▸ hk, rfl⟩) (hcost.symm ▸ hl)
  exact ⟨T, hT, hticks.trans hcost, hA⟩

end Mailbox

end Bcm2835
