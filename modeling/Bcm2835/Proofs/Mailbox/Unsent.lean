import Bcm2835.Proofs.Mailbox.Accounting
import Bcm2835.Proofs.Mailbox.Request

/-! Calls with a message that fail. Up to the post nothing but the request itself is in the message,
so a call that fails before it hands exactly the request back (`runs_callMessage_unsent`). Behind
the post the buffer belongs to the firmware, and a call that gives up on the echo hands on what it
finds there (`Unechoed`). -/

namespace Bcm2835

open Program Transcript

namespace Mailbox

open MailboxPort

/-- How a call goes that fails before its word is posted: the buffer has no address the firmware
could use, or there was no room for the word as long as the budget lasted. -/
inductive Unsent (budget : Budget) (limit : Nat) : Transcript MailboxPort → Error → Prop
  | unreachable (e : Error) : Unsent budget limit [.access ⟨.busAddress, .error e⟩] e
  | crowded (addr : UInt32) {n : Nat} : budget = .bounded n → n < limit →
    Unsent budget limit (.access (located addr) :: (refusals n ++ [.access (fullPoll true)]))
      .timeout

variable {β : Type} [Payload β] {budget : Budget} {limit : Nat} {T : Transcript MailboxPort}
  {e : Error} {message left : Message β}

theorem Unsent.silent (h : Unsent budget limit T e) : Silent T.accesses := by
  cases h with
  | unreachable e => exact silent_cons.2 ⟨.inr (.inr (.inr rfl)), silent_nil⟩
  | crowded addr _ _ => simp

theorem Unsent.reads_nothing (h : Unsent budget limit T e) : wordsRead T.accesses = [] := by
  cases h with
  | unreachable e => rfl
  | @crowded addr n _ _ =>
    rw [accesses_access, accesses_append, accesses_refusals, ← List.singleton_append,
      wordsRead_append, wordsRead_append, wordsRead_fullPolls]
    rfl

/-- How a call goes whose word was posted and whose echo did not come in time. The message is what
the buffer held at last. -/
structure Unechoed (request : Message β) (A : List (Access MailboxPort)) (e : Error)
    (left : Message β) : Prop where
  timeout : e = .timeout
  buffer : ∃ (addr : UInt32) (before after : List (Access MailboxPort))
    (v : Vector UInt32 request.words.length),
    A = located addr :: (before ++ posted (compose .property addr) request.words :: after ++
      [collected v]) ∧
    Silent before ∧ Silent after ∧ left = request.refill v.toList ∧ left.words = v.toList

theorem handovers_ne_nil {A : List (Access MailboxPort)} {word : UInt32} {words : List UInt32}
    (h : posted word words ∈ A) : handovers A ≠ [] :=
  List.ne_nil_of_mem (List.mem_filterMap.2 ⟨_, h, rfl⟩)

theorem runs_of_unsent (h : Unsent budget limit T e) (message : Message β) :
    (callMessage budget message limit).Runs T (.ended (.ok (message, .error e))) := by
  rw [callMessage_apply]
  cases h with
  | unreachable e => exact .request _ (.halt _)
  | @crowded addr n hbudget hlt =>
    subst hbudget
    have hwait : (deliver (post (compose .property addr) message.words) limit).Runs
        (refusals n ++ [.access (fullPoll true)]) .waiting :=
      runs_deliver.2 ⟨n, .inr ⟨hlt, .inl ⟨rfl, rfl⟩⟩⟩
    have hspend : (Budget.bounded n).spend?
        (ticks (refusals n ++ [.access (fullPoll true)])) = some (.bounded 0) :=
      Budget.spend?_bounded.2 (by simp)
    have hcut := Tree.runs_metered.2 ⟨_, .bounded 0, hwait, hspend, rfl⟩
    refine Tree.runs_request.2 ⟨.ok addr, _, rfl, Tree.runs_bind_ok.2 ?_⟩
    exact ⟨_, [], _, (List.append_nil _).symm, hcut, .halt _⟩

/-- A call that fails without having written to the mailbox hands back the request. -/
theorem runs_callMessage_unsent :
    (callMessage budget message limit).Runs T (.ended (.ok (left, .error e))) ∧
        handovers T.accesses = [] ↔
      Unsent budget limit T e ∧ left = message := by
  constructor
  · rintro ⟨h, hnone⟩
    rw [callMessage_apply] at h
    obtain ⟨a, U, rfl, hU⟩ := Tree.runs_request.1 h
    cases a with
    | error e =>
      obtain ⟨rfl, hs⟩ := Tree.runs_halt.1 hU
      cases hs
      exact ⟨.unreachable e, rfl⟩
    | ok addr =>
      obtain ⟨V, W, ⟨result, b⟩, rfl, hV, hW⟩ := Tree.runs_bind_ok.1 hU
      obtain ⟨s₀, b', hdeliver, hspend, hs⟩ := Tree.runs_metered.1 hV
      obtain ⟨full, ⟨-, -, rfl⟩ | ⟨hfull, ⟨rfl, rfl⟩ | ⟨X, rfl, hX⟩⟩⟩ := runs_deliver.1 hdeliver
      · cases hs
      · rw [Stop.settle] at hs
        split at hs
        · next hspent =>
          cases hs
          obtain ⟨rfl, hend⟩ := Tree.runs_halt.1 hW
          cases hend
          have hbudget := Budget.eq_bounded_of_spent hspend hspent
          simp only [ticks_append, ticks_refusals, ticks_access, ticks_nil, Nat.add_zero] at hbudget
          rw [List.append_nil]
          exact ⟨.crowded addr hbudget hfull, rfl⟩
        · cases hs
      · obtain ⟨rfl, -⟩ := runs_post.1 hX
        have hposted : posted (compose .property addr) message.words ∈
            accesses (.access (located addr) :: (refusals full ++ .access (fullPoll false) ::
              [.access (posted (compose .property addr) message.words)] ++ W)) := by simp
        exact absurd hnone (handovers_ne_nil hposted)
  · rintro ⟨h, rfl⟩
    exact ⟨runs_of_unsent h _, handovers_of_silent h.silent⟩

/-- A call that fails has not written to the mailbox, or has not seen its echo. -/
theorem unsent_or_unechoed
    (h : (callMessage budget message limit).Runs T (.ended (.ok (left, .error e)))) :
    (Unsent budget limit T e ∧ left = message) ∨ Unechoed message T.accesses e left := by
  have hconduct := runs_callMessage h
  generalize hA : T.accesses = A at hconduct
  generalize hs : Stop.ended (Outcome.ok (left, Except.error e)) = s at hconduct
  cases hconduct with
  | unreachable e' =>
    exact .inl (runs_callMessage_unsent.1 ⟨h, hA ▸ rfl⟩)
  | crowded addr full _ =>
    refine .inl (runs_callMessage_unsent.1 ⟨h, ?_⟩)
    rw [hA]
    exact handovers_of_silent (by simp)
  | listening addr full others empties hunfinished => exact absurd hs.symm (hunfinished.ne_ok _)
  | abandoned addr full others empties v =>
    cases hs
    refine .inr ⟨rfl, addr, List.replicate full (fullPoll true) ++ [fullPoll false],
      others.flatMap Arrival.accesses ++ List.replicate empties (emptyPoll true), v, ?_, by simp,
      by simp, rfl, message.words_refill v.toList v.length_toList⟩
    simp
  | answered x v => cases hs

/-! ## Property calls -/

theorem runs_propertyCall_error {tag : Tag} {message left : Message Property} :
    (propertyCall budget tag message limit).Runs T (.ended (.ok (left, .error e))) ↔
      (callMessage budget (requestFor tag message) limit).Runs T
        (.ended (.ok (left, .error e))) := by
  rw [propertyCall_apply, Tree.runs_bind_ok]
  constructor
  · rintro ⟨U, V, x, rfl, hU, hV⟩
    obtain rfl : x = (left, .error e) := by
      obtain ⟨-, hs⟩ := runs_announce hV
      cases hs
      rfl
    obtain ⟨rfl, -⟩ := Tree.runs_halt.1 hV
    rwa [List.append_nil]
  · intro h
    exact ⟨T, [], _, (List.append_nil T).symm, h, .halt _⟩

/-- A property call that fails before its word is posted tells the mailbox nothing and takes nothing
from it, and leaves the request: the data as it was, below the header of its tag, or all tags as
they were. Every such failure is one, on every port that answers so. A call that fails in another
way has posted its word, and leaves what the buffer held when it gave up on the echo. -/
theorem failed_call_keeps_request (budget : Budget) (limit : Nat) :
    (∀ (tag : Tag) (message left : Message Property) (T : Transcript MailboxPort) (e : Error),
      (propertyCall budget tag message limit).Runs T (.ended (.ok (left, .error e))) →
        (Unsent budget limit T e ∧ handovers T.accesses = [] ∧ wordsRead T.accesses = [] ∧
          left.body.data = message.body.data ∧ left.code = Message.requestCode ∧
          left.body.header =
            TagHeader.request tag (UInt32.ofNat (4 * message.body.data.length))) ∨
        Unechoed (requestFor tag message) T.accesses e left) ∧
    (∀ (message left : Message (List Property)) (T : Transcript MailboxPort) (e : Error),
      (propertyCallMulti budget message limit).Runs T (.ended (.ok (left, .error e))) →
        (Unsent budget limit T e ∧ handovers T.accesses = [] ∧ wordsRead T.accesses = [] ∧
          left.body = message.body ∧ left.code = Message.requestCode) ∨
        Unechoed message.resetHeader T.accesses e left) ∧
    ∀ (hw : Behaviour MailboxPort) (T : Transcript MailboxPort) (e : Error),
      Unsent budget limit T e → hw.Answers [] T.accesses →
        (∀ (tag : Tag) (message : Message Property),
          (propertyCall budget tag message).record hw limit =
            ⟨T, .ok (requestFor tag message, .error e)⟩) ∧
        ∀ message : Message (List Property),
          (propertyCallMulti budget message).record hw limit =
            ⟨T, .ok (message.resetHeader, .error e)⟩ := by
  refine ⟨?_, ?_, ?_⟩
  · intro tag message left T e h
    rcases unsent_or_unechoed (runs_propertyCall_error.1 h) with ⟨hunsent, rfl⟩ | hunechoed
    · exact .inl ⟨hunsent, handovers_of_silent hunsent.silent, hunsent.reads_nothing, rfl, rfl, rfl⟩
    · exact .inr hunechoed
  · intro message left T e h
    rcases unsent_or_unechoed h with ⟨hunsent, rfl⟩ | hunechoed
    · exact .inl ⟨hunsent, handovers_of_silent hunsent.silent, hunsent.reads_nothing, rfl, rfl⟩
    · exact .inr hunechoed
  · intro hw T e hunsent hanswers
    refine ⟨fun tag message => ?_, fun message => ?_⟩
    · exact Tree.record_eq_of_runs (runs_propertyCall_error.2 (runs_of_unsent hunsent _)) hanswers
    · exact Tree.record_eq_of_runs (runs_of_unsent hunsent _) hanswers

/-- A port that never has room. -/
def fullPort : Behaviour MailboxPort := port (fun _ => true) (fun _ => true) fun _ => 0

/-- A port that takes every word and answers none. -/
def mutePort : Behaviour MailboxPort := port (fun _ => false) (fun _ => true) fun _ => 0

theorem failed_call_keeps_request_fullPort :
    (∃ T, (propertyCall (.bounded 1) .clockRate answeredMessage).record fullPort 2 =
        ⟨T, .ok (requestFor .clockRate answeredMessage, .error .timeout)⟩ ∧
      T.accesses = [located 0x10, fullPoll true, fullPoll true]) ∧
    ∃ T left, (propertyCall (.bounded 1) .clockRate answeredMessage).record mutePort 2 =
        ⟨T, .ok (left, .error .timeout)⟩ ∧
      Unechoed (requestFor .clockRate answeredMessage) T.accesses .timeout left ∧
      left.body.data = [0, 0] := by
  obtain ⟨hcall, -, hport⟩ := failed_call_keeps_request (.bounded 1) 2
  constructor
  · obtain ⟨hrecord, -⟩ := hport fullPort _ .timeout (.crowded 0x10 rfl (by decide))
      ⟨rfl, rfl, rfl, trivial⟩
    exact ⟨_, hrecord .clockRate answeredMessage, rfl⟩
  · have hruns := Tree.runs_record mutePort
      (propertyCall (.bounded 1) .clockRate answeredMessage 2) []
    refine ⟨_, _, rfl, ?_, rfl⟩
    rcases hcall .clockRate answeredMessage _ _ .timeout hruns with ⟨-, hnone, -⟩ | hunechoed
    · exact absurd hnone (by decide)
    · exact hunechoed

end Mailbox

end Bcm2835
