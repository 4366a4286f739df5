import Bcm2835.Proofs.Board
import Bcm2835.Proofs.Mailbox.ClockQuery

/-! What a program on the mailboxes does to the board. It reaches no other block, and the messages
that it posts there are those it posts at the port (`drive_leaves`). -/

namespace Bcm2835.Mailbox

open Program Board Register

/-- The access is to no block but that of the mailboxes, and a message it posts is one of these. -/
structure KeepsToMailbox (messages : List UInt32 → Prop) (a : Access Board) : Prop where
  place : ∀ o, place? a = some o → Layout.mbox.Contains o
  posts : ∀ word message, a = posted word message → messages message

section
variable {α : Type} {messages : List UInt32 → Prop} {a : Access Board} {o : Nat}

theorem keepsToMailbox_of_contains (ha : place? a = some o) (ho : Layout.mbox.Contains o) :
    KeepsToMailbox messages a := by
  refine ⟨?_, ?_⟩
  · intro p hp
    cases ha.symm.trans hp
    exact ho
  · rintro word message rfl
    cases ha

theorem keepsToMailbox_of_request (ha : place? a = none)
    (hpost : ∀ word message, a.request = .post word message → messages message) :
    KeepsToMailbox messages a := by
  refine ⟨?_, ?_⟩
  · intro o ho
    cases ha.symm.trans ho
  · rintro word message rfl
    exact hpost word message rfl

theorem onBoard_leaves {r : MailboxPort.Request}
    (hr : ∀ word message, r = .post word message → messages message) :
    (MailboxPort.onBoard r).Leaves fun A => ∀ a ∈ A, KeepsToMailbox messages a := by
  have hP := additive_forall (KeepsToMailbox messages)
  cases r with
  | isFull | isEmpty =>
    apply leaves_isSet
    exact fun v => List.forall_mem_singleton.2 (keepsToMailbox_of_contains rfl (by decide))
  | read =>
    apply leaves_get
    exact fun v => List.forall_mem_singleton.2 (keepsToMailbox_of_contains rfl (by decide))
  | write word =>
    apply leaves_request
    exact fun _ => List.forall_mem_singleton.2 (keepsToMailbox_of_contains rfl (by decide))
  | busAddress =>
    apply hP.map
    apply leaves_request
    exact fun addr => List.forall_mem_singleton.2
      (keepsToMailbox_of_request rfl fun _ _ h => nomatch h)
  | post word message =>
    apply leaves_request
    intro _
    refine List.forall_mem_singleton.2 (keepsToMailbox_of_request rfl ?_)
    intro word' message' h
    obtain ⟨rfl, rfl⟩ := Request.post.inj h
    exact hr word message rfl
  | collect size =>
    apply leaves_request
    exact fun v => List.forall_mem_singleton.2
      (keepsToMailbox_of_request rfl fun _ _ h => nomatch h)

theorem mem_sentMessages {A : List (Access MailboxPort)} {word : UInt32} {message : List UInt32}
    (h : MailboxPort.posted word message ∈ A) : message ∈ sentMessages A :=
  List.mem_filterMap.2 ⟨(word, some message), List.mem_filterMap.2 ⟨_, h, rfl⟩, rfl⟩

/-- What goes out to the firmware is what the program posts. -/
theorem drive_leaves {p : Program MailboxPort α}
    (hp : p.Leaves fun A => ∀ message ∈ sentMessages A, messages message) :
    (MailboxPort.drive p).Leaves fun A => ∀ a ∈ A, KeepsToMailbox messages a := by
  apply (additive_forall _).lower (MailboxPort.port (fun _ => false) (fun _ => false) fun _ => 0)
    fun _ hr => onBoard_leaves hr
  intro limit T s hT a ha word message hpost
  obtain ⟨r, x⟩ := a
  cases hpost
  exact hp hT message (mem_sentMessages ha)

end

/-- A query posts its one message, if it posts anything. -/
theorem query_leaves (budget : Budget) (tag : Tag) (message : Message Property) :
    (query budget tag message).Leaves fun A => ∀ words ∈ sentMessages A,
      words = (requestFor tag message).words := by
  intro limit T s hT words hmem
  obtain ⟨s₀, hconduct, -⟩ := runs_query hT
  exact hconduct.posts.eq_of_mem hmem

end Bcm2835.Mailbox
