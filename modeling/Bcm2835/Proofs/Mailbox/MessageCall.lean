import Bcm2835.Proofs.Mailbox.Exchange

/-! Calls that lead the firmware to a message. What such a call does to the port, wherever its run
is looked at, is one of five things (`Conduct`, `runs_callMessage`): the message goes out at most
once, and is read back once at the end if it went out. What goes on around a message that is
answered is its `Traffic`; `exists_runs_callMessage` builds the run for any of it that the budget
pays for. -/

namespace Bcm2835

open Program Transcript

namespace MailboxPort

/-- The buffer lies at this address. -/
abbrev located (addr : UInt32) : Access MailboxPort := ⟨.busAddress, .ok addr⟩

abbrev posted (word : UInt32) (message : List UInt32) : Access MailboxPort :=
  ⟨.post word message, ()⟩

abbrev collected {size : Nat} (v : Vector UInt32 size) : Access MailboxPort := ⟨.collect size, v⟩

end MailboxPort

namespace Mailbox

open MailboxPort

variable {β : Type} [Payload β] {budget : Budget} {limit : Nat} {message : Message β}
  {echoed : Except Error Unit} {T : Transcript MailboxPort}

/-! ## The steps of a call -/

theorem callMessage_apply :
    callMessage budget message limit =
      .request (I := MailboxPort) .busAddress fun
        | .error e => .halt (.ok (message, .error e))
        | .ok addr =>
          ((deliver (post (compose .property addr) message.words) limit).metered budget).bind
            fun posted => afterPost message (compose .property addr) posted limit :=
  congrArg (Tree.request _) (funext fun a => by cases a <;> rfl)

theorem afterPost_ok {word : UInt32} {u : Unit} :
    afterPost message word (.ok u, budget) limit =
      ((awaitEcho word limit).metered budget).bind fun x => readBack message x.1 limit := rfl

theorem readBack_apply :
    readBack message echoed limit =
      .request (I := MailboxPort) (.collect message.words.length) fun v =>
        if echoed.isOk && (message.refill v.toList).code ≠ Message.successCode then
          .report (.answerCode (message.refill v.toList).code)
            (.halt (.ok (message.refill v.toList, echoed)))
        else .halt (.ok (message.refill v.toList, echoed)) := by
  refine congrArg (Tree.request _) (funext fun v => ?_)
  by_cases h : (echoed.isOk && (message.refill v.toList).code ≠ Message.successCode) = true
  · rw [if_pos h]
    exact congrFun (if_pos h) limit
  · rw [if_neg h]
    exact congrFun (if_neg h) limit

@[simp] theorem runs_post {word : UInt32} {words : List UInt32} {s : Stop Unit} :
    (post word words limit).Runs T s ↔
      T = [.access (posted word words)] ∧ s = .ended (.ok ()) := by
  constructor
  · intro h
    obtain ⟨_, U, rfl, hU⟩ := Tree.runs_request.1 h
    obtain ⟨rfl, rfl⟩ := Tree.runs_halt.1 hU
    exact ⟨rfl, rfl⟩
  · rintro ⟨rfl, rfl⟩
    exact .request _ (.halt _)

theorem runs_readBack {s : Stop (Message β × Except Error Unit)}
    (h : (readBack message echoed limit).Runs T s) :
    ∃ v : Vector UInt32 message.words.length,
      T.accesses = [collected v] ∧ s = .ended (.ok (message.refill v.toList, echoed)) := by
  rw [readBack_apply] at h
  obtain ⟨v, U, rfl, hU⟩ := Tree.runs_request.1 h
  split at hU
  · obtain ⟨V, rfl, hV⟩ := Tree.runs_report.1 hU
    obtain ⟨rfl, rfl⟩ := Tree.runs_halt.1 hV
    exact ⟨v, rfl, rfl⟩
  · obtain ⟨rfl, rfl⟩ := Tree.runs_halt.1 hU
    exact ⟨v, rfl, rfl⟩

theorem exists_runs_readBack (echoed : Except Error Unit) (limit : Nat)
    (v : Vector UInt32 message.words.length) :
    ∃ T : Transcript MailboxPort,
      (readBack message echoed limit).Runs T (.ended (.ok (message.refill v.toList, echoed))) ∧
      T.ticks = 0 ∧ T.accesses = [collected v] := by
  rw [readBack_apply]
  by_cases h : (echoed.isOk && (message.refill v.toList).code ≠ Message.successCode) = true
  · refine ⟨[.access (collected v), .report (.answerCode (message.refill v.toList).code)],
      Tree.runs_request.2 ⟨v, _, rfl, ?_⟩, rfl, rfl⟩
    rw [if_pos h]
    exact .report _ (.halt _)
  · refine ⟨[.access (collected v)], Tree.runs_request.2 ⟨v, _, rfl, ?_⟩, rfl, rfl⟩
    rw [if_neg h]
    exact .halt _

/-! ## The whole call -/

/-- What the port does around a message: where the buffer lies, the polls that find no room for its
word, and what comes in before its echo. -/
structure Traffic where
  addr : UInt32
  full : Nat
  others : List Arrival
  waits : Nat
  others_ne : ∀ a ∈ others, a.word ≠ compose .property addr

namespace Traffic

/-- The word that leads to the message. -/
def word (x : Traffic) : UInt32 := compose .property x.addr

/-- The units of waiting. -/
def cost (x : Traffic) : Nat := x.full + Arrival.cost x.others + x.waits

/-- A call with a message of these words that is answered, up to its echo. -/
def exchange (x : Traffic) (words : List UInt32) : List (Access MailboxPort) :=
  located x.addr :: (List.replicate x.full (fullPoll true) ++
    [fullPoll false, posted x.word words] ++ x.others.flatMap Arrival.accesses ++
    Arrival.accesses ⟨x.waits, x.word⟩)

end Traffic

/-! ### Accesses that hand nothing over -/

/-- An access that tells the firmware nothing. -/
def Idle (a : Access MailboxPort) : Prop :=
  a.request = .isFull ∨ a.request = .isEmpty ∨ a.request = .read ∨ a.request = .busAddress

@[simp] theorem idle_located (addr : UInt32) : Idle (located addr) := .inr (.inr (.inr rfl))

@[simp] theorem idle_fullPoll (full : Bool) : Idle (fullPoll full) := .inl rfl

@[simp] theorem idle_emptyPoll (empty : Bool) : Idle (emptyPoll empty) := .inr (.inl rfl)

@[simp] theorem idle_taken (word : UInt32) : Idle (taken word) := .inr (.inr (.inl rfl))

def Silent (A : List (Access MailboxPort)) : Prop := ∀ a ∈ A, Idle a

@[simp] theorem silent_nil : Silent [] := List.forall_mem_nil _

@[simp] theorem silent_cons {a : Access MailboxPort} {A : List (Access MailboxPort)} :
    Silent (a :: A) ↔ Idle a ∧ Silent A := List.forall_mem_cons

@[simp] theorem silent_append {A B : List (Access MailboxPort)} :
    Silent (A ++ B) ↔ Silent A ∧ Silent B := List.forall_mem_append

theorem silent_replicate (n : Nat) {a : Access MailboxPort} (h : Idle a) :
    Silent (List.replicate n a) := by
  intro b hb
  rwa [List.eq_of_mem_replicate hb]

@[simp] theorem silent_fullPolls (n : Nat) : Silent (List.replicate n (fullPoll true)) :=
  silent_replicate n (idle_fullPoll true)

@[simp] theorem silent_emptyPolls (n : Nat) : Silent (List.replicate n (emptyPoll true)) :=
  silent_replicate n (idle_emptyPoll true)

@[simp] theorem silent_arrival (a : Arrival) : Silent a.accesses := by
  simp [Arrival.accesses]

@[simp] theorem silent_arrivals (others : List Arrival) :
    Silent (others.flatMap Arrival.accesses) := by
  intro b hb
  obtain ⟨a, -, hb⟩ := List.mem_flatMap.1 hb
  exact silent_arrival a b hb

/-- An exchange is a post with silence around it. -/
theorem Traffic.exchange_eq (x : Traffic) (words : List UInt32) :
    ∃ A B, x.exchange words = A ++ posted x.word words :: B ∧ Silent A ∧ Silent B := by
  refine ⟨located x.addr :: (List.replicate x.full (fullPoll true) ++ [fullPoll false]),
    x.others.flatMap Arrival.accesses ++ Arrival.accesses ⟨x.waits, x.word⟩, ?_, ?_, ?_⟩
  · simp [Traffic.exchange]
  · simp
  · simp

/-! ### What a call does -/

/-- A run that waits, or was given up. -/
def Unfinished {α : Type} (s : Stop α) : Prop := s = .waiting ∨ s = .ended .stalled

/-- What a call with a message does to the port and how far it gets. -/
inductive Conduct (message : Message β) :
    List (Access MailboxPort) → Stop (Message β × Except Error Unit) → Prop
  | unreachable (e : Error) :
    Conduct message [⟨.busAddress, .error e⟩] (.ended (.ok (message, .error e)))
  /-- There is no room for the word. -/
  | crowded (addr : UInt32) (full : Nat) {s} :
    Unfinished s ∨ s = .ended (.ok (message, .error .timeout)) →
      Conduct message (located addr :: List.replicate full (fullPoll true)) s
  | listening (addr : UInt32) (full : Nat) (others : List Arrival) (empties : Nat) {s} :
    Unfinished s →
      Conduct message (located addr :: (List.replicate full (fullPoll true) ++
        [fullPoll false, posted (compose .property addr) message.words] ++
        others.flatMap Arrival.accesses ++ List.replicate empties (emptyPoll true))) s
  /-- The budget ran out before the echo. -/
  | abandoned (addr : UInt32) (full : Nat) (others : List Arrival) (empties : Nat)
    (v : Vector UInt32 message.words.length) :
      Conduct message (located addr :: (List.replicate full (fullPoll true) ++
        [fullPoll false, posted (compose .property addr) message.words] ++
        others.flatMap Arrival.accesses ++ List.replicate empties (emptyPoll true)) ++
        [collected v]) (.ended (.ok (message.refill v.toList, .error .timeout)))
  | answered (x : Traffic) (v : Vector UInt32 message.words.length) :
    Conduct message (x.exchange message.words ++ [collected v])
      (.ended (.ok (message.refill v.toList, .ok ())))

/-- A run that is not finished stays so under a budget, or ends in a timeout. -/
theorem settle_of_unfinished {α : Type} {s : Stop α} (budget : Budget) (h : Unfinished s) :
    Unfinished (s.settle budget) ∨ s.settle budget = .ended (.ok (.error .timeout, budget)) := by
  rcases h with rfl | rfl
  · by_cases hb : budget.take? = none
    · exact .inr (if_pos hb)
    · exact .inl (.inl (if_neg hb))
  · exact .inl (.inr rfl)

theorem Unfinished.of_early {α γ : Type} {s : Stop α} {s' : Stop γ} (h : Unfinished s)
    (hs : s.early? = some s') : Unfinished s' := by
  rcases h with rfl | rfl
  · cases hs
    exact .inl rfl
  · cases hs
    exact .inr rfl

theorem Unfinished.ne_ok {α : Type} {s : Stop α} (h : Unfinished s) (a : α) :
    s ≠ .ended (.ok a) := by
  rcases h with rfl | rfl <;> simp

/-- A call that is not finished hands nothing on. -/
theorem Conduct.of_early {A : List (Access MailboxPort)}
    {s s' : Stop (Message β × Except Error Unit)} (h : Conduct message A s)
    (hs : s.early? = some s') : Conduct message A s' := by
  cases h with
  | unreachable | abandoned | answered => cases hs
  | crowded addr full hs₀ =>
    rcases hs₀ with hs₀ | rfl
    · exact .crowded addr full (.inl (hs₀.of_early hs))
    · cases hs
  | listening addr full others empties hs₀ =>
    exact .listening addr full others empties (hs₀.of_early hs)

/-- What is done with a message that was posted, from the post on. -/
theorem runs_afterPost {addr : UInt32} (full : Nat) {u : Unit}
    {s : Stop (Message β × Except Error Unit)}
    (h : (afterPost message (compose .property addr) (.ok u, budget) limit).Runs T s) :
    Conduct message (located addr :: (List.replicate full (fullPoll true) ++
      [fullPoll false, posted (compose .property addr) message.words] ++ T.accesses)) s := by
  rw [afterPost_ok] at h
  rcases Tree.runs_bind.1 h with ⟨U, V, ⟨echoed, left⟩, rfl, hU, hV⟩ | ⟨s₁, hT, hs⟩
  · obtain ⟨s₀, b, hecho, -, hs⟩ := Tree.runs_metered.1 hU
    obtain ⟨v, hread, rfl⟩ := runs_readBack hV
    rw [accesses_append, hread]
    obtain ⟨others, hne, ⟨waits, rfl, rfl⟩ | ⟨⟨empties, hheard⟩, -, hs₀⟩⟩ :=
      runs_rounds_takeEcho hecho
    · cases hs
      have hanswered := Conduct.answered ⟨addr, full, others, waits, hne⟩ v
      simpa [Traffic.exchange, Traffic.word] using hanswered
    · rw [hheard]
      rcases settle_of_unfinished b hs₀ with h | h
      · exact absurd hs.symm (h.ne_ok _)
      · rw [h] at hs
        cases hs
        simpa using Conduct.abandoned addr full others empties v
  · obtain ⟨s₀, b, hecho, -, rfl⟩ := Tree.runs_metered.1 hT
    obtain ⟨others, -, ⟨waits, -, rfl⟩ | ⟨⟨empties, hheard⟩, -, hs₀⟩⟩ :=
      runs_rounds_takeEcho hecho
    · cases hs
    · rw [hheard]
      rcases settle_of_unfinished b hs₀ with h | h
      · simpa using Conduct.listening addr full others empties (h.of_early hs)
      · rw [h] at hs
        cases hs

/-- Wherever a run of a call with a message is looked at, it has done one of the five things. -/
theorem runs_callMessage {s : Stop (Message β × Except Error Unit)}
    (h : (callMessage budget message limit).Runs T s) : Conduct message T.accesses s := by
  rw [callMessage_apply] at h
  obtain ⟨a, U, rfl, hU⟩ := Tree.runs_request.1 h
  cases a with
  | error e =>
    obtain ⟨rfl, rfl⟩ := Tree.runs_halt.1 hU
    exact .unreachable e
  | ok addr =>
    rcases Tree.runs_bind.1 hU with ⟨V, W, ⟨result, left⟩, rfl, hV, hW⟩ | ⟨s₁, hT, hs⟩
    · obtain ⟨s₀, b, hpost, -, hs⟩ := Tree.runs_metered.1 hV
      obtain ⟨full, ⟨-, -, rfl⟩ | ⟨-, ⟨rfl, rfl⟩ | ⟨X, rfl, hX⟩⟩⟩ := runs_deliver.1 hpost
      · cases hs
      · rcases settle_of_unfinished b (.inl rfl) with h | h
        · exact absurd hs.symm (h.ne_ok _)
        · rw [h] at hs
          cases hs
          obtain ⟨rfl, rfl⟩ := Tree.runs_halt.1 hW
          have hcrowded : Conduct message _ (.ended (.ok (message, .error .timeout))) :=
            .crowded addr (full + 1) (.inr rfl)
          simpa [List.replicate_succ'] using hcrowded
      · obtain ⟨rfl, rfl⟩ := runs_post.1 hX
        cases hs
        simpa using runs_afterPost full hW
    · obtain ⟨s₀, b, hpost, -, rfl⟩ := Tree.runs_metered.1 hT
      obtain ⟨full, ⟨-, rfl, rfl⟩ | ⟨-, ⟨rfl, rfl⟩ | ⟨X, rfl, hX⟩⟩⟩ := runs_deliver.1 hpost
      · cases hs
        simpa using Conduct.crowded addr full (.inl (.inr rfl))
      · rcases settle_of_unfinished b (.inl rfl) with h | h
        · simpa [List.replicate_succ'] using
            Conduct.crowded addr (full + 1) (.inl (h.of_early hs))
        · rw [h] at hs
          cases hs
      · obtain ⟨-, rfl⟩ := runs_post.1 hX
        cases hs

/-- The run in which the message is answered in this traffic. -/
theorem exists_runs_callMessage {left : Budget} (x : Traffic)
    (v : Vector UInt32 message.words.length) (hb : budget.spend? x.cost = some left)
    (hl : x.cost < limit) :
    ∃ T : Transcript MailboxPort,
      (callMessage budget message limit).Runs T
        (.ended (.ok (message.refill v.toList, .ok ()))) ∧
      T.ticks = x.cost ∧ T.accesses = x.exchange message.words ++ [collected v] := by
  obtain ⟨addr, full, others, waits, hne⟩ := x
  simp only [Traffic.cost] at hb hl
  -- the budget pays for the polls before the post, and what is left of it for the echo
  obtain ⟨b, hb₁, hb₂⟩ : ∃ b, budget.spend? full = some b ∧
      b.spend? (Arrival.cost others + waits) = some left := by
    rw [Nat.add_assoc, Budget.spend?_add] at hb
    exact Option.bind_eq_some_iff.1 hb
  have hpost : (deliver (post (compose .property addr) message.words) limit).Runs
      (refusals full ++ [.access (fullPoll false),
        .access (posted (compose .property addr) message.words)]) (.ended (.ok ())) :=
    runs_deliver.2 ⟨full, .inr ⟨by omega, .inr ⟨_, rfl, runs_post.2 ⟨rfl, rfl⟩⟩⟩⟩
  have hecho : (awaitEcho (compose .property addr) limit).Runs
      (others.flatMap (Arrival.discarded (compose .property addr)) ++
        Arrival.transcript ⟨waits, compose .property addr⟩) (.ended (.ok ())) := by
    apply rounds_takeEcho_runs hne
    · intro a ha
      have := Arrival.waits_le_cost ha
      omega
    · omega
    · have := Arrival.length_le_cost others
      omega
  obtain ⟨R, hread, hR, hRa⟩ := exists_runs_readBack (.ok ()) limit v
  have hposted := Tree.runs_metered.2 ⟨_, b, hpost, by simpa using hb₁, rfl⟩
  have hechoed := Tree.runs_metered.2 ⟨_, left, hecho, by simpa using hb₂, rfl⟩
  have hafter : (afterPost message (compose .property addr) (.ok (), b) limit).Runs _
      (.ended (.ok (message.refill v.toList, .ok ()))) := hechoed.bind hread
  refine ⟨.access (located addr) :: ((refusals full ++ [.access (fullPoll false),
    .access (posted (compose .property addr) message.words)]) ++
      (others.flatMap (Arrival.discarded (compose .property addr)) ++
        Arrival.transcript ⟨waits, compose .property addr⟩ ++ R)), ?_, ?_, ?_⟩
  · rw [callMessage_apply]
    exact Tree.runs_request.2 ⟨.ok addr, _, rfl, hposted.bind hafter⟩
  · simp only [ticks_access, ticks_append, ticks_refusals, ticks_nil, Arrival.ticks_discarded,
      Arrival.ticks_transcript, hR, Traffic.cost]
    omega
  · simp [hRa, Traffic.exchange, Traffic.word]

/-! ## Calls with one tag -/

variable {tag : Tag} {property : Message Property}

/-- What a property call makes of the result of its call. -/
def announce (tag : Tag) (x : Message Property × Except Error Unit) :
    Tree MailboxPort (Message Property × Except Error Unit) :=
  if x.2.isOk then .report (.answered tag x.1.body.header.responseLength) (.halt (.ok x))
  else .halt (.ok x)

theorem propertyCall_apply :
    propertyCall budget tag property limit =
      (callMessage budget (requestFor tag property) limit).bind (announce tag) := by
  refine congrArg (Tree.bind _) (funext fun x => ?_)
  obtain ⟨left, result⟩ := x
  cases result <;> rfl

theorem runs_announce {x : Message Property × Except Error Unit}
    {s : Stop (Message Property × Except Error Unit)} (h : (announce tag x).Runs T s) :
    T.accesses = [] ∧ s = .ended (.ok x) := by
  rw [announce] at h
  split at h
  · obtain ⟨U, rfl, hU⟩ := Tree.runs_report.1 h
    obtain ⟨rfl, rfl⟩ := Tree.runs_halt.1 hU
    exact ⟨rfl, rfl⟩
  · obtain ⟨rfl, rfl⟩ := Tree.runs_halt.1 h
    exact ⟨rfl, rfl⟩

theorem exists_runs_announce (tag : Tag) (x : Message Property × Except Error Unit) :
    ∃ T : Transcript MailboxPort, (announce tag x).Runs T (.ended (.ok x)) ∧ T.accesses = [] := by
  by_cases h : x.2.isOk
  · refine ⟨[.report (.answered tag x.1.body.header.responseLength)], ?_, rfl⟩
    rw [announce, if_pos h]
    exact .report _ (.halt _)
  · refine ⟨[], ?_, rfl⟩
    rw [announce, if_neg h]
    exact .halt _

theorem runs_propertyCall {s : Stop (Message Property × Except Error Unit)}
    (h : (propertyCall budget tag property limit).Runs T s) :
    Conduct (requestFor tag property) T.accesses s := by
  rw [propertyCall_apply] at h
  rcases Tree.runs_bind.1 h with ⟨U, V, x, rfl, hU, hV⟩ | ⟨s₀, hT, hs⟩
  · obtain ⟨hsilent, rfl⟩ := runs_announce hV
    rw [accesses_append, hsilent, List.append_nil]
    exact runs_callMessage hU
  · exact (runs_callMessage hT).of_early hs

/-- What a query makes of the result of its call. -/
def settle (tag : Tag) : Message Property × Except Error Unit → Tree MailboxPort (Message Property)
  | (left, .ok ()) => .report (.answered tag left.body.header.responseLength) (.halt (.ok left))
  | (_, .error e) => .halt (.error e)

theorem query_apply :
    query budget tag property limit =
      (callMessage budget (requestFor tag property) limit).bind (settle tag) := by
  refine (Tree.bind_assoc _ _ _).trans (congrArg _ (funext fun x => ?_))
  obtain ⟨left, result⟩ := x
  cases result <;> rfl

theorem exists_runs_query {left : Budget} (x : Traffic) (tag : Tag) (property : Message Property)
    (v : Vector UInt32 (requestFor tag property).words.length)
    (hb : budget.spend? x.cost = some left) (hl : x.cost < limit) :
    ∃ T : Transcript MailboxPort,
      (query budget tag property limit).Runs T
        (.ended (.ok ((requestFor tag property).refill v.toList))) ∧
      T.ticks = x.cost ∧
      T.accesses = x.exchange (requestFor tag property).words ++ [collected v] := by
  obtain ⟨T, hT, hk, hA⟩ := exists_runs_callMessage x v hb hl
  have hsettle := Tree.Runs.report (I := MailboxPort) (.answered tag
    ((requestFor tag property).refill v.toList).body.header.responseLength)
    (.halt (.ok ((requestFor tag property).refill v.toList)))
  refine ⟨_, query_apply ▸ hT.bind hsettle, ?_, ?_⟩
  · simpa using hk
  · simpa using hA

end Mailbox

end Bcm2835
