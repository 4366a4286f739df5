import Bcm2835.Proofs.Mailbox.Request
import Bcm2835.Proofs.Session

/-! What the question for the rate of a clock tells the firmware. It takes up to two calls with one
message, which the firmware may overwrite as it likes in between. The second call starts from the
answer to the first, but all that it takes from there is whether the clock is on
(`clockRate_eq`): its request is the one that a new message would have made.

So other words in the first answer change nothing as long as they agree on that one bit
(`runs_clockRate_reread`). For a single call this is `rereads_callMessage`: it reads the message
back at its end or not at all, and does nothing with the words that it finds there. -/

namespace Bcm2835

open Program Transcript

namespace Mailbox

open MailboxPort

/-! ## A call and its answer -/

variable {β : Type} {budget : Budget} {limit : Nat} {tag : Tag} {A : List (Access MailboxPort)}
  {T : Transcript MailboxPort}

/-- How a call ends for its caller, who gets the message if the call succeeded. -/
def concluded : Stop (Message β × Except Error Unit) → Stop (Message β)
  | .ended (.ok (left, .ok ())) => .ended (.ok left)
  | .ended (.ok (_, .error e)) => .ended (.error e)
  | .ended (.error e) => .ended (.error e)
  | .ended (.fault f) => .ended (.fault f)
  | .ended .stalled => .ended .stalled
  | .waiting => .waiting

/-- A call with a message of these words, and how it ended: if it succeeded, with the words as the
firmware left them. -/
structure Called (words : List UInt32) (A : List (Access MailboxPort)) (s : Stop (List UInt32)) :
    Prop where
  begins : ∃ place B, A = ⟨.busAddress, place⟩ :: B
  posts : Posts words A
  ends : Unfinished s ∨
    (∃ e, s = .ended (.error e) ∧ (e = .timeout ∨ A = [⟨.busAddress, .error e⟩])) ∨
    ∃ (x : Traffic) (v : Vector UInt32 words.length),
      A = x.exchange words ++ [collected v] ∧ s = .ended (.ok v.toList)

theorem concluded_of_early {s : Stop (Message β × Except Error Unit)} {s' : Stop (Message β)}
    (h : s.early? = some s') : concluded s = s' := by
  match s with
  | .ended (.ok _) => cases h
  | .ended (.error _) | .ended (.fault _) | .ended .stalled | .waiting => cases h; rfl

theorem concluded_eq_ok {s : Stop (Message β × Except Error Unit)} {left : Message β}
    (h : concluded s = .ended (.ok left)) : s = .ended (.ok (left, .ok ())) := by
  match s with
  | .ended (.ok (_, .ok ())) => cases h; rfl
  | .ended (.ok (_, .error _)) => cases h
  | .ended (.error _) | .ended (.fault _) | .ended .stalled | .waiting => cases h

variable [Payload β]

theorem Unfinished.words {s : Stop (Message β × Except Error Unit)} (h : Unfinished s) :
    Unfinished ((concluded s).map Message.words) := by
  rcases h with rfl | rfl
  · exact .inl rfl
  · exact .inr rfl

theorem Conduct.begins {message : Message β} {s : Stop (Message β × Except Error Unit)}
    (h : Conduct message A s) : ∃ place B, A = ⟨.busAddress, place⟩ :: B := by
  cases h with
  | unreachable | crowded | listening | abandoned | answered => exact ⟨_, _, rfl⟩

theorem Conduct.called {message : Message β} {s : Stop (Message β × Except Error Unit)}
    (h : Conduct message A s) : Called message.words A ((concluded s).map Message.words) := by
  refine ⟨h.begins, h.posts, ?_⟩
  cases h with
  | unreachable e => exact .inr (.inl ⟨e, rfl, .inr rfl⟩)
  | crowded addr full hs =>
    rcases hs with hs | rfl
    · exact .inl hs.words
    · exact .inr (.inl ⟨_, rfl, .inl rfl⟩)
  | listening addr full others empties hs => exact .inl hs.words
  | abandoned addr full others empties v => exact .inr (.inl ⟨_, rfl, .inl rfl⟩)
  | answered x v =>
    have hwords : (message.refill v.toList).words = v.toList :=
      message.words_refill _ v.length_toList
    exact .inr (.inr ⟨x, v, rfl, congrArg (fun ws => Stop.ended (.ok ws)) hwords⟩)

theorem runs_settle {x : Message Property × Except Error Unit} {s : Stop (Message Property)}
    (h : (settle tag x).Runs T s) : T.accesses = [] ∧ s = concluded (.ended (.ok x)) := by
  obtain ⟨left, result⟩ := x
  cases result with
  | ok u =>
    obtain ⟨U, rfl, hU⟩ := Tree.runs_report.1 h
    obtain ⟨rfl, rfl⟩ := Tree.runs_halt.1 hU
    exact ⟨rfl, rfl⟩
  | error e =>
    obtain ⟨rfl, rfl⟩ := Tree.runs_halt.1 h
    exact ⟨rfl, rfl⟩

/-- A query is a call, and it ends as the call does. -/
theorem runs_query {message : Message Property} {s : Stop (Message Property)}
    (h : (query budget tag message limit).Runs T s) :
    ∃ s₀, Conduct (requestFor tag message) T.accesses s₀ ∧ s = concluded s₀ := by
  rw [query_apply] at h
  rcases Tree.runs_bind.1 h with ⟨U, V, x, rfl, hU, hV⟩ | ⟨s₀, hT, hs⟩
  · obtain ⟨hsilent, rfl⟩ := runs_settle hV
    refine ⟨_, ?_, rfl⟩
    rw [accesses_append, hsilent, List.append_nil]
    exact runs_callMessage hU
  · exact ⟨s₀, runs_callMessage hT, (concluded_of_early hs).symm⟩

/-! ## A message that is used again -/

/-- Nothing of what a message held goes out again when it is sent with new data. -/
theorem query_again (budget : Budget) (tag : Tag) (message : Message Property)
    (data : List UInt32) :
    query budget tag { message with body := { message.body with data } } =
      query budget tag (.new { data }) := rfl

/-- What a clock is asked with this tag. -/
def question (tag : Tag) (clock : Clock) : Message Property :=
  requestFor tag (.new { data := [clock.number, 0] })

theorem sizeFor_of_length {p : Property} (h : p.words.length = 5) : Message.sizeFor p = 32 := by
  rw [Message.sizeFor, show Payload.words p = p.words from rfl, h]
  rfl

theorem question_words (tag : Tag) (clock : Clock) :
    (question tag clock).words = [32, 0, tag.id, 8, 8, clock.number, 0, 0] := by
  have hlength : [clock.number, 0].length < 2 ^ 29 := show 2 < 2 ^ 29 by decide
  calc (question tag clock).words
      = Message.sizeFor (Property.mk {} [clock.number, 0]) :: 0 ::
          ((Property.asking tag [clock.number, 0]).words ++ [0]) := rfl
    _ = 32 :: 0 :: ((Property.asking tag [clock.number, 0]).words ++ [0]) := by
      rw [sizeFor_of_length rfl]
    _ = [32, 0, tag.id, 8, 8, clock.number, 0, 0] := by
      rw [Property.asking_words tag hlength]
      rfl

/-- Asks for the rate of a clock that is on. -/
def rateIf (budget : Budget) (clock : Clock) (on : Bool) : Program MailboxPort UInt32 :=
  if on then
    (fun left => value left 1) <$> query budget .clockRate (.new { data := [clock.number, 0] })
  else pure 0

theorem clockRate_eq (budget : Budget) (clock : Clock) :
    clockRate budget clock =
      query budget .clockState (.new { data := [clock.number, 0] }) >>= fun state =>
        rateIf budget clock (ClockStateWord.on.isSet (value state 1)) := by
  refine congrArg (bind _) (funext fun state => ?_)
  by_cases h : ClockStateWord.on.isSet (value state 1) = true
  · refine (if_pos h).trans (Eq.trans ?_ (if_pos h).symm)
    rw [← query_again budget .clockRate state]
    rfl
  · exact (if_neg h).trans (if_neg h).symm

theorem on_isSet (word : UInt32) : ClockStateWord.on.isSet word = (word &&& 1 != 0) := rfl

/-- The second value word of an answer is word 6 of its message. -/
theorem value_refill {message : Message Property} (h : message.body.data.length = 2)
    {words : List UInt32} (hwords : words.length = 8) :
    value (message.refill words) 1 = words.getD 6 0 := by
  have hroom : (Payload.words message.body).length = 5 := by
    rw [show Payload.words message.body = message.body.words from rfl, Property.length_words, h]
  match words, hwords with
  | [_, _, _, _, _, _, _, _], _ =>
    rw [Message.refill, hroom]
    rfl

theorem value_question (tag : Tag) (clock : Clock)
    (v : Vector UInt32 (question tag clock).words.length) :
    value ((question tag clock).refill v.toList) 1 = v.toList.getD 6 0 :=
  value_refill rfl (v.length_toList.trans (congrArg List.length (question_words tag clock)))

theorem Conduct.value_eq {clock : Clock} {s : Stop (Message Property × Except Error Unit)}
    (h : Conduct (question tag clock) A s) {left : Message Property}
    (hs : s = .ended (.ok (left, .ok ()))) : value left 1 = left.words.getD 6 0 := by
  cases h with
  | unreachable | abandoned => cases hs
  | crowded addr full hs₀ =>
    rcases hs₀ with hs₀ | rfl
    · exact absurd hs (hs₀.ne_ok _)
    · cases hs
  | listening addr full others empties hs₀ => exact absurd hs (hs₀.ne_ok _)
  | answered x v =>
    cases hs
    rw [Message.words_refill _ _ v.length_toList]
    exact value_question tag clock v

theorem runs_question {clock : Clock} {s : Stop (Message Property)}
    (h : (query budget tag (.new { data := [clock.number, 0] }) limit).Runs T s) :
    Called [32, 0, tag.id, 8, 8, clock.number, 0, 0] T.accesses (s.map Message.words) ∧
      ∀ left, s = .ended (.ok left) → value left 1 = left.words.getD 6 0 := by
  obtain ⟨s₀, hconduct, rfl⟩ := runs_query h
  have hcalled : Called (question tag clock).words T.accesses _ := hconduct.called
  rw [question_words] at hcalled
  exact ⟨hcalled, fun left hleft => Conduct.value_eq hconduct (concluded_eq_ok hleft)⟩

/-! ## The question for a rate -/

/-- What is asked about the rate of a clock: a first call, and what is done once it ended. -/
structure Inquiry (clock : Clock) (A : List (Access MailboxPort)) (first : Stop (List UInt32))
    (B : List (Access MailboxPort)) (s : Stop UInt32) : Prop where
  asked : Called [32, 0, 0x00030001, 8, 8, clock.number, 0, 0] A first
  failed : ∀ s', first.early? = some s' → B = [] ∧ s = s'
  off : ∀ left, first = .ended (.ok left) → left.getD 6 0 &&& 1 = 0 → B = [] ∧ s = .ended (.ok 0)
  on : ∀ left, first = .ended (.ok left) → left.getD 6 0 &&& 1 ≠ 0 →
    ∃ second, Called [32, 0, 0x00030002, 8, 8, clock.number, 0, 0] B second ∧
      s = second.map fun left => left.getD 6 0

theorem runs_rateIf_true {clock : Clock} {s : Stop UInt32}
    (h : (rateIf budget clock true limit).Runs T s) :
    ∃ second, Called [32, 0, 0x00030002, 8, 8, clock.number, 0, 0] T.accesses second ∧
      s = second.map fun left => left.getD 6 0 := by
  obtain ⟨s₀, hT, rfl⟩ := runs_map.1 h
  obtain ⟨hcalled, hvalue⟩ := runs_question hT
  refine ⟨_, hcalled, ?_⟩
  rw [Stop.map_map]
  exact Stop.map_congr hvalue

theorem runs_clockRate {clock : Clock} {s : Stop UInt32}
    (h : (clockRate budget clock limit).Runs T s) :
    ∃ A first B, T.accesses = A ++ B ∧ Inquiry clock A first B s := by
  rw [clockRate_eq, bind_apply] at h
  rcases Tree.runs_bind.1 h with ⟨U, V, state, rfl, hU, hV⟩ | ⟨s₀, hT, hs⟩
  · obtain ⟨hcalled, hvalue⟩ := runs_question hU
    rw [on_isSet, hvalue state rfl] at hV
    refine ⟨U.accesses, _, V.accesses, accesses_append .., hcalled, ?_, ?_, ?_⟩
    · intro s' hs'
      cases hs'
    · intro left hleft hbit
      cases hleft
      rw [bne_eq_false_iff_eq.2 hbit] at hV
      obtain ⟨rfl, rfl⟩ := Tree.runs_halt.1 hV
      exact ⟨rfl, rfl⟩
    · intro left hleft hbit
      cases hleft
      rw [bne_iff_ne.2 hbit] at hV
      exact runs_rateIf_true hV
  · obtain ⟨hcalled, -⟩ := runs_question hT
    have hearly : (s₀.map Message.words).early? = some s := (s₀.early?_map _).trans hs
    have hne (left : List UInt32) : s₀.map Message.words ≠ .ended (.ok left) := by
      intro hleft
      rw [hleft] at hearly
      cases hearly
    refine ⟨T.accesses, _, [], (List.append_nil _).symm, hcalled, ?_, ?_, ?_⟩
    · intro s' hs'
      exact ⟨rfl, Option.some.inj (hearly.symm.trans hs')⟩
    · intro left hleft
      exact absurd hleft (hne left)
    · intro left hleft
      exact absurd hleft (hne left)

/-- The messages that the firmware was led to. -/
def sentMessages (A : List (Access MailboxPort)) : List (List UInt32) :=
  (handovers A).filterMap Prod.snd

theorem Posts.eq_of_mem {words message : List UInt32} (h : Posts words A)
    (hm : message ∈ sentMessages A) : message = words := by
  rw [sentMessages] at hm
  rcases h with ⟨-, hnone⟩ | ⟨-, addr, -, hone⟩
  · rw [hnone] at hm
    cases hm
  · rw [hone] at hm
    exact List.mem_singleton.1 hm

/-- If both first answers have the same to say about the clock, both are followed by the same
request. -/
def AskAlike (first : Stop (List UInt32)) (B : List (Access MailboxPort))
    (first' : Stop (List UInt32)) (B' : List (Access MailboxPort)) : Prop :=
  ∀ left left', first = .ended (.ok left) → first' = .ended (.ok left') →
    left.getD 6 0 &&& 1 = left'.getD 6 0 &&& 1 →
    (B = [] ↔ B' = []) ∧ ∀ m ∈ sentMessages B, ∀ m' ∈ sentMessages B', m = m'

theorem Inquiry.askAlike {clock : Clock} {first first' : Stop (List UInt32)}
    {A' B B' : List (Access MailboxPort)} {s s' : Stop UInt32} (h : Inquiry clock A first B s)
    (h' : Inquiry clock A' first' B' s') : AskAlike first B first' B' := by
  intro left left' hleft hleft' hbit
  by_cases hon : left.getD 6 0 &&& 1 = 0
  · obtain ⟨rfl, -⟩ := h.off left hleft hon
    obtain ⟨rfl, -⟩ := h'.off left' hleft' (hbit ▸ hon)
    exact ⟨Iff.rfl, fun m hm => nomatch hm⟩
  · obtain ⟨second, hcalled, -⟩ := h.on left hleft hon
    obtain ⟨second', hcalled', -⟩ := h'.on left' hleft' (hbit ▸ hon)
    constructor
    · obtain ⟨place, C, rfl⟩ := hcalled.begins
      obtain ⟨place', C', rfl⟩ := hcalled'.begins
      exact iff_of_false (List.cons_ne_nil _ _) (List.cons_ne_nil _ _)
    · intro m hm m' hm'
      exact (hcalled.posts.eq_of_mem hm).trans (hcalled'.posts.eq_of_mem hm').symm

/-! ## Other words in the answer -/

/-- Accesses that do not read a message back. -/
def Unread (A : List (Access MailboxPort)) : Prop := ∀ a ∈ A, ∀ size, a.request ≠ .collect size

theorem Silent.unread (h : Silent A) : Unread A := by
  intro a ha size hr
  rcases h a ha with h | h | h | h <;> cases h.symm.trans hr

theorem Unread.append {B : List (Access MailboxPort)} (hA : Unread A) (hB : Unread B) :
    Unread (A ++ B) := List.forall_mem_append.2 ⟨hA, hB⟩

theorem Unread.notMem (h : Unread A) {size : Nat} (v : Vector UInt32 size) : collected v ∉ A :=
  fun hv => h _ hv size rfl

/-- Every run reads the message back at its end, and could find any other words there, or does not
read it and fails. -/
def Rereads (message : Message β) (t : Tree MailboxPort (Message β × Except Error Unit)) : Prop :=
  ∀ T s, t.Runs T s →
    (Unread T.accesses ∧ ∀ left, s ≠ .ended (.ok (left, .ok ()))) ∨
      ∃ P echoed, ∃ v : Vector UInt32 message.words.length, Unread P ∧
        T.accesses = P ++ [collected v] ∧ s = .ended (.ok (message.refill v.toList, echoed)) ∧
        ∀ w : Vector UInt32 message.words.length, ∃ U : Transcript MailboxPort,
          t.Runs U (.ended (.ok (message.refill w.toList, echoed))) ∧
          U.accesses = P ++ [collected w]

theorem Rereads.bind {α : Type} {message : Message β} {t : Tree MailboxPort α}
    {f : α → Tree MailboxPort (Message β × Except Error Unit)}
    (ht : ∀ T s, t.Runs T s → Unread T.accesses) (hf : ∀ a, Rereads message (f a)) :
    Rereads message (t.bind f) := by
  intro T s h
  rcases Tree.runs_bind.1 h with ⟨U, V, a, rfl, hU, hV⟩ | ⟨s₀, hT, hs⟩
  · rcases hf a V s hV with ⟨hunread, hne⟩ | ⟨P, echoed, v, hP, hVa, rfl, hothers⟩
    · refine .inl ⟨?_, hne⟩
      rw [accesses_append]
      exact (ht U _ hU).append hunread
    · refine .inr ⟨U.accesses ++ P, echoed, v, (ht U _ hU).append hP, ?_, rfl, fun w => ?_⟩
      · rw [accesses_append, hVa, List.append_assoc]
      · obtain ⟨W, hW, hWa⟩ := hothers w
        refine ⟨U ++ W, hU.bind hW, ?_⟩
        rw [accesses_append, hWa, List.append_assoc]
  · refine .inl ⟨ht T _ hT, ?_⟩
    rintro left rfl
    exact s₀.early?_ne_ok _ hs

theorem Rereads.failed (message : Message β) (e : Error) :
    Rereads message (.halt (.ok (message, .error e))) := by
  intro T s h
  obtain ⟨rfl, rfl⟩ := Tree.runs_halt.1 h
  exact .inl ⟨List.forall_mem_nil _, fun left hs => nomatch hs⟩

theorem rereads_readBack (message : Message β) (echoed : Except Error Unit) (limit : Nat) :
    Rereads message (readBack message echoed limit) := by
  intro T s h
  obtain ⟨v, hT, rfl⟩ := runs_readBack h
  refine .inr ⟨[], echoed, v, List.forall_mem_nil _, hT, rfl, fun w => ?_⟩
  obtain ⟨U, hU, -, hUa⟩ := exists_runs_readBack echoed limit w
  exact ⟨U, hU, hUa⟩

theorem unread_deliver_post {word : UInt32} {words : List UInt32} {s : Stop Unit}
    (h : (deliver (post word words) limit).Runs T s) : Unread T.accesses := by
  have hsilent (full : Nat) : Unread (accesses (refusals full)) := by
    rw [accesses_refusals]
    exact (silent_fullPolls full).unread
  obtain ⟨full, ⟨-, rfl, -⟩ | ⟨-, ⟨rfl, -⟩ | ⟨U, rfl, hU⟩⟩⟩ := runs_deliver.1 h
  · exact hsilent full
  · rw [accesses_append]
    exact (hsilent full).append (silent_fullPolls 1).unread
  · obtain ⟨rfl, -⟩ := runs_post.1 hU
    rw [accesses_append]
    refine (hsilent full).append fun a ha size hr => ?_
    rcases List.mem_cons.1 ha with rfl | ha
    · cases hr
    · rw [List.mem_singleton.1 ha] at hr
      cases hr

theorem unread_awaitEcho {wanted : UInt32} {s : Stop Unit}
    (h : (awaitEcho wanted limit).Runs T s) : Unread T.accesses := by
  apply Silent.unread
  obtain ⟨others, -, ⟨waits, rfl, -⟩ | ⟨⟨empties, hT⟩, -, -⟩⟩ := runs_rounds_takeEcho h
  · simp
  · simp [hT]

theorem rereads_callMessage (budget : Budget) (message : Message β) (limit : Nat) :
    Rereads message (callMessage budget message limit) := by
  have hlocate T (s : Stop (Except Error UInt32)) (h : (busAddress limit).Runs T s) :
      Unread T.accesses := by
    obtain ⟨place, U, rfl, hU⟩ := Tree.runs_request.1 h
    obtain ⟨rfl, -⟩ := Tree.runs_halt.1 hU
    exact Silent.unread (by simp [Idle])
  refine Rereads.bind hlocate fun place => ?_
  cases place with
  | error e => exact Rereads.failed message e
  | ok addr =>
    refine Rereads.bind (fun T s h => ?_) fun posted => ?_
    · obtain ⟨s₀, b, hpost, -⟩ := Tree.runs_metered.1 h
      exact unread_deliver_post hpost
    · obtain ⟨result, left⟩ := posted
      cases result with
      | error e => exact Rereads.failed message e
      | ok u =>
        refine Rereads.bind (fun T s h => ?_) fun x => rereads_readBack message x.1 limit
        obtain ⟨s₀, b, hecho, -⟩ := Tree.runs_metered.1 h
        exact unread_awaitEcho hecho

theorem clockRate_apply (budget : Budget) (clock : Clock) (limit : Nat) :
    clockRate budget clock limit =
      (callMessage budget (question .clockState clock) limit).bind fun x =>
        (settle .clockState x).bind fun state =>
          rateIf budget clock (ClockStateWord.on.isSet (value state 1)) limit := by
  rw [clockRate_eq, bind_apply, query_apply, Tree.bind_assoc]
  rfl

/-- Two splits of a list are the same if neither has its element in front of the other one. -/
theorem parts_eq_of_notMem {α : Type} {P B P' B' : List α} {a a' : α}
    (h : P ++ a :: B = P' ++ a' :: B') (hP : a' ∉ P) (hP' : a ∉ P') :
    P = P' ∧ a = a' ∧ B = B' := by
  rcases List.append_eq_append_iff.1 h with ⟨_ | ⟨c, C⟩, rfl, hC⟩ | ⟨_ | ⟨c, C⟩, rfl, hC⟩
  · obtain ⟨rfl, rfl⟩ := List.cons.inj hC
    simp
  · obtain ⟨rfl, -⟩ := List.cons.inj hC
    exact absurd (by simp) hP'
  · obtain ⟨rfl, rfl⟩ := List.cons.inj hC
    simp
  · obtain ⟨rfl, -⟩ := List.cons.inj hC
    exact absurd (by simp) hP

/-- What comes behind the first call goes by the bit that says whether the clock is on, and by
whether the call succeeded. -/
theorem runs_settle_reread {clock : Clock} {echoed : Except Error Unit} {s : Stop UInt32}
    {v : Vector UInt32 (question .clockState clock).words.length}
    (h : ((settle .clockState ((question .clockState clock).refill v.toList, echoed)).bind
      fun state => rateIf budget clock (ClockStateWord.on.isSet (value state 1)) limit).Runs T s)
    (w : Vector UInt32 (question .clockState clock).words.length)
    (hbit : v.toList.getD 6 0 &&& 1 = w.toList.getD 6 0 &&& 1) :
    ∃ U : Transcript MailboxPort,
      ((settle .clockState ((question .clockState clock).refill w.toList, echoed)).bind
        fun state => rateIf budget clock (ClockStateWord.on.isSet (value state 1)) limit).Runs U s ∧
      U.accesses = T.accesses := by
  cases echoed with
  | error e => exact ⟨T, h, rfl⟩
  | ok u =>
    obtain ⟨V, rfl, hV⟩ := Tree.runs_report.1 h
    refine ⟨_, Tree.runs_report.2 ⟨V, rfl, ?_⟩, rfl⟩
    rw [Tree.bind, on_isSet, value_question, hbit] at hV
    rwa [Tree.bind, on_isSet, value_question]

/-- The firmware could have left other words in the first message. If they say the same about the
clock, the run goes on as it did. -/
theorem runs_clockRate_reread {clock : Clock} {s : Stop UInt32} {size : Nat}
    {v : Vector UInt32 size} {P B : List (Access MailboxPort)}
    (h : (clockRate budget clock limit).Runs T s) (hT : T.accesses = P ++ collected v :: B)
    (hP : Unread P) (w : Vector UInt32 size)
    (hbit : v.toList.getD 6 0 &&& 1 = w.toList.getD 6 0 &&& 1) :
    ∃ U : Transcript MailboxPort, (clockRate budget clock limit).Runs U s ∧
      U.accesses = P ++ collected w :: B := by
  have hread : collected v ∈ T.accesses := by simp [hT]
  rw [clockRate_apply] at h ⊢
  rcases Tree.runs_bind.1 h with ⟨U, V, ⟨left, echoed⟩, rfl, hU, hV⟩ | ⟨s₀, hrun, hs⟩
  · rcases rereads_callMessage budget _ limit U _ hU with
      ⟨hunread, hfailed⟩ | ⟨P', echoed, v', hP', hUa, hx, hothers⟩
    · -- a call that failed without an answer is all there is
      cases echoed with
      | ok u => exact absurd rfl (hfailed left)
      | error e =>
        obtain ⟨rfl, -⟩ := Tree.runs_halt.1 hV
        rw [List.append_nil] at hread
        exact absurd hread (hunread.notMem v)
    · cases hx
      rw [accesses_append, hUa, List.append_assoc, List.singleton_append] at hT
      obtain ⟨rfl, heq, rfl⟩ := parts_eq_of_notMem hT (hP'.notMem v) (hP.notMem v')
      cases heq
      obtain ⟨U', hU', hUa'⟩ := hothers w
      obtain ⟨V', hV', hVa'⟩ := runs_settle_reread hV w hbit
      refine ⟨U' ++ V', hU'.bind hV', ?_⟩
      rw [accesses_append, hUa', hVa', List.append_assoc, List.singleton_append]
  · rcases rereads_callMessage budget _ limit T _ hrun with ⟨hunread, -⟩ | ⟨_, _, _, -, -, rfl, -⟩
    · exact absurd hread (hunread.notMem v)
    · cases hs

/-- Whatever the firmware leaves in the first message, the second one is made afresh. All that a run
takes from the first answer is whether the clock is on: two runs to which it says the same ask for
the same rate, and a run goes on as it did if the answer is replaced by another one that says the
same. -/
theorem clockRate_asks_afresh (clock : Clock) :
    (∀ budget limit T s, (clockRate budget clock limit).Runs T s →
      ∃ A first B, T.accesses = A ++ B ∧ Inquiry clock A first B s) ∧
    (∀ budget limit T s budget' limit' T' s', (clockRate budget clock limit).Runs T s →
      (clockRate budget' clock limit').Runs T' s' →
      ∃ A first B A' first' B', T.accesses = A ++ B ∧ T'.accesses = A' ++ B' ∧
        Inquiry clock A first B s ∧ Inquiry clock A' first' B' s' ∧
        AskAlike first B first' B') ∧
    ∀ budget limit T s size P B, ∀ v w : Vector UInt32 size,
      (clockRate budget clock limit).Runs T s → T.accesses = P ++ collected v :: B → Unread P →
      v.toList.getD 6 0 &&& 1 = w.toList.getD 6 0 &&& 1 →
      ∃ U : Transcript MailboxPort, (clockRate budget clock limit).Runs U s ∧
        U.accesses = P ++ collected w :: B := by
  refine ⟨?_, ?_, ?_⟩
  · intro budget limit T s h
    exact runs_clockRate h
  · intro budget limit T s budget' limit' T' s' h h'
    obtain ⟨A, first, B, hT, hinquiry⟩ := runs_clockRate h
    obtain ⟨A', first', B', hT', hinquiry'⟩ := runs_clockRate h'
    exact ⟨A, first, B, A', first', B', hT, hT', hinquiry, hinquiry', hinquiry.askAlike hinquiry'⟩
  · intro budget limit T s size P B v w h hT hP hbit
    exact runs_clockRate_reread h hT hP w hbit

/-- Firmware that answers at once, and leaves these words in the first message and others in all
behind it. -/
def rewriting (first others : Vector UInt32 8) : Behaviour MailboxPort
  | past, .collect _ =>
    Vector.ofFn fun i => (if past.length < 6 then first else others).toList.getD i 0
  | past, r => readyPort past r

/-- An answer that says no more than that the clock is on. -/
def scrawled : Vector UInt32 8 := #v[9, 9, 9, 9, 9, 9, 0xFF, 9]

def proper : Vector UInt32 8 := #v[32, 0x80000000, 0x00030001, 8, 0x80000008, 4, 1, 0]

def proper250MHz : Vector UInt32 8 :=
  #v[32, 0x80000000, 0x00030002, 8, 0x80000008, 4, 250000000, 0]

theorem clockRate_asks_afresh_rewriting :
    ((clockRate .unlimited .core).record (rewriting scrawled proper250MHz) 1).outcome =
      .ok 250000000 ∧
    (∃ A first B, ((clockRate .unlimited .core).record
        (rewriting scrawled proper250MHz) 1).transcript.accesses = A ++ B ∧
      Inquiry .core A first B (.ended (.ok 250000000))) ∧
    (∃ A first B A' first' B', ((clockRate .unlimited .core).record
        (rewriting scrawled proper250MHz) 1).transcript.accesses = A ++ B ∧
      ((clockRate .unlimited .core).record
        (rewriting proper scrawled) 1).transcript.accesses = A' ++ B' ∧
      Inquiry .core A first B (.ended (.ok 250000000)) ∧
      Inquiry .core A' first' B' (.ended (.ok 0xFF)) ∧ AskAlike first B first' B') ∧
    ∃ U : Transcript MailboxPort, (clockRate .unlimited .core 1).Runs U (.ended (.ok 250000000)) ∧
      collected proper ∈ U.accesses := by
  obtain ⟨hone, htwo, hswap⟩ := clockRate_asks_afresh .core
  have hrun := Tree.runs_record (rewriting scrawled proper250MHz) (clockRate .unlimited .core 1) []
  have hrun' := Tree.runs_record (rewriting proper scrawled) (clockRate .unlimited .core 1) []
  refine ⟨rfl, hone _ _ _ _ hrun, htwo _ _ _ _ _ _ _ _ hrun hrun', ?_⟩
  have hunread : Unread [located 0x10, fullPoll false,
      posted 0x18 [32, 0, 0x00030001, 8, 8, 4, 0, 0], emptyPoll false, taken 0x18] := by
    rintro a ha size hcollect
    simp only [List.mem_cons, List.not_mem_nil, or_false] at ha
    rcases ha with rfl | rfl | rfl | rfl | rfl <;> cases hcollect
  obtain ⟨U, hU, hUa⟩ := hswap _ _ _ _ 8 _ (((clockRate .unlimited .core).record
    (rewriting scrawled proper250MHz) 1).transcript.accesses.drop 6) scrawled proper hrun rfl
      hunread rfl
  refine ⟨U, hU, ?_⟩
  rw [hUa]
  simp

end Mailbox

end Bcm2835
