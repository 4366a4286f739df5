import Bcm2835.Proofs.Behaviour
import Bcm2835.Proofs.Mailbox.Request
import Bcm2835.Simulation.Firmware

/-! A firmware that answers messages in place. Its walk over the words of a message answers the tags
one after another (`answerTags_message`), for any way of answering one tag. A call that is served by
such a firmware and is echoed hands back the answered message, and leaves the firmware in the state
behind it (`serves_callMessage`). -/

namespace Bcm2835

open Program Transcript Simulation

variable {σ : Type} {handle : TagHandler σ}

/-! ## The walk over the tags -/

@[simp] theorem length_overlay (response room : List UInt32) :
    (overlay response room).length = room.length := by
  induction response generalizing room with
  | nil => cases room <;> rfl
  | cons w ws ih =>
    cases room with
    | nil => rfl
    | cons r rs => rw [overlay, List.length_cons, ih, List.length_cons]

/-- The tag with a response over its first values. -/
def Property.answered (p : Property) (response : List UInt32) : Property :=
  ⟨⟨p.header.id, p.header.size, TagStatus.response.mask ||| UInt32.ofNat (4 * response.length)⟩,
    overlay response p.data⟩

/-- Tags answered in order. -/
def answerEach (handle : TagHandler σ) : σ → List Property → σ × List Property
  | s, [] => (s, [])
  | s, p :: ps =>
    let (s, response) := handle s p.header.id p.data
    let (s, answers) := answerEach handle s ps
    (s, p.answered response :: answers)

theorem map_length_answerEach (handle : TagHandler σ) (s : σ) (ps : List Property) :
    (answerEach handle s ps).2.map (·.data.length) = ps.map (·.data.length) := by
  induction ps generalizing s with
  | nil => rfl
  | cons p ps ih =>
    simp only [answerEach, List.map_cons, ih, Property.answered, length_overlay]

theorem answerTags_words (s : σ) {p : Property} (hp : p.Sized) (rest : List UInt32) :
    answerTags handle s (p.words ++ rest) =
      let (s, response) := handle s p.header.id p.data
      let (s, behind) := answerTags handle s rest
      (s, (p.answered response).words ++ behind) := by
  have hroom : p.header.size.toNat / 4 = p.data.length := by
    rw [hp.size_eq]
    omega
  simp only [Property.words, List.cons_append]
  rw [answerTags, if_neg hp.id_ne]
  simp only [hroom, List.take_left', List.drop_left', Property.answered]

/-- The walk over the tags of a message is one answer after another. -/
theorem answerTags_message (handle : TagHandler σ) (s : σ) {ps : List Property}
    (hs : ∀ p ∈ ps, p.Sized) :
    answerTags handle s (ps.flatMap Property.words ++ [0]) =
      ((answerEach handle s ps).1, (answerEach handle s ps).2.flatMap Property.words ++ [0]) := by
  induction ps generalizing s with
  | nil => simp [answerEach, answerTags]
  | cons p ps ih =>
    have hp : p.Sized := hs p List.mem_cons_self
    have hps : ∀ q ∈ ps, q.Sized := fun q hq => hs q (List.mem_cons_of_mem _ hq)
    rw [List.flatMap_cons, List.append_assoc, answerTags_words s hp]
    simp only [ih _ hps, answerEach, List.flatMap_cons, List.append_assoc]

/-! ## Messages -/

theorem length_flatMap_answerEach (handle : TagHandler σ) (s : σ) (ps : List Property) :
    ((answerEach handle s ps).2.flatMap Property.words).length =
      (ps.flatMap Property.words).length := by
  rw [Property.length_flatMap_words, Property.length_flatMap_words, map_length_answerEach]

theorem Property.refillAll_words {ps qs : List Property}
    (h : qs.map (·.data.length) = ps.map (·.data.length)) :
    Property.refillAll ps (qs.flatMap Property.words) = qs := by
  induction ps generalizing qs with
  | nil => rw [List.map_eq_nil_iff.1 h, Property.refillAll]
  | cons p ps ih =>
    obtain ⟨q, qs, rfl, hq, hqs⟩ := List.map_eq_cons_iff.1 h
    have hlength : p.words.length = q.words.length := by
      rw [Property.length_words, Property.length_words, hq]
    rw [Property.refillAll, List.flatMap_cons, List.take_left' hlength.symm,
      List.drop_left' hlength.symm, ih hqs]
    rfl

/-- Words of a message of the same shape are read back as that message. -/
theorem Message.refill_words {β : Type} [Payload β] {m m' : Message β}
    (hlength : (Payload.words m'.body).length = (Payload.words m.body).length)
    (hbody : Payload.refill m.body (Payload.words m'.body) = m'.body) : m.refill m'.words = m' := by
  rw [Message.words, Message.refill, List.take_left' hlength, hbody, ← hlength]
  simp

/-- A firmware with a state and the buffer of the message at hand. -/
structure Responder (σ : Type) where
  state : σ
  memory : List UInt32

namespace Responder

/-- Answers a message in place. -/
def answer (handle : TagHandler σ) (code : UInt32) (f : Responder σ) : List UInt32 → Responder σ
  | size :: _ :: tags =>
    let (state, tags) := answerTags handle f.state tags
    ⟨state, size :: code :: tags⟩
  | message => ⟨f.state, message⟩

variable {f f' : Responder σ} {code : UInt32}

theorem answer_requests {m : Message (List Property)} (hs : ∀ p ∈ m.body, p.Sized)
    (hend : m.endTag = 0) :
    f.answer handle code m.words =
      ⟨(answerEach handle f.state m.body).1,
        Message.words { m with code, body := (answerEach handle f.state m.body).2 }⟩ := by
  have hwalk := answerTags_message handle f.state hs
  simp only [Message.words, Payload.words, hend, answer, hwalk]

theorem answer_request {m : Message Property} (hs : m.body.Sized) (hend : m.endTag = 0) :
    f.answer handle code m.words =
      ⟨(handle f.state m.body.header.id m.body.data).1,
        Message.words { m with
          code, body := m.body.answered (handle f.state m.body.header.id m.body.data).2 }⟩ := by
  have hwalk := answerTags_message handle f.state (List.forall_mem_singleton.2 hs)
  simp only [List.flatMap_singleton, answerEach] at hwalk
  simp only [Message.words, Payload.words, hend, answer, hwalk]

/-- The answered tags are read back as they are. -/
theorem refill_answer_requests {m : Message (List Property)} (hs : ∀ p ∈ m.body, p.Sized)
    (hend : m.endTag = 0) :
    m.refill (f.answer handle code m.words).memory =
      { m with code, body := (answerEach handle f.state m.body).2 } := by
  rw [answer_requests hs hend]
  apply Message.refill_words
  · apply length_flatMap_answerEach
  · apply Property.refillAll_words
    apply map_length_answerEach

theorem refill_answer_request {m : Message Property} (hs : m.body.Sized) (hend : m.endTag = 0) :
    m.refill (f.answer handle code m.words).memory =
      { m with code, body := m.body.answered (handle f.state m.body.header.id m.body.data).2 } := by
  rw [answer_request hs hend]
  apply Message.refill_words
  · simp [Payload.words, Property.answered]
  · rfl

theorem length_answer_requests {m : Message (List Property)} (hs : ∀ p ∈ m.body, p.Sized)
    (hend : m.endTag = 0) : (f.answer handle code m.words).memory.length = m.words.length := by
  have hbody := length_flatMap_answerEach handle f.state m.body
  rw [answer_requests hs hend]
  simpa [Message.words, Payload.words] using hbody

theorem length_answer_request {m : Message Property} (hs : m.body.Sized) (hend : m.endTag = 0) :
    (f.answer handle code m.words).memory.length = m.words.length := by
  rw [answer_request hs hend]
  simp [Message.words, Payload.words, Property.answered]

/-- What a firmware that answers messages does at an access. The code of an answer is any. -/
def Step (handle : TagHandler σ) (f : Responder σ) : Access MailboxPort → Responder σ → Prop
  | ⟨.post _ message, _⟩, f' => ∃ code, f' = f.answer handle code message
  | ⟨.collect _, v⟩, f' => v.toList = f.memory ∧ f' = f
  | _, f' => f' = f

/-- The accesses are those of a firmware that answers messages. -/
abbrev Serves (handle : TagHandler σ) :
    Responder σ → List (Access MailboxPort) → Responder σ → Prop := Steps (Step handle)

end Responder

namespace Mailbox

open MailboxPort

variable {f f' : Responder σ}

theorem serves_of_silent {A : List (Access MailboxPort)} (h : Silent A) :
    f.Serves handle A f' ↔ f' = f := by
  apply steps_of_idle
  intro a ha m
  obtain ⟨r, v⟩ := a
  rcases h _ ha with h | h | h | h <;> cases h <;> rfl

theorem serves_exchange {x : Traffic} {words : List UInt32} :
    f.Serves handle (x.exchange words) f' ↔ ∃ code, f' = f.answer handle code words := by
  obtain ⟨A, B, hx, hA, hB⟩ := x.exchange_eq words
  rw [hx, Responder.Serves, steps_append]
  constructor
  · rintro ⟨g, hg, m, ⟨code, hm⟩, hf⟩
    obtain rfl := (serves_of_silent hA).1 hg
    obtain rfl := (serves_of_silent hB).1 hf
    exact ⟨code, hm⟩
  · rintro ⟨code, rfl⟩
    exact ⟨f, (serves_of_silent hA).2 rfl, _, ⟨code, rfl⟩, (serves_of_silent hB).2 rfl⟩

variable {β : Type} [Payload β] {budget : Budget} {limit : Nat} {message : Message β}
  {T : Transcript MailboxPort}

/-- A call that succeeds leaves the message as the firmware answered it. -/
theorem serves_callMessage {left : Message β}
    (hT : (callMessage budget message limit).Runs T (.ended (.ok (left, .ok ()))))
    (hf : f.Serves handle T.accesses f') :
    ∃ code, f' = f.answer handle code message.words ∧ left = message.refill f'.memory := by
  have hconduct := runs_callMessage hT
  generalize hs : Stop.ended (Outcome.ok (left, Except.ok ())) = s at hconduct
  generalize hA : T.accesses = A at hf hconduct
  cases hconduct with
  | unreachable | abandoned => cases hs
  | crowded addr full h =>
    rcases h with h | rfl
    · exact absurd hs.symm (h.ne_ok _)
    · cases hs
  | listening addr full others empties h => exact absurd hs.symm (h.ne_ok _)
  | answered x v =>
    cases hs
    obtain ⟨g, hg, hcollect⟩ := steps_append.1 hf
    obtain ⟨code, rfl⟩ := serves_exchange.1 hg
    obtain ⟨hv, rfl⟩ := steps_singleton.1 hcollect
    exact ⟨code, rfl, by rw [hv]⟩

/-- In any traffic there is a call that succeeds. -/
theorem exists_serves_callMessage {left : Budget} (x : Traffic) (code : UInt32)
    (hlength : (f.answer handle code message.words).memory.length = message.words.length)
    (hb : budget.spend? x.cost = some left) (hl : x.cost < limit) :
    ∃ T : Transcript MailboxPort,
      (callMessage budget message limit).Runs T
        (.ended (.ok (message.refill (f.answer handle code message.words).memory, .ok ()))) ∧
      f.Serves handle T.accesses (f.answer handle code message.words) := by
  obtain ⟨T, hT, -, hA⟩ := exists_runs_callMessage x
    ⟨(f.answer handle code message.words).memory.toArray, hlength⟩ hb hl
  refine ⟨T, hT, ?_⟩
  rw [hA]
  exact steps_append.2 ⟨_, serves_exchange.2 ⟨code, rfl⟩, steps_singleton.2 ⟨rfl, rfl⟩⟩

end Mailbox

end Bcm2835
