import Bcm2835.Proofs.Mailbox.Service

/-! One call with many tags and many calls with one tag. A firmware that answers tags in order does
the same in both: the tags end up with the headers and data of its answers in order, and the
firmware in the same state (`multi_eq_singles`). -/

namespace Bcm2835

open Program Transcript Simulation

namespace Mailbox

open MailboxPort

variable {σ : Type} {handle : TagHandler σ} {f f' g g' : Responder σ} {budget : Budget}
  {limit : Nat} {T : Transcript MailboxPort}

theorem serves_propertyCallMulti {message left : Message (List Property)}
    (hs : ∀ p ∈ message.body, p.Sized)
    (hT : (propertyCallMulti budget message limit).Runs T (.ended (.ok (left, .ok ()))))
    (hf : f.Serves handle T.accesses f') :
    (f'.state, left.body) = answerEach handle f.state message.body := by
  obtain ⟨code, rfl, rfl⟩ := serves_callMessage hT hf
  have hs' : ∀ p ∈ message.resetHeader.body, p.Sized := hs
  rw [Responder.refill_answer_requests hs' rfl, Responder.answer_requests hs' rfl]
  rfl

theorem serves_propertyCall {tag : Tag} {message left : Message Property}
    (hlength : message.body.data.length < 2 ^ 30)
    (hT : (propertyCall budget tag message limit).Runs T (.ended (.ok (left, .ok ()))))
    (hf : f.Serves handle T.accesses f') :
    f'.state = (handle f.state tag.id message.body.data).1 ∧
      left.body = (Property.asking tag message.body.data).answered
        (handle f.state tag.id message.body.data).2 := by
  rw [propertyCall_apply] at hT
  obtain ⟨U, V, x, rfl, hU, hV⟩ := Tree.runs_bind_ok.1 hT
  obtain ⟨hsilent, hx⟩ := runs_announce hV
  cases hx
  rw [accesses_append, hsilent, List.append_nil] at hf
  have hs : (requestFor tag message).body.Sized := Property.asking_sized tag hlength
  obtain ⟨code, rfl, rfl⟩ := serves_callMessage hU hf
  rw [Responder.refill_answer_request hs rfl, Responder.answer_request hs rfl]
  exact ⟨rfl, rfl⟩

/-- Calls with one tag each, every one with a message of its own, that all succeed: the firmware
goes from the one state to the other, and these are the answered tags. -/
inductive Singles (handle : TagHandler σ) :
    Responder σ → List (Tag × List UInt32) → List Property → Responder σ → Prop
  | nil (f : Responder σ) : Singles handle f [] [] f
  | cons {f f' f'' : Responder σ} {tag : Tag} {data : List UInt32} {budget : Budget} {limit : Nat}
    {T : Transcript MailboxPort} {left : Message Property} {calls : List (Tag × List UInt32)}
    {answers : List Property}
    (call : (propertyCall budget tag (.new { data }) limit).Runs T (.ended (.ok (left, .ok ()))))
    (served : f.Serves handle T.accesses f') (rest : Singles handle f' calls answers f'') :
      Singles handle f ((tag, data) :: calls) (left.body :: answers) f''

theorem Singles.answerEach_eq {calls : List (Tag × List UInt32)} {answers : List Property}
    (h : Singles handle f calls answers f') (hlength : ∀ c ∈ calls, c.2.length < 2 ^ 30) :
    (f'.state, answers) =
      answerEach handle f.state (calls.map fun c => Property.asking c.1 c.2) := by
  induction h with
  | nil f => rfl
  | cons call served rest ih =>
    obtain ⟨hstate, hbody⟩ := serves_propertyCall (hlength _ List.mem_cons_self) call served
    have hrest := ih fun c hc => hlength c (List.mem_cons_of_mem _ hc)
    rw [hstate] at hrest
    rw [List.map_cons, answerEach, hbody]
    exact congrArg (fun x => (x.1, _ :: x.2)) hrest

/-! ## Calls that succeed -/

theorem exists_serves_propertyCallMulti {left : Budget} (x : Traffic) (code : UInt32)
    {message : Message (List Property)} (hs : ∀ p ∈ message.body, p.Sized)
    (hb : budget.spend? x.cost = some left) (hl : x.cost < limit) :
    ∃ T : Transcript MailboxPort, ∃ answer f',
      (propertyCallMulti budget message limit).Runs T (.ended (.ok (answer, .ok ()))) ∧
      f.Serves handle T.accesses f' := by
  have hlength : (f.answer handle code message.resetHeader.words).memory.length = _ :=
    Responder.length_answer_requests hs rfl
  obtain ⟨T, hT, hf⟩ := exists_serves_callMessage x code hlength hb hl
  exact ⟨T, _, _, hT, hf⟩

theorem exists_serves_propertyCall {left : Budget} (x : Traffic) (code : UInt32) (tag : Tag)
    {message : Message Property} (hlength : message.body.data.length < 2 ^ 30)
    (hb : budget.spend? x.cost = some left) (hl : x.cost < limit) :
    ∃ T : Transcript MailboxPort, ∃ answer f',
      (propertyCall budget tag message limit).Runs T (.ended (.ok (answer, .ok ()))) ∧
      f.Serves handle T.accesses f' := by
  have hs : (requestFor tag message).body.Sized := Property.asking_sized tag hlength
  have hmemory : (f.answer handle code (requestFor tag message).words).memory.length = _ :=
    Responder.length_answer_request hs rfl
  obtain ⟨T, hT, hf⟩ := exists_serves_callMessage x code hmemory hb hl
  generalize (requestFor tag message).refill _ = answer at hT
  obtain ⟨U, hU, hsilent⟩ := exists_runs_announce tag (answer, .ok ())
  refine ⟨T ++ U, answer, f.answer handle code (requestFor tag message).words, ?_, ?_⟩
  · rw [propertyCall_apply]
    exact hT.bind hU
  · rw [accesses_append, hsilent, List.append_nil]
    exact hf

/-- In any traffic all the calls with one tag each may succeed. -/
theorem exists_singles (handle : TagHandler σ) (x : Traffic) (code : UInt32)
    (calls : List (Tag × List UInt32)) (hlength : ∀ c ∈ calls, c.2.length < 2 ^ 30)
    (f : Responder σ) :
    ∃ answers f', Singles handle f calls answers f' := by
  induction calls generalizing f with
  | nil => exact ⟨[], f, .nil f⟩
  | cons c calls ih =>
    have hdata : (Message.new { data := c.2 } : Message Property).body.data.length < 2 ^ 30 :=
      hlength c List.mem_cons_self
    obtain ⟨T, answer, f', hT, hf⟩ := exists_serves_propertyCall x code c.1 hdata
      (Budget.spend?_unlimited x.cost) (Nat.lt_succ_self x.cost)
    obtain ⟨answers, f'', hrest⟩ := ih (fun d hd => hlength d (List.mem_cons_of_mem _ hd)) f'
    exact ⟨_, f'', .cons hT hf hrest⟩

/-! ## Many tags and one tag -/

/-- A call with many tags does what calls with one tag each do, on a firmware in the same state: in
both the tags are answered in order. -/
theorem multi_eq_singles (handle : TagHandler σ) (n : Nat) (calls : List (Tag × List UInt32))
    (message left : Message (List Property)) (answers : List Property) (f f' g g' : Responder σ)
    (budget : Budget) (limit : Nat) (T : Transcript MailboxPort) (hn : n < 2 ^ 30)
    (hlength : ∀ c ∈ calls, c.2.length = n)
    (hbody : message.body = calls.map fun c => ⟨TagHeader.request c.1 (UInt32.ofNat (4 * n)), c.2⟩)
    (hstate : f.state = g.state)
    (hT : (propertyCallMulti budget message limit).Runs T (.ended (.ok (left, .ok ()))))
    (hf : f.Serves handle T.accesses f') (hsingles : Singles handle g calls answers g') :
    left.body = answers ∧ f'.state = g'.state ∧
      (f'.state, left.body) = answerEach handle f.state message.body := by
  have hasked : message.body = calls.map fun c => Property.asking c.1 c.2 := by
    rw [hbody]
    apply List.map_congr_left
    intro c hc
    rw [Property.asking, hlength c hc]
  have hsized : ∀ p ∈ message.body, p.Sized := by
    intro p hp
    rw [hasked] at hp
    obtain ⟨c, hc, rfl⟩ := List.mem_map.1 hp
    exact Property.asking_sized c.1 (hlength c hc ▸ hn)
  have hmulti := serves_propertyCallMulti hsized hT hf
  have hrow := hsingles.answerEach_eq fun c hc => hlength c hc ▸ hn
  have hsame : (f'.state, left.body) = (g'.state, answers) := by
    rw [hmulti, hrow, hasked, hstate]
  obtain ⟨hs, hb⟩ := Prod.mk.inj hsame
  exact ⟨hb, hs, hmulti⟩

/-- Sets the rate of a clock and asks for it. -/
def setAndAsk : List (Tag × List UInt32) := [(.setClockRate, [4, 700, 0]), (.clockRate, [4, 0, 0])]

def setAndAskMessage : Message (List Property) :=
  .new (setAndAsk.map fun c => ⟨TagHeader.request c.1 (UInt32.ofNat (4 * 3)), c.2⟩)

theorem multi_eq_singles_setAndAsk :
    ∃ T : Transcript MailboxPort, ∃ left f' answers g',
      (propertyCallMulti .unlimited setAndAskMessage 1).Runs T (.ended (.ok (left, .ok ()))) ∧
      Responder.Serves (ClockBank.handler 7) ⟨{}, []⟩ T.accesses f' ∧
      Singles (ClockBank.handler 7) ⟨{}, [9]⟩ setAndAsk answers g' ∧
      left.body = answers ∧ f'.state = g'.state ∧
      (f'.state, left.body) = answerEach (ClockBank.handler 7) {} setAndAskMessage.body := by
  let quiet : Traffic := ⟨0x10, 0, [], 0, by simp⟩
  have hlength : ∀ c ∈ setAndAsk, c.2.length = 3 := by decide
  have hsized : ∀ p ∈ setAndAskMessage.body, p.Sized := by
    intro p hp
    obtain ⟨c, hc, rfl⟩ := List.mem_map.1 hp
    have hasked : (Property.asking c.1 c.2).Sized :=
      Property.asking_sized c.1 (hlength c hc ▸ by decide)
    rwa [Property.asking, hlength c hc] at hasked
  obtain ⟨T, left, f', hT, hf⟩ := exists_serves_propertyCallMulti quiet 0 hsized
    (Budget.spend?_unlimited quiet.cost) (show quiet.cost < 1 by decide)
  obtain ⟨answers, g', hsingles⟩ := exists_singles (ClockBank.handler 7) quiet 0 setAndAsk
    (fun c hc => hlength c hc ▸ by decide) ⟨{}, [9]⟩
  have hmulti := multi_eq_singles (ClockBank.handler 7) 3 setAndAsk setAndAskMessage left answers
    ⟨{}, []⟩ f' ⟨{}, [9]⟩ g' .unlimited 1 T (by decide) hlength rfl rfl hT hf hsingles
  exact ⟨T, left, f', answers, g', hT, hf, hsingles, hmulti⟩

end Mailbox

end Bcm2835
