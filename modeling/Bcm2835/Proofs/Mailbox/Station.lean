import Bcm2835.Proofs.Mailbox.Service

/-! A firmware as a device. It answers every message in place and echoes its word once, and around
each message it shows the polls and the words of others that a script has for it (`Traffic`). On
this device a query that may wait as long as it takes ends with the answered message
(`completes_query`). -/

namespace Bcm2835

open Program Transcript Simulation

namespace Mailbox

open MailboxPort

/-- A firmware between two accesses. -/
structure Station (σ : Type) where
  responder : Responder σ
  /-- Words that were written to it. -/
  posts : Nat
  /-- Polls since the last write that found no room. -/
  refused : Nat
  /-- The words that are to come, each after the polls that still find none. -/
  incoming : List Arrival

namespace Station

variable {σ : Type} (handle : TagHandler σ) (traffic : Nat → Traffic) (code : Nat → UInt32)

/-- The station when nothing is on its way. -/
def ready (f : Responder σ) (posts : Nat) : Station σ := ⟨f, posts, 0, []⟩

/-- Takes a word. It is echoed when the words of others have come. -/
def take (s : Station σ) (word : UInt32) : Station σ where
  responder := s.responder
  posts := s.posts + 1
  refused := 0
  incoming := s.incoming ++ ((traffic s.posts).others ++ [⟨(traffic s.posts).waits, word⟩])

def respond : (r : MailboxPort.Request) → Station σ → Option (MailboxPort.Answer r × Station σ)
  | .isFull, s =>
    if s.refused < (traffic s.posts).full then some (true, { s with refused := s.refused + 1 })
    else some (false, s)
  | .isEmpty, s =>
    match s.incoming with
    | [] => some (true, s)
    | ⟨0, _⟩ :: _ => some (false, s)
    | ⟨waits + 1, word⟩ :: rest => some (true, { s with incoming := ⟨waits, word⟩ :: rest })
  | .read, s =>
    match s.incoming with
    | [] => some ((0 : UInt32), s)
    | a :: rest => some (a.word, { s with incoming := rest })
  | .write word, s => some ((), s.take traffic word)
  | .busAddress, s => some (.ok (traffic s.posts).addr, s)
  | .post word message, s =>
    some ((), { s.take traffic word with
      responder := s.responder.answer handle (code s.posts) message })
  | .collect size, s =>
    some (Vector.ofFn fun i : Fin size => s.responder.memory.getD i.val 0, s)

def device : Device MailboxPort (Station σ) := ⟨respond handle traffic code⟩

/-- The accesses are those of this firmware. -/
abbrev Serves : Station σ → List (Access MailboxPort) → Station σ → Prop :=
  Steps (device handle traffic code).Step

variable {handle traffic code} {f : Responder σ} {n : Nat} {rest : List Arrival}

theorem serves_refusals {refused full : Nat} (h : refused + full ≤ (traffic n).full) :
    Serves handle traffic code ⟨f, n, refused, rest⟩ (List.replicate full (fullPoll true))
      ⟨f, n, refused + full, rest⟩ := by
  induction full generalizing refused with
  | zero => rfl
  | succ full ih =>
    have hlt : refused < (traffic n).full := by omega
    have hstep : (device handle traffic code).Step ⟨f, n, refused, rest⟩ (fullPoll true)
        ⟨f, n, refused + 1, rest⟩ := if_pos hlt
    have hbehind : refused + 1 + full ≤ (traffic n).full := by omega
    refine ⟨_, hstep, ?_⟩
    rw [← Nat.add_assoc, Nat.add_right_comm]
    exact ih hbehind

theorem serves_arrival {a : Arrival} :
    Serves handle traffic code ⟨f, n, 0, a :: rest⟩ a.accesses ⟨f, n, 0, rest⟩ := by
  obtain ⟨waits, word⟩ := a
  induction waits with
  | zero => exact ⟨_, rfl, _, rfl, rfl⟩
  | succ waits ih => exact ⟨⟨f, n, 0, ⟨waits, word⟩ :: rest⟩, rfl, ih⟩

theorem serves_arrivals {others : List Arrival} :
    Serves handle traffic code ⟨f, n, 0, others ++ rest⟩ (others.flatMap Arrival.accesses)
      ⟨f, n, 0, rest⟩ := by
  induction others with
  | nil => rfl
  | cons a others ih =>
    rw [List.flatMap_cons]
    exact steps_append.2 ⟨⟨f, n, 0, others ++ rest⟩, serves_arrival, ih⟩

/-- The exchange around a message in the traffic that the script has for it. -/
theorem serves_exchange {words : List UInt32} :
    Serves handle traffic code (ready f n) ((traffic n).exchange words)
      (ready (f.answer handle (code n) words) (n + 1)) := by
  have hfull : Serves handle traffic code ⟨f, n, 0, []⟩
      (List.replicate (traffic n).full (fullPoll true)) ⟨f, n, 0 + (traffic n).full, []⟩ :=
    serves_refusals (Nat.le_of_eq (Nat.zero_add _))
  have hroom : (device handle traffic code).Step ⟨f, n, 0 + (traffic n).full, []⟩ (fullPoll false)
      ⟨f, n, 0 + (traffic n).full, []⟩ := if_neg (by simp)
  have hpost : Serves handle traffic code ⟨f, n, 0, []⟩
      (List.replicate (traffic n).full (fullPoll true) ++
        [fullPoll false, posted (traffic n).word words])
      ⟨f.answer handle (code n) words, n + 1, 0,
        (traffic n).others ++ [⟨(traffic n).waits, (traffic n).word⟩]⟩ :=
    steps_append.2 ⟨_, hfull, _, hroom, _, rfl, rfl⟩
  rw [Traffic.exchange]
  refine ⟨_, rfl, ?_⟩
  exact steps_append.2 ⟨_, steps_append.2 ⟨_, hpost, serves_arrivals⟩, serves_arrival⟩

theorem serves_collected {size : Nat} {v : Vector UInt32 size} {s : Station σ}
    (hv : v.toList = s.responder.memory) : Serves handle traffic code s [collected v] s := by
  have hmemory : (Vector.ofFn fun i : Fin size => s.responder.memory.getD i.val 0) = v := by
    rw [← hv]
    ext i hi
    simp
  exact steps_singleton.2 (congrArg (fun v => some (v, s)) hmemory)

end Station

open Station

variable {σ : Type} {handle : TagHandler σ} {traffic : Nat → Traffic} {state state' : σ}
  {response : List UInt32} {n limit : Nat}

/-- A query that may wait as long as it takes ends with the answered tag, one message later. -/
theorem completes_query (code : Nat → UInt32) (memory : List UInt32) {tag : Tag}
    (property : Message Property)
    (hanswer : handle state tag.id property.body.data = (state', response))
    (hdata : property.body.data.length < 2 ^ 30) (hl : (traffic n).cost < limit) :
    ∃ left memory',
      (query .unlimited tag property).Completes (device handle traffic code) limit
        (ready ⟨state, memory⟩ n) left (ready ⟨state', memory'⟩ (n + 1)) ∧
      left.body.data = overlay response property.body.data := by
  have hs : (requestFor tag property).body.Sized := Property.asking_sized tag hdata
  have hend : (requestFor tag property).endTag = 0 := rfl
  let answered := Responder.answer handle (code n) ⟨state, memory⟩ (requestFor tag property).words
  have hstate : answered = ⟨state', answered.memory⟩ := by
    simp only [answered, Responder.answer_request hs hend]
    exact congrArg (fun x => Responder.mk x.1 _) hanswer
  let v : Vector UInt32 (requestFor tag property).words.length :=
    ⟨answered.memory.toArray, Responder.length_answer_request hs hend⟩
  have hleft : (requestFor tag property).refill v.toList = _ :=
    Responder.refill_answer_request hs hend
  obtain ⟨T, hT, -, hA⟩ := exists_runs_query (traffic n) tag property v
    (Budget.spend?_unlimited _) hl
  have hserves : Serves handle traffic code (ready ⟨state, memory⟩ n) T.accesses
      (ready answered (n + 1)) := by
    rw [hA]
    exact steps_append.2 ⟨_, Station.serves_exchange, serves_collected rfl⟩
  rw [hstate] at hserves
  refine ⟨_, _, ⟨T, hT, hserves⟩, ?_⟩
  rw [hleft]
  exact congrArg (fun x => overlay x.2 property.body.data) hanswer

/-- A query for one value word. -/
theorem completes_value (code : Nat → UInt32) (memory : List UInt32) {tag : Tag}
    (property : Message Property) (i : Nat)
    (hanswer : handle state tag.id property.body.data = (state', response))
    (hdata : property.body.data.length < 2 ^ 30) (hl : (traffic n).cost < limit) :
    ∃ memory', (do return value (← query .unlimited tag property) i).Completes
      (device handle traffic code) limit (ready ⟨state, memory⟩ n)
      ((overlay response property.body.data).getD i 0) (ready ⟨state', memory'⟩ (n + 1)) := by
  obtain ⟨left, memory', hquery, hleft⟩ := completes_query code memory property hanswer hdata hl
  have hvalue : value left i = (overlay response property.body.data).getD i 0 := by
    rw [value, hleft]
  rw [← hvalue]
  exact ⟨memory', hquery.bind (completes_pure _)⟩

end Mailbox

end Bcm2835
