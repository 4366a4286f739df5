import Mathlib.Algebra.GroupWithZero.Nat
import Bcm2835.Proofs.Metering
import Bcm2835.Proofs.Waiting
import Bcm2835.SpiSlave.Transfer

/-! Single bytes in and out of the SPI slave, apart from any budget. The bytes that come in are
grouped with the polls that waited for them (`Arrival`). Reading a byte takes one arrival
(`runs_nextByte`); writing one waits for room, and throws away the bytes that are there up to the
first poll that finds none (`runs_putByte`). -/

namespace Bcm2835

open Program Transcript

variable {α β : Type}

namespace PcmPort

/-- A look at whether a byte came in. -/
abbrev rxPoll (ready : Bool) : Access PcmPort := ⟨.rxReady, ready⟩

/-- A look at whether a byte can go out. -/
abbrev txPoll (ready : Bool) : Access PcmPort := ⟨.txReady, ready⟩

abbrev taken (byte : UInt8) : Access PcmPort := ⟨.readFifo, byte⟩

abbrev given (byte : UInt8) : Access PcmPort := ⟨.writeFifo byte, ()⟩

abbrev clock (enabled : Bool) : Access PcmPort := ⟨.setClock enabled, ()⟩

abbrev pause (ticks : UInt32) : Access PcmPort := ⟨.delay ticks, ()⟩

/-- A port given by its flags and by the bytes that come in. -/
def port (rx tx : List (Access PcmPort) → Bool) (byte : List (Access PcmPort) → UInt8) :
    Behaviour PcmPort
  | past, .rxReady => rx past
  | past, .txReady => tx past
  | _, .txEmpty => true
  | past, .readFifo => byte past
  | _, .writeFifo _ | _, .setClock _ | _, .delay _ => ()

/-- The bytes that came out of the receive FIFO. -/
def received : List (Access PcmPort) → List UInt8
  | [] => []
  | ⟨.readFifo, byte⟩ :: A => byte :: received A
  | ⟨.rxReady, _⟩ :: A | ⟨.txReady, _⟩ :: A | ⟨.txEmpty, _⟩ :: A | ⟨.writeFifo _, _⟩ :: A
  | ⟨.setClock _, _⟩ :: A | ⟨.delay _, _⟩ :: A => received A

/-- The bytes that went into the transmit FIFO. -/
def sent : List (Access PcmPort) → List UInt8
  | [] => []
  | ⟨.writeFifo byte, _⟩ :: A => byte :: sent A
  | ⟨.rxReady, _⟩ :: A | ⟨.txReady, _⟩ :: A | ⟨.txEmpty, _⟩ :: A | ⟨.readFifo, _⟩ :: A
  | ⟨.setClock _, _⟩ :: A | ⟨.delay _, _⟩ :: A => sent A

variable (A B : List (Access PcmPort)) (b : UInt8) (flag : Bool) (t : UInt32)

@[simp] theorem received_nil : received [] = [] := rfl
@[simp] theorem received_taken : received (taken b :: A) = b :: received A := rfl
@[simp] theorem received_rxPoll : received (rxPoll flag :: A) = received A := rfl
@[simp] theorem received_txPoll : received (txPoll flag :: A) = received A := rfl
@[simp] theorem received_given : received (given b :: A) = received A := rfl
@[simp] theorem received_clock : received (clock flag :: A) = received A := rfl
@[simp] theorem received_pause : received (pause t :: A) = received A := rfl

@[simp] theorem sent_nil : sent [] = [] := rfl
@[simp] theorem sent_taken : sent (taken b :: A) = sent A := rfl
@[simp] theorem sent_rxPoll : sent (rxPoll flag :: A) = sent A := rfl
@[simp] theorem sent_txPoll : sent (txPoll flag :: A) = sent A := rfl
@[simp] theorem sent_given : sent (given b :: A) = b :: sent A := rfl
@[simp] theorem sent_clock : sent (clock flag :: A) = sent A := rfl
@[simp] theorem sent_pause : sent (pause t :: A) = sent A := rfl

@[simp] theorem received_append : received (A ++ B) = received A ++ received B := by
  induction A with
  | nil => rfl
  | cons a A ih =>
    obtain ⟨r, x⟩ := a
    cases r with
    | readFifo => exact congrArg (List.cons x) ih
    | _ => exact ih

@[simp] theorem sent_append : sent (A ++ B) = sent A ++ sent B := by
  induction A with
  | nil => rfl
  | cons a A ih =>
    obtain ⟨r, x⟩ := a
    cases r with
    | writeFifo byte => exact congrArg (List.cons byte) ih
    | _ => exact ih

theorem received_flatMap {γ : Type} (l : List γ) (f : γ → List (Access PcmPort)) :
    received (l.flatMap f) = l.flatMap fun a => received (f a) := by
  induction l with
  | nil => rfl
  | cons a l ih => rw [List.flatMap_cons, received_append, ih, List.flatMap_cons]

theorem sent_flatMap {γ : Type} (l : List γ) (f : γ → List (Access PcmPort)) :
    sent (l.flatMap f) = l.flatMap fun a => sent (f a) := by
  induction l with
  | nil => rfl
  | cons a l ih => rw [List.flatMap_cons, sent_append, ih, List.flatMap_cons]

variable {A} in
/-- Nothing comes in if no access brings anything. -/
theorem received_eq_nil (h : ∀ a ∈ A, received [a] = []) : received A = [] := by
  rw [← List.flatMap_singleton' A, received_flatMap]
  exact List.flatMap_eq_nil_iff.2 h

variable {A} in
theorem sent_eq_nil (h : ∀ a ∈ A, sent [a] = []) : sent A = [] := by
  rw [← List.flatMap_singleton' A, sent_flatMap]
  exact List.flatMap_eq_nil_iff.2 h

theorem received_replicate {a : Access PcmPort} (h : received [a] = []) (n : Nat) :
    received (List.replicate n a) = [] :=
  received_eq_nil fun _ hb => List.eq_of_mem_replicate hb ▸ h

theorem sent_replicate {a : Access PcmPort} (h : sent [a] = []) (n : Nat) :
    sent (List.replicate n a) = [] :=
  sent_eq_nil fun _ hb => List.eq_of_mem_replicate hb ▸ h

@[simp] theorem received_replicate_rxPoll (n : Nat) :
    received (List.replicate n (rxPoll flag)) = [] := received_replicate rfl n

@[simp] theorem received_replicate_txPoll (n : Nat) :
    received (List.replicate n (txPoll flag)) = [] := received_replicate rfl n

@[simp] theorem sent_replicate_rxPoll (n : Nat) :
    sent (List.replicate n (rxPoll flag)) = [] := sent_replicate rfl n

@[simp] theorem sent_replicate_txPoll (n : Nat) :
    sent (List.replicate n (txPoll flag)) = [] := sent_replicate rfl n

/-- The only byte that is sent is sent in one place. -/
theorem eq_of_append_given {U V P Q : List (Access PcmPort)} {b c : UInt8} (hU : sent U = [])
    (hV : sent V = []) (h : U ++ given c :: V = P ++ given b :: Q) : P = U ∧ b = c ∧ Q = V := by
  rcases List.append_eq_append_iff.1 h with ⟨_ | ⟨x, W⟩, rfl, hW⟩ | ⟨_ | ⟨x, W⟩, rfl, hW⟩
  · cases hW
    exact ⟨List.append_nil U, rfl, rfl⟩
  · cases hW
    simp at hV
  · cases hW
    exact ⟨(List.append_nil P).symm, rfl, rfl⟩
  · cases hW
    simp at hU

theorem asks_rxReady : rxReady.Asks Request.rxReady fun ready => ready := fun _ => rfl

theorem asks_txReady : txReady.Asks Request.txReady fun ready => ready := fun _ => rfl

end PcmPort

namespace SpiSlave

open PcmPort

/-- A byte that came in, after polls that found none. -/
structure Arrival where
  waits : Nat
  byte : UInt8
  deriving DecidableEq, Repr

namespace Arrival

def accesses (a : Arrival) : List (Access PcmPort) :=
  List.replicate a.waits (rxPoll false) ++ [rxPoll true, taken a.byte]

abbrev prompt (byte : UInt8) : Arrival := ⟨0, byte⟩

@[simp] theorem received_accesses (a : Arrival) : received a.accesses = [a.byte] := by
  simp [accesses]

@[simp] theorem sent_accesses (a : Arrival) : sent a.accesses = [] := by
  simp [accesses]

@[simp] theorem received_flatMap_accesses (bs : List Arrival) :
    received (bs.flatMap accesses) = bs.map byte := by
  rw [received_flatMap, List.map_eq_flatMap]
  simp

@[simp] theorem sent_flatMap_accesses (bs : List Arrival) : sent (bs.flatMap accesses) = [] := by
  rw [sent_flatMap]
  simp

end Arrival

/-- Polls that found no byte, each with its unit of waiting. -/
def idle (polls : Nat) : Transcript PcmPort :=
  missed (I := PcmPort) (r := .rxReady) (List.replicate polls false)

/-- Polls that found no room, each with its unit of waiting. -/
def refusals (polls : Nat) : Transcript PcmPort :=
  missed (I := PcmPort) (r := .txReady) (List.replicate polls false)

@[simp] theorem ticks_idle (polls : Nat) : ticks (idle polls) = polls :=
  (ticks_missed _).trans List.length_replicate

@[simp] theorem accesses_idle (polls : Nat) :
    accesses (idle polls) = List.replicate polls (rxPoll false) :=
  (accesses_missed _).trans List.map_replicate

@[simp] theorem ticks_refusals (polls : Nat) : ticks (refusals polls) = polls :=
  (ticks_missed _).trans List.length_replicate

@[simp] theorem accesses_refusals (polls : Nat) :
    accesses (refusals polls) = List.replicate polls (txPoll false) :=
  (accesses_missed _).trans List.map_replicate

namespace Arrival

def transcript (a : Arrival) : Transcript PcmPort :=
  idle a.waits ++ [.access (rxPoll true), .access (taken a.byte)]

/-- The arrival of a byte that is thrown away. -/
def discarded (a : Arrival) : Transcript PcmPort := a.transcript ++ [.tick]

@[simp] theorem accesses_transcript (a : Arrival) : a.transcript.accesses = a.accesses := by
  simp [transcript, accesses]

@[simp] theorem ticks_transcript (a : Arrival) : a.transcript.ticks = a.waits := by
  simp [transcript]

@[simp] theorem accesses_discarded (bs : List Arrival) :
    Transcript.accesses (bs.flatMap discarded) = bs.flatMap accesses := by
  induction bs with
  | nil => rfl
  | cons a bs ih => simp [discarded, ih]

@[simp] theorem ticks_discarded (bs : List Arrival) :
    ticks (bs.flatMap discarded) = (bs.map waits).sum + bs.length := by
  induction bs with
  | nil => rfl
  | cons a bs ih =>
    simp only [List.flatMap_cons, ticks_append, ih, discarded, ticks_transcript, ticks_tick,
      ticks_nil, List.map_cons, List.sum_cons, List.length_cons]
    omega

end Arrival

variable {limit : Nat} {T : Transcript PcmPort}

theorem runs_nextByte {s : Stop UInt8} :
    (nextByte limit).Runs T s ↔
      ∃ waits, (waits = limit ∧ T = idle waits ∧ s = .ended .stalled) ∨
        waits < limit ∧
          ((T = idle waits ++ [.access (rxPoll false)] ∧ s = .waiting) ∨
            ∃ byte, T = Arrival.transcript ⟨waits, byte⟩ ∧ s = .ended (.ok byte)) := by
  refine (asks_rxReady.runs_waitUntil_bind fun _ => Iff.rfl).trans ?_
  refine exists_congr fun waits => or_congr_right (and_congr_right fun _ => or_congr_right ?_)
  constructor
  · rintro ⟨a, U, ha, rfl, hU⟩
    obtain rfl : a = true := eq_true_of_ne_false ha
    obtain ⟨byte, V, rfl, hV⟩ := Tree.runs_request.1 hU
    obtain ⟨rfl, rfl⟩ := Tree.runs_halt.1 hV
    exact ⟨byte, rfl, rfl⟩
  · rintro ⟨byte, rfl, rfl⟩
    exact ⟨true, _, Bool.noConfusion, rfl, Tree.runs_request.2 ⟨byte, _, rfl, .halt _⟩⟩

theorem runs_nextByte_ok {byte : UInt8} :
    (nextByte limit).Runs T (.ended (.ok byte)) ↔
      ∃ waits < limit, T = Arrival.transcript ⟨waits, byte⟩ := by
  rw [runs_nextByte]
  constructor
  · rintro ⟨waits, ⟨-, -, h⟩ | ⟨hw, ⟨-, h⟩ | ⟨b, rfl, h⟩⟩⟩
    · cases h
    · cases h
    · cases h
      exact ⟨waits, hw, rfl⟩
  · rintro ⟨waits, hw, rfl⟩
    exact ⟨waits, .inr ⟨hw, .inr ⟨byte, rfl, rfl⟩⟩⟩

/-- A stop before the thing that was waited for: the next thing is a unit of waiting, or the run was
given up, and then it had waited for as long as the limit allows. -/
def Unfinished (limit : Nat) (T : Transcript PcmPort) (s : Stop α) : Prop :=
  s = .waiting ∨ (s = .ended .stalled ∧ limit ≤ T.ticks)

theorem nextByte_early {s₀ : Stop UInt8} {s : Stop β} (h : (nextByte limit).Runs T s₀)
    (hs : s₀.early? = some s) :
    (∃ polls, T.accesses = List.replicate polls (rxPoll false)) ∧ Unfinished limit T s := by
  obtain ⟨waits, ⟨rfl, rfl, rfl⟩ | ⟨-, ⟨rfl, rfl⟩ | ⟨b, rfl, rfl⟩⟩⟩ := runs_nextByte.1 h
  · cases hs
    exact ⟨⟨_, accesses_idle _⟩, .inr ⟨rfl, by simp⟩⟩
  · cases hs
    exact ⟨⟨waits + 1, by simp [List.replicate_succ']⟩, .inl rfl⟩
  · cases hs

section
variable {f : UInt8 → Tree PcmPort α}

theorem runs_nextByte_bind_ok {x : α} :
    ((nextByte limit).bind f).Runs T (.ended (.ok x)) ↔
      ∃ a : Arrival, a.waits < limit ∧ ∃ V, T = a.transcript ++ V ∧
        (f a.byte).Runs V (.ended (.ok x)) := by
  rw [Tree.runs_bind_ok]
  constructor
  · rintro ⟨U, V, b, rfl, hU, hV⟩
    obtain ⟨waits, hw, rfl⟩ := runs_nextByte_ok.1 hU
    exact ⟨⟨waits, b⟩, hw, V, rfl, hV⟩
  · rintro ⟨a, ha, V, rfl, hV⟩
    exact ⟨_, V, a.byte, rfl, runs_nextByte_ok.2 ⟨a.waits, ha, rfl⟩, hV⟩

theorem nextByte_bind_early {s₀ : Stop α} {s : Stop β}
    (h : ((nextByte limit).bind f).Runs T s₀) (hs : s₀.early? = some s) :
    ((∃ polls, T.accesses = List.replicate polls (rxPoll false)) ∧ Unfinished limit T s) ∨
      ∃ a : Arrival, ∃ V, T = a.transcript ++ V ∧ (f a.byte).Runs V s₀ := by
  rcases Tree.runs_bind.1 h with ⟨U, V, b, rfl, hU, hV⟩ | ⟨s₁, hT, hs₁⟩
  · obtain ⟨waits, -, rfl⟩ := runs_nextByte_ok.1 hU
    exact .inr ⟨⟨waits, b⟩, V, rfl, hV⟩
  · exact .inl (nextByte_early hT ((Stop.early?_of_early? hs₁).trans hs))

end

/-- The bytes that are there are thrown away, up to the first poll that finds none. -/
theorem runs_drain {s : Stop Unit} :
    (drain rxReady (discard readFifo) limit).Runs T s ↔
      ∃ stale : List UInt8, ∃ V,
        T = stale.flatMap (fun b => (Arrival.prompt b).discarded) ++ V ∧
        ((stale.length = limit ∧ V = [] ∧ s = .ended .stalled) ∨
          stale.length < limit ∧
            ((V = [.access (rxPoll false)] ∧ s = .ended (.ok ())) ∨
              ∃ b, V = Arrival.transcript (.prompt b) ∧ s = .waiting)) := by
  refine (asks_rxReady.runs_drain (fun _ => Iff.rfl) fun _ => rfl).trans ?_
  refine exists_congr fun stale => ?_
  constructor
  · rintro (⟨hl, rfl, rfl⟩ | ⟨hl, ⟨a, ha, rfl, rfl⟩ | ⟨b, rfl, rfl⟩⟩)
    · exact ⟨[], (List.append_nil _).symm, .inl ⟨hl, rfl, rfl⟩⟩
    · obtain rfl : a = false := eq_false_of_ne_true ha
      exact ⟨_, rfl, .inr ⟨hl, .inl ⟨rfl, rfl⟩⟩⟩
    · exact ⟨_, rfl, .inr ⟨hl, .inr ⟨b, rfl, rfl⟩⟩⟩
  · rintro ⟨V, rfl, ⟨hl, rfl, rfl⟩ | ⟨hl, ⟨rfl, rfl⟩ | ⟨b, rfl, rfl⟩⟩⟩
    · exact .inl ⟨hl, List.append_nil _, rfl⟩
    · exact .inr ⟨hl, .inl ⟨false, Bool.noConfusion, rfl, rfl⟩⟩
    · exact .inr ⟨hl, .inr ⟨b, rfl, rfl⟩⟩

/-- What putting a byte does until the byte is in the FIFO. -/
def handedOver (full : Nat) (byte : UInt8) : Transcript PcmPort :=
  refusals full ++ [.access (txPoll true), .access (given byte)]

/-- The byte goes out right behind the first poll that finds room. Then the drain follows. -/
theorem runs_putByte {byte : UInt8} {s : Stop Unit} :
    (putByte byte limit).Runs T s ↔
      ∃ full, (full = limit ∧ T = refusals full ∧ s = .ended .stalled) ∨
        full < limit ∧
          ((T = refusals full ++ [.access (txPoll false)] ∧ s = .waiting) ∨
            ∃ V, T = handedOver full byte ++ V ∧
              (drain rxReady (discard readFifo) limit).Runs V s) := by
  refine (asks_txReady.runs_waitUntil_bind fun _ => Iff.rfl).trans ?_
  refine exists_congr fun full => or_congr_right (and_congr_right fun _ => or_congr_right ?_)
  constructor
  · rintro ⟨a, U, ha, rfl, hU⟩
    obtain rfl : a = true := eq_true_of_ne_false ha
    obtain ⟨_, V, rfl, hV⟩ := Tree.runs_request.1 hU
    refine ⟨V, ?_, hV⟩
    simp only [handedOver, refusals, List.append_assoc]
    rfl
  · rintro ⟨V, rfl, hV⟩
    refine ⟨true, .access (given byte) :: V, Bool.noConfusion, by simp [handedOver, refusals], ?_⟩
    exact Tree.runs_request.2 ⟨(), V, rfl, hV⟩

@[simp] theorem ticks_handedOver (full : Nat) (byte : UInt8) :
    ticks (handedOver full byte) = full := by
  simp [handedOver]

@[simp] theorem accesses_handedOver (full : Nat) (byte : UInt8) :
    accesses (handedOver full byte) =
      List.replicate full (txPoll false) ++ [txPoll true, given byte] := by
  simp [handedOver]

/-- Bytes that were there at once, and were thrown away. -/
def drained (stale : List UInt8) : List (Access PcmPort) :=
  stale.flatMap fun b => (Arrival.prompt b).accesses

@[simp] theorem received_drained (stale : List UInt8) : received (drained stale) = stale := by
  induction stale with
  | nil => rfl
  | cons b stale ih => exact congrArg (List.cons b) ih

@[simp] theorem sent_drained (stale : List UInt8) : sent (drained stale) = [] := by
  induction stale with
  | nil => rfl
  | cons b stale ih => exact ih

@[simp] theorem accesses_flatMap_prompt (stale : List UInt8) :
    accesses (stale.flatMap fun b => (Arrival.prompt b).discarded) = drained stale := by
  induction stale with
  | nil => rfl
  | cons b stale ih =>
    rw [List.flatMap_cons, accesses_append, ih]
    rfl

@[simp] theorem ticks_flatMap_prompt (stale : List UInt8) :
    ticks (stale.flatMap fun b => (Arrival.prompt b).discarded) = stale.length := by
  induction stale with
  | nil => rfl
  | cons b stale ih =>
    rw [List.flatMap_cons, ticks_append, ih, List.length_cons, Nat.add_comm]
    rfl

theorem runs_putByte_ok {byte : UInt8} :
    (putByte byte limit).Runs T (.ended (.ok ())) ↔
      ∃ full < limit, ∃ stale : List UInt8, stale.length < limit ∧
        T = handedOver full byte ++
          (stale.flatMap (fun b => (Arrival.prompt b).discarded) ++ [.access (rxPoll false)]) := by
  rw [runs_putByte]
  constructor
  · rintro ⟨full, ⟨-, -, h⟩ | ⟨hf, ⟨-, h⟩ | ⟨V, rfl, hV⟩⟩⟩
    · cases h
    · cases h
    obtain ⟨stale, W, rfl, ⟨-, -, h⟩ | ⟨hl, ⟨rfl, -⟩ | ⟨b, -, h⟩⟩⟩ := runs_drain.1 hV
    · cases h
    · exact ⟨full, hf, stale, hl, rfl⟩
    · cases h
  · rintro ⟨full, hf, stale, hl, rfl⟩
    exact ⟨full, .inr ⟨hf, .inr ⟨_, rfl, runs_drain.2 ⟨stale, _, rfl, .inr ⟨hl, .inl ⟨rfl, rfl⟩⟩⟩⟩⟩⟩

/-- A byte that was left is still waiting for room, or is out and what came in is thrown away. -/
theorem putByte_early {byte : UInt8} {s₀ : Stop Unit} {s : Stop β}
    (h : (putByte byte limit).Runs T s₀) (hs : s₀.early? = some s) :
    Unfinished limit T s ∧
      ((∃ full, T.accesses = List.replicate full (txPoll false)) ∨
        ∃ full, ∃ stale : List UInt8,
          T.accesses = List.replicate full (txPoll false) ++ [txPoll true, given byte] ++
            drained stale ∧ stale.length ≤ T.ticks + 1) := by
  obtain ⟨full, ⟨rfl, rfl, rfl⟩ | ⟨-, ⟨rfl, rfl⟩ | ⟨V, rfl, hV⟩⟩⟩ := runs_putByte.1 h
  · cases hs
    exact ⟨.inr ⟨rfl, by simp⟩, .inl ⟨_, accesses_refusals _⟩⟩
  · cases hs
    exact ⟨.inl rfl, .inl ⟨full + 1, by simp [List.replicate_succ']⟩⟩
  obtain ⟨stale, W, rfl, ⟨rfl, rfl, rfl⟩ | ⟨hl, ⟨-, rfl⟩ | ⟨b, rfl, rfl⟩⟩⟩ := runs_drain.1 hV
  · cases hs
    refine ⟨.inr ⟨rfl, by simp⟩, .inr ⟨full, stale, by simp, ?_⟩⟩
    simp
    omega
  · cases hs
  · cases hs
    refine ⟨.inl rfl, .inr ⟨full, stale ++ [b], ?_, ?_⟩⟩
    · simp [drained]
    · simp

end SpiSlave

end Bcm2835
