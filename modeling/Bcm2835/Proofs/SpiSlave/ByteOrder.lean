import Bcm2835.Proofs.Session
import Bcm2835.Proofs.SpiSlave.Intake

/-! Where the bytes go. A byte that comes out of the receive FIFO is handed to the caller of a read,
or thrown away by a write. A byte of the caller goes into the transmit FIFO as soon as there is
room, and once; a write that runs out of its budget has either left it or queued it.
`Account.Balanced` says so of one operation, `bytes_in_order` of any operations in a row, wherever
they are left. -/

namespace Bcm2835

open Program Transcript

namespace PcmPort

/-- Some look at the transmit FIFO found room in it. -/
def foundRoom (A : List (Access PcmPort)) : Bool :=
  A.any fun
    | ⟨.txReady, ready⟩ => ready
    | _ => false

variable (A B : List (Access PcmPort)) (b : UInt8) (flag : Bool)

@[simp] theorem foundRoom_nil : foundRoom [] = false := rfl
@[simp] theorem foundRoom_txPoll : foundRoom (txPoll flag :: A) = (flag || foundRoom A) := rfl
@[simp] theorem foundRoom_rxPoll : foundRoom (rxPoll flag :: A) = foundRoom A := rfl
@[simp] theorem foundRoom_taken : foundRoom (taken b :: A) = foundRoom A := rfl
@[simp] theorem foundRoom_given : foundRoom (given b :: A) = foundRoom A := rfl

@[simp] theorem foundRoom_append : foundRoom (A ++ B) = (foundRoom A || foundRoom B) :=
  List.any_append

@[simp] theorem foundRoom_refusals (n : Nat) :
    foundRoom (List.replicate n (txPoll false)) = false := by
  induction n with
  | zero => rfl
  | succ n ih => exact ih

@[simp] theorem foundRoom_rxPolls (n : Nat) :
    foundRoom (List.replicate n (rxPoll flag)) = false := by
  induction n with
  | zero => rfl
  | succ n ih => exact ih

theorem received_of_looks {A : List (Access PcmPort)} (h : ∀ a ∈ A, a.request = .txEmpty) :
    received A = [] := by
  apply received_eq_nil
  rintro ⟨r, x⟩ ha
  obtain rfl : r = .txEmpty := h _ ha
  rfl

theorem sent_of_looks {A : List (Access PcmPort)} (h : ∀ a ∈ A, a.request = .txEmpty) :
    sent A = [] := by
  apply sent_eq_nil
  rintro ⟨r, x⟩ ha
  obtain rfl : r = .txEmpty := h _ ha
  rfl

theorem asks_txEmpty : txEmpty.Asks Request.txEmpty fun empty => empty := fun _ => rfl

end PcmPort

namespace SpiSlave

open PcmPort

/-! ## One operation -/

/-- What can be done with the bytes of the interface. -/
inductive Action where
  | poll (count : Nat)
  | read (budget : Budget)
  | write (budget : Budget) (byte : UInt8)
  | flush (budget : Budget)
  deriving DecidableEq, Repr

namespace Action

def program : Action → Program PcmPort (Reply UInt8)
  | poll count => .flag <$> SpiSlave.poll count
  | read budget => .word <$> SpiSlave.read budget
  | write budget byte => (fun _ => .done) <$> SpiSlave.write budget byte
  | flush budget => (fun _ => .done) <$> SpiSlave.flush budget

/-- The byte that is to go out. -/
def byte? : Action → Option UInt8
  | poll _ | read _ | flush _ => none
  | write _ byte => some byte

end Action

/-- The bytes that were handed on by an operation that ended so. -/
def returned : Option (Except Error (Reply UInt8)) → List UInt8
  | some (.ok (.word byte)) => [byte]
  | some (.ok _) | some (.error _) | none => []

theorem returned_of_fruitless {s : Stop (Reply UInt8)} (h : s.Fruitless) :
    returned s.result? = [] := by
  rcases h with h | h
  · rw [h]
    rfl
  · rw [h]
    rfl

variable {limit : Nat}

/-- An operation with the bytes it threw away. -/
structure Account (limit : Nat) extends Episode Action.program limit where
  discarded : List UInt8

namespace Account

/-- The bytes that came in and are accounted for. -/
def incoming (a : Account limit) : List UInt8 := a.discarded ++ returned a.result?

/-- The bytes that went out: the byte of a write that found room. -/
def outgoing (a : Account limit) : List UInt8 :=
  if foundRoom a.transcript.accesses then a.action.byte?.toList else []

/-- The account is true, and a byte that was written is out before anything is thrown away. -/
structure Balanced (a : Account limit) : Prop where
  received_eq : received a.transcript.accesses = a.incoming
  sent_eq : sent a.transcript.accesses = a.outgoing
  /-- Only a write that found room throws bytes away. -/
  discarded_eq_nil : a.action.byte? = none ∨ foundRoom a.transcript.accesses = false →
    a.discarded = []
  /-- A write that succeeds saw the receive FIFO empty behind its byte. -/
  drained : ∀ byte r, a.action.byte? = some byte → a.result? = some (.ok r) →
    ∃ P Q, a.transcript.accesses = P ++ [txPoll true, given byte] ++ Q ++ [rxPoll false]

end Account

section
variable {budget : Budget} {T : Transcript PcmPort}

theorem poll_answers {count : Nat} {s : Stop Bool} (h : (poll count limit).Runs T s) :
    (T.accesses = [] ∨ ∃ ready, T.accesses = [rxPoll ready]) ∧ ∃ ready, s = .ended (.ok ready) := by
  rw [poll] at h
  split at h
  · obtain ⟨rfl, rfl⟩ := Tree.runs_halt.1 h
    exact ⟨.inl rfl, true, rfl⟩
  · obtain ⟨ready, U, rfl, hU⟩ := Tree.runs_request.1 h
    obtain ⟨rfl, rfl⟩ := Tree.runs_halt.1 hU
    exact ⟨.inr ⟨ready, rfl⟩, ready, rfl⟩

/-- A byte is taken if it is handed on, and only then. -/
theorem read_takes {s : Stop UInt8} (h : (read budget limit).Runs T s) :
    (∃ a : Arrival, T.accesses = a.accesses ∧ s = .ended (.ok a.byte)) ∨
      (∃ polls, T.accesses = List.replicate polls (rxPoll false)) ∧ s.Fruitless := by
  obtain ⟨s₀, b, hT, -, rfl⟩ := runs_within.1 h
  obtain ⟨waits, ⟨-, rfl, rfl⟩ | ⟨-, ⟨rfl, rfl⟩ | ⟨byte, rfl, rfl⟩⟩⟩ := runs_nextByte.1 hT
  · exact .inr ⟨⟨waits, accesses_idle waits⟩, Stop.fruitless_cut rfl b⟩
  · refine .inr ⟨⟨waits + 1, ?_⟩, Stop.fruitless_cut rfl b⟩
    simp [List.replicate_succ']
  · exact .inl ⟨⟨waits, byte⟩, Arrival.accesses_transcript _, rfl⟩

/-- The three effects a write can have. -/
theorem write_effects {byte : UInt8} {s : Stop Unit} (h : (write budget byte limit).Runs T s) :
    (∃ full, T.accesses = List.replicate full (txPoll false)) ∧ s.Fruitless ∨
      ∃ full, ∃ stale : List UInt8,
        (T.accesses = List.replicate full (txPoll false) ++ [txPoll true, given byte] ++
            SpiSlave.drained stale ++ [rxPoll false] ∧ s = .ended (.ok ())) ∨
          T.accesses = List.replicate full (txPoll false) ++ [txPoll true, given byte] ++
            SpiSlave.drained stale ∧ s.Fruitless := by
  obtain ⟨s₀, b, hT, -, rfl⟩ := runs_within.1 h
  obtain ⟨full, ⟨-, rfl, rfl⟩ | ⟨-, ⟨rfl, rfl⟩ | ⟨V, rfl, hV⟩⟩⟩ := runs_putByte.1 hT
  · exact .inl ⟨⟨full, accesses_refusals full⟩, Stop.fruitless_cut rfl b⟩
  · refine .inl ⟨⟨full + 1, ?_⟩, Stop.fruitless_cut rfl b⟩
    simp [List.replicate_succ']
  obtain ⟨stale, W, rfl, ⟨-, rfl, rfl⟩ | ⟨-, ⟨rfl, rfl⟩ | ⟨late, rfl, rfl⟩⟩⟩ := runs_drain.1 hV
  · refine .inr ⟨full, stale, .inr ⟨?_, Stop.fruitless_cut rfl b⟩⟩
    simp
  · refine .inr ⟨full, stale, .inl ⟨?_, rfl⟩⟩
    simp
  · -- the byte that was taken last has no unit of waiting behind it
    refine .inr ⟨full, stale ++ [late], .inr ⟨?_, Stop.fruitless_cut rfl b⟩⟩
    simp [SpiSlave.drained]

/-- A flush only looks at the transmit FIFO. -/
theorem flush_looks {s : Stop Unit} (h : (flush budget limit).Runs T s) :
    (∀ a ∈ T.accesses, a.request = .txEmpty) ∧ (s = .ended (.ok ()) ∨ s.Fruitless) := by
  obtain ⟨s₀, b, hT, -, rfl⟩ := runs_within.1 h
  obtain ⟨misses, -, ⟨a, -, hA, rfl⟩ | ⟨hA, hs⟩⟩ := asks_txEmpty.runs_waitUntil hT
  · refine ⟨?_, .inl rfl⟩
    simp [hA, or_imp, forall_and]
  · refine ⟨?_, .inr (Stop.fruitless_cut (Stop.result?_of_unfinished hs) b)⟩
    simp [hA]

end

namespace Account

/-- An account of an operation that sends nothing. -/
theorem Balanced.of_silent {a : Account limit} (hbyte : a.action.byte? = none)
    (hdiscarded : a.discarded = [])
    (hreceived : received a.transcript.accesses = returned a.result?)
    (hsent : sent a.transcript.accesses = []) : a.Balanced where
  received_eq := by
    rw [incoming, hdiscarded]
    exact hreceived
  sent_eq := by
    rw [outgoing, hbyte]
    simpa using hsent
  discarded_eq_nil _ := hdiscarded
  drained byte r h := by
    rw [hbyte] at h
    cases h

/-- An account of a write that found room: behind its byte it took what it threw away. -/
theorem Balanced.of_queued {a : Account limit} {byte : UInt8} {full : Nat}
    {rest : List (Access PcmPort)} (hbyte : a.action.byte? = some byte)
    (hA : a.transcript.accesses = List.replicate full (txPoll false) ++
      [txPoll true, given byte] ++ SpiSlave.drained a.discarded ++ rest)
    (hreturned : returned a.result? = []) (hreceived : received rest = []) (hsent : sent rest = [])
    (hrest : ∀ r, a.result? = some (.ok r) → rest = [rxPoll false]) : a.Balanced where
  received_eq := by
    rw [incoming, hreturned, hA]
    simp [hreceived]
  sent_eq := by
    rw [outgoing, hbyte, hA]
    simp [hsent]
  discarded_eq_nil h := by
    rw [hbyte, hA] at h
    simp at h
  drained c r hc hr := by
    cases hbyte.symm.trans hc
    refine ⟨List.replicate full (txPoll false), SpiSlave.drained a.discarded, ?_⟩
    rw [hA, hrest r hr]

end Account

/-- For every operation, wherever it is left, there is a true account. -/
theorem exists_balanced (e : Episode Action.program limit) :
    ∃ a : Account limit, a.toEpisode = e ∧ a.Balanced := by
  obtain ⟨action, T, s, hT⟩ := e
  cases action with
  | poll count =>
    obtain ⟨s₀, hrun, rfl⟩ := runs_map.1 hT
    refine ⟨⟨⟨_, T, _, hT⟩, []⟩, rfl, ?_⟩
    obtain ⟨hA | ⟨ready, hA⟩, up, rfl⟩ := poll_answers hrun
    · exact .of_silent rfl rfl (by rw [hA]; rfl) (by rw [hA]; rfl)
    · exact .of_silent rfl rfl (by rw [hA]; rfl) (by rw [hA]; rfl)
  | read budget =>
    obtain ⟨s₀, hrun, rfl⟩ := runs_map.1 hT
    refine ⟨⟨⟨_, T, _, hT⟩, []⟩, rfl, ?_⟩
    rcases read_takes hrun with ⟨a, hA, rfl⟩ | ⟨⟨polls, hA⟩, hs⟩
    · refine .of_silent rfl rfl ?_ ?_
      · rw [hA, Arrival.received_accesses]
        rfl
      · rw [hA, Arrival.sent_accesses]
    · refine .of_silent rfl rfl ?_ ?_
      · rw [hA, Episode.result?, returned_of_fruitless (hs.map _), received_replicate_rxPoll]
      · rw [hA, sent_replicate_rxPoll]
  | write budget byte =>
    obtain ⟨s₀, hrun, rfl⟩ := runs_map.1 hT
    rcases write_effects hrun with ⟨⟨full, hA⟩, hs⟩ | ⟨full, stale, ⟨hA, rfl⟩ | ⟨hA, hs⟩⟩
    · -- the byte was left
      refine ⟨⟨⟨_, T, _, hT⟩, []⟩, rfl, ?_, ?_, fun _ => rfl, ?_⟩
      · rw [Account.incoming, Episode.result?, returned_of_fruitless (hs.map _), hA]
        simp
      · simp [Account.outgoing, hA]
      · intro _ r _ hr
        exact absurd hr ((hs.map _).result?_ne_ok r)
    · refine ⟨⟨⟨_, T, _, hT⟩, stale⟩, rfl, ?_⟩
      exact .of_queued rfl hA rfl rfl rfl fun _ _ => rfl
    · refine ⟨⟨⟨_, T, _, hT⟩, stale⟩, rfl, ?_⟩
      refine .of_queued rfl (hA.trans (List.append_nil _).symm)
        (returned_of_fruitless (hs.map _)) rfl rfl fun r hr => ?_
      exact absurd hr ((hs.map _).result?_ne_ok r)
  | flush budget =>
    obtain ⟨s₀, hrun, rfl⟩ := runs_map.1 hT
    obtain ⟨hA, hs⟩ := flush_looks hrun
    refine ⟨⟨⟨_, T, _, hT⟩, []⟩, rfl, .of_silent rfl rfl ?_ (sent_of_looks hA)⟩
    rw [received_of_looks hA]
    rcases hs with rfl | hs
    · rfl
    · exact (returned_of_fruitless (hs.map _)).symm

/-! ## Operations in a row -/

/-- In a run of any operations, wherever it is left, the bytes that came in are those that were
handed on or thrown away, operation by operation, and the bytes that went out are those of the
writes that found room. -/
theorem bytes_in_order {actions : List Action} {T : Transcript PcmPort}
    {s : Stop (List (Except Error (Reply UInt8)))}
    (h : (session Action.program actions limit).Runs T s) :
    ∃ accounts : List (Account limit), Divides actions T s (accounts.map Account.toEpisode) ∧
      (∀ a ∈ accounts, a.Balanced) ∧
      received T.accesses = accounts.flatMap Account.incoming ∧
      sent T.accesses = accounts.flatMap Account.outgoing := by
  obtain ⟨accounts, hdivides, hbalanced⟩ := exists_accounts exists_balanced h
  refine ⟨accounts, hdivides, hbalanced, ?_, ?_⟩
  · rw [hdivides.accesses_eq, received_flatMap, List.flatMap_map]
    exact List.flatMap_congr fun a ha => (hbalanced a ha).received_eq
  · rw [hdivides.accesses_eq, sent_flatMap, List.flatMap_map]
    exact List.flatMap_congr fun a ha => (hbalanced a ha).sent_eq

/-- A port without room at the first look, with a byte at every look but two. -/
def eagerPort : Behaviour PcmPort :=
  port (fun past => past.length != 12 && past.length != 14) (fun past => past.length != 0)
    fun past =>
      match past.length with
      | 3 => 0x10
      | 7 => 0x20
      | _ => 0x30

/-- The first write leaves its byte, the second runs out of its budget behind it. -/
def eagerActions : List Action :=
  [.write (.bounded 0) 0xAA, .poll 1, .read .unlimited, .write (.bounded 0) 0xBB,
    .write (.bounded 1) 0xCC, .flush .unlimited, .read (.bounded 0)]

theorem bytes_in_order_eagerPort :
    ((session Action.program eagerActions).record eagerPort 2).outcome =
      .ok [.error .timeout, .ok (.flag true), .ok (.word 0x10), .error .timeout, .ok .done,
        .ok .done, .error .timeout] ∧
    ∃ accounts : List (Account 2),
      accounts.map (·.action) = eagerActions ∧ (∀ a ∈ accounts, a.Balanced) ∧
      accounts.flatMap Account.incoming = [0x10, 0x20, 0x30] ∧
      accounts.flatMap Account.outgoing = [0xBB, 0xCC] := by
  have houtcome : ((session Action.program eagerActions).record eagerPort 2).outcome =
      .ok [.error .timeout, .ok (.flag true), .ok (.word 0x10), .error .timeout, .ok .done,
        .ok .done, .error .timeout] := rfl
  obtain ⟨accounts, hdivides, hbalanced, hreceived, hsent⟩ :=
    bytes_in_order (Tree.runs_record eagerPort (session Action.program eagerActions 2) [])
  obtain ⟨hactions, -⟩ := hdivides.complete _ (congrArg Stop.ended houtcome)
  rw [List.map_map] at hactions
  exact ⟨houtcome, accounts, hactions, hbalanced, hreceived.symm, hsent.symm⟩

end SpiSlave

end Bcm2835
