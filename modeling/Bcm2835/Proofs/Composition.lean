import Bcm2835.Proofs.DataRegisters
import Bcm2835.Proofs.Mailbox.Property
import Bcm2835.Proofs.Truncation
import Bcm2835.Proofs.Waiting

/-! Which operations are covered by their budget. Those that hand one counter to all their waits
are; those that are made of calls which each start from the whole budget are covered by an empty
budget only, and may spend the budget once for each call. -/

namespace Bcm2835

open Program Transcript

variable {I : Interface} {α : Type} {n limit : Nat}

namespace Mailbox

open MailboxPort

/-! ## Clocks -/

theorem setClockRate_follows_zero (clock : Clock) (rate : UInt32) :
    Tree.Follows IsCollect 0 (setClockRate .unlimited clock rate limit)
      (setClockRate (.bounded 0) clock rate limit) :=
  query_follows.bind_zero fun _ => query_follows.bind_costs fun _ => .halt ..

theorem setClockRate_costs (clock : Clock) (rate : UInt32) :
    (setClockRate (.bounded n) clock rate limit).Costs (n + n) :=
  query_follows.costs.bind fun _ => (query_follows.bind_costs fun _ => .halt ..).costs

theorem clockRate_follows_zero (clock : Clock) :
    Tree.Follows IsCollect 0 (clockRate .unlimited clock limit)
      (clockRate (.bounded 0) clock limit) := by
  refine query_follows.bind_zero fun state => ?_
  by_cases h : ClockStateWord.on.isSet (value state 1) = true
  · simp only [h, if_true]
    exact query_follows.bind_costs fun _ => .halt ..
  · simp only [h]
    exact .halt ..

theorem clockRate_costs (clock : Clock) :
    (clockRate (.bounded n) clock limit).Costs (n + n) := by
  refine query_follows.costs.bind fun state => ?_
  by_cases h : ClockStateWord.on.isSet (value state 1) = true
  · simp only [h, if_true]
    exact (query_follows.bind_costs fun _ => .halt ..).costs
  · simp only [h]
    exact .halt ..

/-! ## The port on the board -/

/-- The board can give this answer without any waiting. -/
def Wired (a : Access MailboxPort) : Prop :=
  ∀ limit, ∃ U, (onBoard a.request limit).Runs U (.ended (.ok a.answer)) ∧ U.ticks = 0

/-- An access that is one access of the board. -/
theorem wired_of_request {a : Access MailboxPort} (r : Board.Request) (b : Board.Answer r)
    {f : Board.Answer r → MailboxPort.Answer a.request}
    (h : ∀ limit, onBoard a.request limit = .request (I := Board) r fun b => .halt (.ok (f b)))
    (hb : f b = a.answer) : Wired a := by
  intro limit
  rw [h]
  exact ⟨[.access ⟨r, b⟩], Tree.runs_request.2 ⟨b, [], rfl, hb ▸ .halt _⟩, rfl⟩

theorem wired_fullPoll (full : Bool) : Wired (fullPoll full) := by
  cases full
  · exact wired_of_request (.read MailboxBlock.status0.offset) (0 : UInt32) (fun _ => rfl) rfl
  · exact wired_of_request (.read MailboxBlock.status0.offset) (0x80000000 : UInt32)
      (fun _ => rfl) rfl

theorem wired_emptyPoll (empty : Bool) : Wired (emptyPoll empty) := by
  cases empty
  · exact wired_of_request (.read MailboxBlock.status0.offset) (0 : UInt32) (fun _ => rfl) rfl
  · exact wired_of_request (.read MailboxBlock.status0.offset) (0x40000000 : UInt32)
      (fun _ => rfl) rfl

theorem wired_taken (word : UInt32) : Wired (taken word) :=
  wired_of_request (.read MailboxBlock.read.offset) word (fun _ => rfl) rfl

theorem wired_posted (word : UInt32) (message : List UInt32) : Wired (posted word message) :=
  wired_of_request (.post word message) () (fun _ => rfl) rfl

theorem wired_collected {size : Nat} (v : Vector UInt32 size) : Wired (collected v) :=
  wired_of_request (.collect size) v (fun _ => rfl) rfl

theorem wired_located (addr : UInt32) : Wired (located addr) := by
  refine wired_of_request .locate addr.toNat (fun _ => rfl) ?_
  change firmwareAddress addr.toNat = .ok addr
  rw [firmwareAddress, if_pos addr.toNat_lt, UInt32.ofNat_toNat]

theorem wired_of_mem_query {addr word : UInt32} {message : List UInt32} {k size : Nat}
    {v : Vector UInt32 size} :
    ∀ a ∈ [located addr, fullPoll false, posted word message] ++ Arrival.accesses ⟨k, word⟩ ++
      [collected v], Wired a := by
  intro a ha
  simp only [Arrival.accesses, List.mem_append, List.mem_cons, List.not_mem_nil, or_false,
    List.mem_replicate] at ha
  rcases ha with ((rfl | rfl | rfl) | ⟨-, rfl⟩ | rfl | rfl) | rfl
  · exact wired_located addr
  · exact wired_fullPoll false
  · exact wired_posted word message
  · exact wired_emptyPoll true
  · exact wired_emptyPoll false
  · exact wired_taken word
  · exact wired_collected v

theorem exists_runs_setClockRate (clock : Clock) (rate : UInt32) (hl : n < limit) :
    ∃ T : Transcript MailboxPort,
      (setClockRate (.bounded n) clock rate limit).Runs T (.ended (.ok ())) ∧
      T.ticks = n + n ∧ ∀ a ∈ T.accesses, Wired a := by
  obtain ⟨T, hT, hn, hA⟩ := exists_runs_query_patient .setClockState
    (.new { data := [clock.number, 1] }) 0x10 (.replicate _ 0) (Nat.le_refl n) hl
  obtain ⟨U, hU, hm, hB⟩ := exists_runs_query_patient .setClockRate
    (.new { data := [clock.number, rate, 0] }) 0x20 (.replicate _ 0) (Nat.le_refl n) hl
  have hdone := hU.bind (f := fun _ => Tree.halt (I := MailboxPort) (.ok ())) (.halt _)
  refine ⟨T ++ (U ++ []), hT.bind hdone, by simp [hn, hm], ?_⟩
  intro a ha
  rw [List.append_nil, accesses_append, hA, hB] at ha
  rcases List.mem_append.1 ha with ha | ha
  · exact wired_of_mem_query a ha
  · exact wired_of_mem_query a ha

theorem exists_runs_clockRate (clock : Clock) (hl : n < limit) :
    ∃ (T : Transcript MailboxPort) (rate : UInt32),
      (clockRate (.bounded n) clock limit).Runs T (.ended (.ok rate)) ∧ T.ticks = n + n := by
  -- ones in all words of the answer: the clock runs
  obtain ⟨T, hT, hn, -⟩ := exists_runs_query_patient .clockState
    (.new { data := [clock.number, 0] }) 0x10 (.replicate _ 1) (Nat.le_refl n) hl
  generalize hstate : (requestFor .clockState (.new { data := [clock.number, 0] })).refill
    (Vector.replicate _ 1).toList = state at hT
  have hvalue : value state 1 = 1 := by
    rw [← hstate, Vector.toList_replicate]
    rfl
  have hon : ClockStateWord.on.isSet (value state 1) = true := by
    rw [hvalue]
    rfl
  obtain ⟨U, left, hU, hm⟩ : ∃ (U : Transcript MailboxPort) (left : Message Property),
      (query (.bounded n) .clockRate
        { state with body := { state.body with data := [clock.number, 0] } } limit).Runs U
          (.ended (.ok left)) ∧ U.ticks = n := by
    obtain ⟨U, hU, hm, -⟩ := exists_runs_query_patient .clockRate
      { state with body := { state.body with data := [clock.number, 0] } }
      0x20 (.replicate _ 0) (Nat.le_refl n) hl
    exact ⟨U, _, hU, hm⟩
  have hdone := hU.bind (f := fun left => Tree.halt (I := MailboxPort) (.ok (value left 1)))
    (.halt _)
  refine ⟨T ++ (U ++ []), value left 1, hT.bind ?_, by simp [hn, hm]⟩
  simp only [hon, if_true]
  exact hdone

end Mailbox

namespace MailboxPort

theorem onBoard_costs (r : Request) : (onBoard r limit).Costs 0 := by
  cases r <;> exact .request fun _ => .halt ..

end MailboxPort

/-- Reads of a message buffer. -/
def Board.IsCollect (r : Board.Request) : Prop := ∃ size, r = .collect size

theorem MailboxPort.drive_follows {p p' : Program MailboxPort α}
    (h : Tree.Follows Mailbox.IsCollect n (p limit) (p' limit)) :
    Tree.Follows Board.IsCollect n (drive p limit) (drive p' limit) := by
  refine h.lower onBoard_costs ?_
  rintro _ ⟨size, rfl⟩ next hnext
  exact .request (Vector.replicate size 0) ⟨size, rfl⟩ hnext

/-- Covered, and with no access behind the timeout. -/
abbrev CoversAll (op : Budget → Program I α) (n : Nat) : Prop := Covers (fun _ => False) op n

theorem coversAll_within (p : Program I α) (n : Nat) :
    CoversAll (fun budget => p.within budget) n :=
  covers_of_follows (within_follows p n)

/-- A board on which nothing happens. -/
def quietBoard : Behaviour Board
  | _, .read _ => (0 : UInt32)
  | _, .write .. | _, .post .. | _, .pause _ => ()
  | _, .locate => (0 : Nat)
  | _, .collect size => Vector.replicate size 0

namespace Uart0

theorem init_follows_zero (bitrate : UInt32) :
    Tree.Follows Board.IsCollect 0 (init .unlimited bitrate limit)
      (init (.bounded 0) bitrate limit) :=
  (MailboxPort.drive_follows (Mailbox.setClockRate_follows_zero ..)).bind_zero
    fun _ => within_follows ..

theorem init_costs (bitrate : UInt32) :
    (init (.bounded n) bitrate limit).Costs (n + n + n) :=
  ((Mailbox.setClockRate_costs ..).lower MailboxPort.onBoard_costs).bind
    fun _ => within_costs ..

theorem exists_runs_init (bitrate : UInt32) (hl : n < limit) :
    ∃ T o, (init (.bounded n) bitrate limit).Runs T (.ended o) ∧ n + n ≤ T.ticks := by
  obtain ⟨T, hT, hn, hA⟩ := Mailbox.exists_runs_setClockRate .uart referenceClock hl
  obtain ⟨U, hU, hm⟩ := hT.exists_lower (g := fun r => MailboxPort.onBoard r limit)
    fun a ha => hA a ha limit
  refine ⟨_, _, hU.bind (Tree.runs_record quietBoard (configure (.bounded n) bitrate limit) []), ?_⟩
  rw [ticks_append, hm, hn]
  exact Nat.le_add_right ..

end Uart0

namespace SerialPort

open Board

variable (port : SerialPort)

theorem exists_hasRoom : (∃ w, port.hasRoom w = false) ∧ ∃ w, port.hasRoom w = true := by
  cases port with
  | uart0 => exact ⟨⟨0x20, rfl⟩, ⟨0, rfl⟩⟩
  | uart1 => exact ⟨⟨0, rfl⟩, ⟨0x2, rfl⟩⟩
  | spi0 => exact ⟨⟨0, rfl⟩, ⟨0x40000, rfl⟩⟩

/-- A byte may need the whole budget. -/
theorem exists_runs_write (byte : UInt8) (hl : n < limit) :
    ∃ T, (port.write (.bounded n) byte limit).Runs T (.ended (.ok ())) ∧ T.ticks = n := by
  obtain ⟨ready, hasks, hwrite⟩ := port.write_eq (.bounded n) byte
  obtain ⟨⟨no, hno⟩, yes, hyes⟩ := port.exists_hasRoom
  obtain ⟨T, hT, hn⟩ := hasks.exists_runs_waitUntil no yes hno hyes hl
  have hset : (port.data.set byte.toUInt32 limit).Runs [.access (wrote port.data byte.toUInt32)]
      (.ended (.ok ())) := Tree.runs_request.2 ⟨(), _, rfl, .halt _⟩
  refine ⟨_, hwrite ▸ runs_within_bounded.2 (.inl ⟨hT.bind hset, ?_⟩), ?_⟩
  · simp [hn]
  · simp [hn]

theorem write_follows (byte : UInt8) (n limit : Nat) : Tree.Follows (fun _ => False) n
    (port.write .unlimited byte limit) (port.write (.bounded n) byte limit) := by
  cases port <;> exact within_follows ..

end SerialPort

/-! ## All operations -/

/-- Operations with one counter and a message, whose buffer may still be read behind a timeout. -/
inductive OneMessage : {α : Type} → (Budget → Program MailboxPort α) → Prop
  | propertyCall (tag : Tag) (message : Message Property) :
    OneMessage fun budget => Mailbox.raising (Mailbox.propertyCall budget tag message)
  | propertyCallMulti (message : Message (List Property)) :
    OneMessage fun budget => Mailbox.raising (Mailbox.propertyCallMulti budget message)
  | measuredClockRate (clock : Clock) :
    OneMessage fun budget => Mailbox.measuredClockRate budget clock
  | firmwareRevision : OneMessage Mailbox.firmwareRevision

theorem OneMessage.covers {op : Budget → Program MailboxPort α} (h : OneMessage op) (n : Nat) :
    Covers Mailbox.IsCollect op n := by
  cases h with
  | propertyCall => exact covers_of_follows fun _ => Mailbox.query_follows
  | propertyCallMulti => exact covers_of_follows fun _ => Mailbox.propertyCallMulti_follows
  | measuredClockRate | firmwareRevision =>
    exact covers_of_follows fun _ => Mailbox.query_follows.bind_costs fun _ => .halt ..

theorem OneCounter.covers {op : Budget → Program I α} (h : OneCounter op) (n : Nat) :
    CoversAll op n := by
  obtain ⟨p, rfl⟩ := h.exists_within
  exact coversAll_within p n

/-- An operation of so many parts, each of which starts from the whole budget. It is covered by an
empty budget only, and spends the budget once for each part at the most. -/
structure InParts (memory : I.Request → Prop) (op : Budget → Program I α) (parts n : Nat) :
    Prop where
  covers_iff : Covers memory op n ↔ n = 0
  costs : ∀ limit, (op (.bounded n) limit).Costs (parts * n)

/-- The operation may need the whole budget for each of its parts, and succeed. -/
def Exhausts (op : Budget → Program I α) (parts n : Nat) : Prop :=
  ∃ limit T a, (op (.bounded n) limit).Runs T (.ended (.ok a)) ∧ T.ticks = parts * n

/-- An operation that writes so many bytes, each under the whole budget. -/
structure ByteByByte (op : Budget → Program I α) (count n : Nat) : Prop where
  covers_iff : CoversAll op n ↔ n = 0 ∨ count ≤ 1
  costs : ∀ limit, (op (.bounded n) limit).Costs (count * n)

theorem Exhausts.inParts {memory : I.Request → Prop} {op : Budget → Program I α}
    (h : Exhausts op 2 n)
    (hzero : ∀ limit, Tree.Follows memory 0 (op .unlimited limit) (op (.bounded 0) limit))
    (hcosts : ∀ limit, (op (.bounded n) limit).Costs (n + n)) : InParts memory op 2 n where
  covers_iff := by
    obtain ⟨limit, T, a, hT, hn⟩ := h
    exact covers_iff_eq_zero hzero ⟨limit, T, _, hT, Nat.le_of_eq (Nat.two_mul n ▸ hn.symm)⟩
  costs limit := Nat.two_mul n ▸ hcosts limit

namespace Mailbox

theorem setClockRate_exhausts (clock : Clock) (rate : UInt32) (n : Nat) :
    Exhausts (fun budget => setClockRate budget clock rate) 2 n := by
  obtain ⟨T, hT, hn, -⟩ := exists_runs_setClockRate clock rate (Nat.lt_succ_self n)
  exact ⟨_, T, (), hT, hn.trans (Nat.two_mul n).symm⟩

theorem setClockRate_inParts (clock : Clock) (rate : UInt32) (n : Nat) :
    InParts IsCollect (fun budget => setClockRate budget clock rate) 2 n :=
  (setClockRate_exhausts clock rate n).inParts (fun _ => setClockRate_follows_zero ..)
    fun _ => setClockRate_costs ..

theorem clockRate_exhausts (clock : Clock) (n : Nat) :
    Exhausts (fun budget => clockRate budget clock) 2 n := by
  obtain ⟨T, rate, hT, hn⟩ := exists_runs_clockRate clock (Nat.lt_succ_self n)
  exact ⟨_, T, rate, hT, hn.trans (Nat.two_mul n).symm⟩

theorem clockRate_inParts (clock : Clock) (n : Nat) :
    InParts IsCollect (fun budget => clockRate budget clock) 2 n :=
  (clockRate_exhausts clock n).inParts (fun _ => clockRate_follows_zero ..)
    fun _ => clockRate_costs _

end Mailbox

theorem Uart0.init_inParts (bitrate : UInt32) (n : Nat) :
    InParts Board.IsCollect (fun budget => init budget bitrate) 3 n where
  covers_iff := covers_iff_eq_zero (fun _ => init_follows_zero ..)
    ⟨_, exists_runs_init bitrate (Nat.lt_succ_self n)⟩
  costs limit := by
    have hcosts : (init (.bounded n) bitrate limit).Costs (n + n + n) := init_costs bitrate
    rwa [← Nat.two_mul, ← Nat.succ_mul] at hcosts

theorem SerialPort.byteByByte (port : SerialPort) (bytes : List UInt8) (n : Nat) :
    ByteByByte (fun budget => bytes.forM (port.write budget)) bytes.length n where
  covers_iff := covers_forM_iff port.write_follows (fun byte _ _ => port.exists_runs_write byte) _
  costs _ := Tree.forM_costs (fun byte => (port.write_follows byte ..).costs) _

/-- The operations with one counter are covered by every budget. The composed operations are covered
by an empty budget only; they spend the budget at most once for each part, and the clock operations
may do so. A text, which has the whole budget for each byte, is covered if that is empty or there is
no second byte. -/
theorem covers_whole_operation_iff (n : Nat) :
    (∀ (I : Interface) (α : Type) (op : Budget → Program I α), OneCounter op → CoversAll op n) ∧
    (∀ (α : Type) (op : Budget → Program MailboxPort α), OneMessage op →
      Covers Mailbox.IsCollect op n) ∧
    (∀ clock rate,
      InParts Mailbox.IsCollect (fun budget => Mailbox.setClockRate budget clock rate) 2 n ∧
      Exhausts (fun budget => Mailbox.setClockRate budget clock rate) 2 n) ∧
    (∀ clock, InParts Mailbox.IsCollect (fun budget => Mailbox.clockRate budget clock) 2 n ∧
      Exhausts (fun budget => Mailbox.clockRate budget clock) 2 n) ∧
    (∀ bitrate, InParts Board.IsCollect (fun budget => Uart0.init budget bitrate) 3 n) ∧
    ∀ text : String,
      ByteByByte (fun budget => Uart0.writeText budget text) text.toUTF8.toList.length n ∧
      ByteByByte (fun budget => Uart1.writeText budget text) text.toUTF8.toList.length n := by
  refine ⟨fun _ _ _ h => h.covers n, fun _ _ h => h.covers n, ?_, ?_, ?_, ?_⟩
  · exact fun clock rate =>
      ⟨Mailbox.setClockRate_inParts clock rate n, Mailbox.setClockRate_exhausts clock rate n⟩
  · exact fun clock => ⟨Mailbox.clockRate_inParts clock n, Mailbox.clockRate_exhausts clock n⟩
  · exact fun bitrate => Uart0.init_inParts bitrate n
  · exact fun text => ⟨SerialPort.uart0.byteByByte _ n, SerialPort.uart1.byteByByte _ n⟩

namespace Mailbox

/-- A port that makes every call wait for one poll. -/
def slowPort : Behaviour MailboxPort :=
  MailboxPort.port (fun _ => false) (fun past => past.length % 7 == 3) fun _ => 0x18

/-- A budget of one unit, and two units spent. -/
theorem setClockRate_exceeds_budget :
    ((setClockRate (.bounded 1) .uart 3000000).record slowPort 2).outcome = .ok () ∧
      ((setClockRate (.bounded 1) .uart 3000000).record slowPort 2).ticks = 2 := by
  decide

end Mailbox

end Bcm2835
