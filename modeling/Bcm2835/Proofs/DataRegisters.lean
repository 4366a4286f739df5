import Bcm2835.Proofs.Board
import Bcm2835.Proofs.Everywhere
import Bcm2835.Proofs.Register.Bits
import Bcm2835.Proofs.Session
import Bcm2835.Spi0
import Bcm2835.Uart0
import Bcm2835.Uart1

/-! The data registers of the two UARTs and of the SPI master. An operation visits a data register
right behind a look at the status that allowed it, and an operation that runs out of its budget has
visited none. Each access is judged by those in front of it (`Guarded`); `data_registers_guarded`
is about any operations of the three ports in a row. -/

namespace Bcm2835

open Program Transcript

open Board

/-- The ports that carry bytes one by one. -/
inductive SerialPort where
  | uart0
  | uart1
  | spi0
  deriving DecidableEq, Repr

namespace SerialPort

def data : SerialPort → Register
  | uart0 => Uart0Block.dr
  | uart1 => Uart1Block.io
  | spi0 => Spi0Block.fifo

def status : SerialPort → Register
  | uart0 => Uart0Block.fr
  | uart1 => Uart1Block.stat
  | spi0 => Spi0Block.cs

/-- The status says that a byte can go out. -/
def hasRoom : SerialPort → UInt32 → Bool
  | uart0, word => !Uart0Fr.txff.isSet word
  | uart1, word => MuStat.txReady.isSet word
  | spi0, word => Spi0Cs.txd.isSet word

/-- The status says that a byte came in. -/
def hasData : SerialPort → UInt32 → Bool
  | uart0, word => !Uart0Fr.rxfe.isSet word
  | uart1, word => MuStat.rxReady.isSet word
  | spi0, word => Spi0Cs.rxd.isSet word

theorem status_ne_data (p q : SerialPort) : p.status.offset ≠ q.data.offset := by
  cases p <;> cases q <;> decide

theorem data_injective {p q : SerialPort} (h : p.data.offset = q.data.offset) : p = q := by
  revert h
  cases p <;> cases q <;> decide

/-! ## Accesses in order -/

/-- The access is allowed by the looks right in front of it. -/
structure Guarded (P : List (Access Board)) (a : Access Board) (_Q : List (Access Board)) :
    Prop where
  put : ∀ port word, a = wrote (data port) word →
    ∃ v, port.hasRoom v = true ∧ [looked port.status v] <:+ P
  take : ∀ port word, a = looked (data port) word →
    ∃ v, port.hasData v = true ∧ [looked port.status v] <:+ P
  /-- Only the bit of an active transfer is changed, and no transfer is cut short. -/
  stop : ∀ word, a = wrote Spi0Block.cs word → ∃ seen v, Spi0Cs.done.isSet seen = true ∧
    [looked Spi0Block.cs seen, looked Spi0Block.cs v] <:+ P ∧ word = v &&& ~~~0x80

/-- No data register is visited, and no transfer is stopped. -/
def Untouched (A : List (Access Board)) : Prop :=
  ∀ a ∈ A, (∀ port word, a ≠ looked (data port) word ∧ a ≠ wrote (data port) word) ∧
    ∀ word, a ≠ wrote Spi0Block.cs word

/-- There are only looks at the status. -/
def Looks (port : SerialPort) (A : List (Access Board)) : Prop :=
  ∀ a ∈ A, ∃ word, a = looked port.status word

variable {port : SerialPort} {A P Q : List (Access Board)} {v word : UInt32}

theorem lasting_guarded : Lasting Guarded := by
  intro X P a Q Y h
  have hsuffix {B : List (Access Board)} (hB : B <:+ P) : B <:+ X ++ P :=
    hB.trans (List.suffix_append X P)
  constructor
  · intro port word ha
    obtain ⟨v, hv, hP⟩ := h.put port word ha
    exact ⟨v, hv, hsuffix hP⟩
  · intro port word ha
    obtain ⟨v, hv, hP⟩ := h.take port word ha
    exact ⟨v, hv, hsuffix hP⟩
  · intro word ha
    obtain ⟨seen, v, hseen, hP, hword⟩ := h.stop word ha
    exact ⟨seen, v, hseen, hsuffix hP, hword⟩

theorem guarded_status (port : SerialPort) (word : UInt32) :
    Guarded P (looked port.status word) Q where
  put _ _ h := absurd h looked_ne_wrote
  take q _ h := absurd (offset_eq_of_looked h) (status_ne_data port q)
  stop _ h := absurd h looked_ne_wrote

theorem guarded_take (h : port.hasData v = true) :
    Guarded [looked port.status v] (looked port.data word) Q where
  put _ _ h := absurd h looked_ne_wrote
  take q _ hq := by
    obtain rfl := data_injective (offset_eq_of_looked hq)
    exact ⟨v, h, List.suffix_refl _⟩
  stop _ h := absurd h looked_ne_wrote

theorem guarded_put (h : port.hasRoom v = true) :
    Guarded [looked port.status v] (wrote port.data word) Q where
  put q _ hq := by
    obtain rfl := data_injective (offset_eq_of_wrote hq).1
    exact ⟨v, h, List.suffix_refl _⟩
  take _ _ h := absurd h.symm looked_ne_wrote
  stop _ h := absurd (offset_eq_of_wrote h).1.symm (status_ne_data spi0 port)

theorem guarded_stop {seen : UInt32} (h : Spi0Cs.done.isSet seen = true)
    (hword : word = v &&& ~~~0x80) :
    Guarded [looked Spi0Block.cs seen, looked Spi0Block.cs v] (wrote Spi0Block.cs word) Q where
  put q _ h := absurd (offset_eq_of_wrote h).1 (status_ne_data spi0 q)
  take _ _ h := absurd h.symm looked_ne_wrote
  stop _ hw := ⟨seen, v, h, List.suffix_refl _, (offset_eq_of_wrote hw).2.symm.trans hword⟩

theorem Looks.everywhere (h : Looks port A) : Everywhere Guarded A := by
  apply Everywhere.of_forall_mem
  intro a ha P Q
  obtain ⟨word, rfl⟩ := h a ha
  exact guarded_status port word

theorem Looks.untouched (h : Looks port A) : Untouched A := by
  intro a ha
  obtain ⟨word, rfl⟩ := h a ha
  refine ⟨fun q w => ⟨fun hq => ?_, looked_ne_wrote⟩, fun w => looked_ne_wrote⟩
  exact status_ne_data port q (offset_eq_of_looked hq)

theorem looks_map (port : SerialPort) (words : List UInt32) :
    Looks port (words.map (looked port.status)) := by
  intro a ha
  obtain ⟨word, -, rfl⟩ := List.mem_map.1 ha
  exact ⟨word, rfl⟩

/-- A look, and the accesses that it allows. -/
theorem everywhere_looked (h : Everywhere (fun P => Guarded (looked port.status v :: P)) A) :
    Everywhere Guarded (looked port.status v :: A) :=
  everywhere_cons.2 ⟨guarded_status port v, h⟩

theorem everywhere_visit {a : Access Board} (ha : Guarded [looked port.status v] a []) :
    Everywhere Guarded [looked port.status v, a] :=
  everywhere_looked (everywhere_cons.2 ⟨ha, everywhere_nil⟩)

/-! ## One operation -/

/-- All accesses are in order, and if the budget ran out nothing was touched. -/
structure Careful {α : Type} (T : Transcript Board) (s : Stop α) : Prop where
  guarded : Everywhere Guarded T.accesses
  untouched : s.result? = some (.error .timeout) → Untouched T.accesses

section
variable {α β : Type} {T : Transcript Board} {s : Stop α}

theorem Careful.map (h : Careful T s) (f : α → β) : Careful T (s.map f) where
  guarded := h.guarded
  untouched hs := h.untouched (Stop.result?_map_eq_error.1 hs)

theorem Looks.careful (h : Looks port T.accesses) : Careful T s where
  guarded := h.everywhere
  untouched _ := h.untouched

theorem careful_of_ok {a : α} (h : Everywhere Guarded T.accesses) : Careful T (.ended (.ok a)) :=
  ⟨h, fun hs => nomatch hs⟩

end

def read : SerialPort → Budget → Driver UInt8
  | uart0 => Uart0.read
  | uart1 => Uart1.read
  | spi0 => Spi0.read

def write : SerialPort → Budget → UInt8 → Driver Unit
  | uart0 => Uart0.write
  | uart1 => Uart1.write
  | spi0 => Spi0.write

def flush : SerialPort → Budget → Driver Unit
  | uart0 => Uart0.flush
  | uart1 => Uart1.flush
  | spi0 => Spi0.flush

/-- Each port reads in the same way: it waits for data and takes the byte. -/
theorem read_eq (port : SerialPort) (budget : Budget) :
    ∃ (ready : Driver Bool) (byte : UInt32 → UInt8),
      ready.Asks (Request.read port.status.offset) port.hasData ∧
      port.read budget = within budget (waitUntil ready >>= fun _ => byte <$> port.data.get) := by
  cases port with
  | uart0 => exact ⟨Uart0.poll, fun w => (Uart0Dr.data.read w).toUInt8, fun _ => rfl, rfl⟩
  | uart1 =>
    exact ⟨Uart1Block.stat.isSet MuStat.rxReady, fun w => (MuIo.data.read w).toUInt8, fun _ => rfl,
      rfl⟩
  | spi0 => exact ⟨Spi0Block.cs.isSet Spi0Cs.rxd, UInt32.toUInt8, fun _ => rfl, rfl⟩

/-- A byte in a field of eight bits at the low end of a register. -/
theorem value_byte {f : Field} (hoffset : f.offset = 0) (hwidth : f.width = 8) (byte : UInt8) :
    (f.val byte.toUInt32).value = byte.toUInt32 := by
  apply UInt32.toNat_inj.1
  rw [Field.toNat_value_of_offset_zero hoffset, hwidth, UInt8.toNat_toUInt32]
  exact Nat.mod_eq_of_lt byte.toNat_lt

/-- Each port writes in the same way: it waits for room and hands over the byte, with zeros above
it. -/
theorem write_eq (port : SerialPort) (budget : Budget) (byte : UInt8) :
    ∃ ready : Driver Bool, ready.Asks (Request.read port.status.offset) port.hasRoom ∧
      port.write budget byte =
        within budget (waitUntil ready >>= fun _ => port.data.set byte.toUInt32) := by
  cases port with
  | uart0 =>
    refine ⟨not <$> Uart0Block.fr.isSet Uart0Fr.txff, fun _ => rfl, ?_⟩
    rw [← value_byte (f := Uart0Dr.data) rfl rfl]
    rfl
  | uart1 =>
    refine ⟨Uart1Block.stat.isSet MuStat.txReady, fun _ => rfl, ?_⟩
    rw [← value_byte (f := MuIo.data) rfl rfl]
    rfl
  | spi0 => exact ⟨Spi0Block.cs.isSet Spi0Cs.txd, fun _ => rfl, rfl⟩

section
variable {budget : Budget} {limit : Nat} {T : Transcript Board}

/-- An operation that waits for its status and then goes on with accesses which the last look
allows. -/
theorem careful_of_wait {α : Type} {ready : Driver Bool} {good : UInt32 → Bool}
    {f : Unit → Driver α} {s : Stop α}
    (hasks : ready.Asks (Request.read port.status.offset) good)
    (hf : ∀ v U s₀, good v = true → (f () limit).Runs U s₀ →
      (∃ a, s₀ = .ended (.ok a)) ∧ Everywhere Guarded (looked port.status v :: accesses U))
    (h : (within budget (waitUntil ready >>= f) limit).Runs T s) : Careful T s := by
  obtain ⟨words, ⟨hA, -⟩ | ⟨v, U, s₀, b, hv, hA, hU, rfl⟩⟩ := hasks.runs_within_bind h
  · apply Looks.careful
    rw [hA]
    exact looks_map port words
  · obtain ⟨⟨a, rfl⟩, hguarded⟩ := hf v U s₀ hv hU
    apply careful_of_ok
    rw [hA]
    exact (looks_map port words).everywhere.append lasting_guarded hguarded

theorem read_careful {s : Stop UInt8} (h : (port.read budget limit).Runs T s) : Careful T s := by
  obtain ⟨ready, byte, hasks, hread⟩ := port.read_eq budget
  rw [hread] at h
  refine careful_of_wait hasks (fun v U s₀ hv hU => ?_) h
  obtain ⟨w, V, rfl, hV⟩ := Tree.runs_request.1 hU
  obtain ⟨rfl, rfl⟩ := Tree.runs_halt.1 hV
  exact ⟨⟨_, rfl⟩, everywhere_visit (guarded_take hv)⟩

theorem write_careful {byte : UInt8} {s : Stop Unit} (h : (port.write budget byte limit).Runs T s) :
    Careful T s := by
  obtain ⟨ready, hasks, hwrite⟩ := port.write_eq budget byte
  rw [hwrite] at h
  refine careful_of_wait hasks (fun v U s₀ hv hU => ?_) h
  obtain ⟨u, V, rfl, hV⟩ := Tree.runs_request.1 hU
  obtain ⟨rfl, rfl⟩ := Tree.runs_halt.1 hV
  exact ⟨⟨_, rfl⟩, everywhere_visit (guarded_put hv)⟩

/-- The word that stops a transfer differs from the word that was read in one bit. -/
theorem stop_word (v : UInt32) : Spi0Cs.ta.clear.applyTo v = v &&& ~~~0x80 := UInt32.or_zero

theorem stop_careful {s : Stop Unit} (h : (Spi0.stop budget limit).Runs T s) : Careful T s := by
  have hasks : (Spi0Block.cs.isSet Spi0Cs.done).Asks (Request.read spi0.status.offset)
      Spi0Cs.done.isSet := fun _ => rfl
  refine careful_of_wait hasks (fun seen U s₀ hseen hU => ?_) h
  obtain ⟨v, V, rfl, hV⟩ := Tree.runs_request.1 hU
  obtain ⟨u, W, rfl, hW⟩ := Tree.runs_request.1 hV
  obtain ⟨rfl, rfl⟩ := Tree.runs_halt.1 hW
  refine ⟨⟨_, rfl⟩, everywhere_looked ?_⟩
  have hstop := guarded_stop (Q := []) hseen (stop_word v)
  exact everywhere_cons.2 ⟨guarded_status spi0 v, everywhere_cons.2 ⟨hstop, everywhere_nil⟩⟩

theorem isSet_looks {f : Field} {s : Stop Bool} (h : (port.status.isSet f limit).Runs T s) :
    Looks port T.accesses := by
  obtain ⟨word, U, rfl, hU⟩ := Tree.runs_request.1 h
  obtain ⟨rfl, -⟩ := Tree.runs_halt.1 hU
  exact looks_map port [word]

theorem uart0_poll_looks {s : Stop Bool} (h : (Uart0.poll limit).Runs T s) :
    Looks uart0 T.accesses := by
  obtain ⟨s₀, hlook, -⟩ := runs_map.1 h
  exact isSet_looks hlook

theorem uart1_poll_looks {count : Nat} {s : Stop Bool} (h : (Uart1.poll count limit).Runs T s) :
    Looks uart1 T.accesses := by
  rw [Uart1.poll] at h
  split at h
  · obtain ⟨rfl, -⟩ := Tree.runs_halt.1 h
    exact looks_map uart1 []
  · exact isSet_looks h

theorem spi0_poll_looks {count : Nat} {s : Stop Bool} (h : (Spi0.poll count limit).Runs T s) :
    Looks spi0 T.accesses := by
  rw [Spi0.poll] at h
  split at h
  · obtain ⟨rfl, -⟩ := Tree.runs_halt.1 h
    exact looks_map spi0 []
  · split at h
    · exact isSet_looks h
    · split at h
      · exact isSet_looks h
      · exact isSet_looks h

/-- A question that is put a second time if the first answer asks for it. -/
def askTwice (port : SerialPort) (more : UInt32 → Bool) (answer : UInt32 → Bool) (without : Bool) :
    Tree Board Bool :=
  .request (I := Board) (.read port.status.offset) fun v =>
    if more v then .request (I := Board) (.read port.status.offset) fun w => .halt (.ok (answer w))
    else .halt (.ok without)

theorem runs_askTwice {more answer : UInt32 → Bool} {without : Bool} {s : Stop Bool}
    (h : (askTwice port more answer without).Runs T s) :
    (∃ v, T.accesses = [looked port.status v] ∧ s = .ended (.ok without)) ∨
      ∃ v w, more v = true ∧ T.accesses = [looked port.status v, looked port.status w] ∧
        s = .ended (.ok (answer w)) := by
  obtain ⟨v, U, rfl, hU⟩ := Tree.runs_request.1 h
  split at hU
  · next hv =>
    obtain ⟨w, V, rfl, hV⟩ := Tree.runs_request.1 hU
    obtain ⟨rfl, rfl⟩ := Tree.runs_halt.1 hV
    exact .inr ⟨v, w, hv, rfl, rfl⟩
  · obtain ⟨rfl, rfl⟩ := Tree.runs_halt.1 hU
    exact .inl ⟨v, rfl, rfl⟩

theorem uart0_drained_apply :
    Uart0.drained limit =
      askTwice uart0 Uart0Fr.txfe.isSet (fun w => !Uart0Fr.busy.isSet w) false := by
  refine congrArg (Tree.request _) (funext fun v => ?_)
  by_cases h : Uart0Fr.txfe.isSet v = true
  · rw [if_pos h]
    exact congrFun (if_pos h) limit
  · rw [if_neg h]
    exact congrFun (if_neg h) limit

theorem spi0_drained_apply :
    Spi0.drained limit = askTwice spi0 Spi0Cs.ta.isSet Spi0Cs.done.isSet true := by
  refine congrArg (Tree.request _) (funext fun v => ?_)
  by_cases h : Spi0Cs.ta.isSet v = true
  · rw [if_pos h]
    exact congrFun (if_pos h) limit
  · rw [if_neg h]
    exact congrFun (if_neg h) limit

theorem askTwice_looks {more answer : UInt32 → Bool} {without : Bool} {s : Stop Bool}
    (h : (askTwice port more answer without).Runs T s) : Looks port T.accesses := by
  rcases runs_askTwice h with ⟨v, hA, -⟩ | ⟨v, w, -, hA, -⟩
  · rw [hA]
    exact looks_map port [v]
  · rw [hA]
    exact looks_map port [v, w]

theorem flush_eq (port : SerialPort) (budget : Budget) :
    ∃ ready : Driver Bool,
      ready.Leaves (Looks port) ∧ port.flush budget = within budget (waitUntil ready) := by
  cases port with
  | uart0 =>
    refine ⟨Uart0.drained, fun limit U s hU => ?_, rfl⟩
    rw [uart0_drained_apply] at hU
    exact askTwice_looks hU
  | uart1 => exact ⟨uart1.status.isSet MuStat.txDone, fun limit U s hU => isSet_looks hU, rfl⟩
  | spi0 =>
    refine ⟨Spi0.drained, fun limit U s hU => ?_, rfl⟩
    rw [spi0_drained_apply] at hU
    exact askTwice_looks hU

theorem flush_looks {s : Stop Unit} (h : (port.flush budget limit).Runs T s) :
    Looks port T.accesses := by
  obtain ⟨ready, hready, hflush⟩ := port.flush_eq budget
  have hlooks : Additive (Looks port) := additive_forall _
  rw [hflush] at h
  exact (hlooks.waitUntil hready).within budget h

/-- The FIFO of the full UART was empty, and then the line at rest. -/
theorem uart0_flush_ends (h : (Uart0.flush budget limit).Runs T (.ended (.ok ()))) :
    ∃ A v w, T.accesses = A ++ [looked Uart0Block.fr v, looked Uart0Block.fr w] ∧
      Uart0Fr.txfe.isSet v = true ∧ Uart0Fr.busy.isSet w = false := by
  obtain ⟨hT, -⟩ := runs_within_ok.1 h
  obtain ⟨U, V, rfl, hV⟩ := runs_waitUntil_ok hT
  rw [uart0_drained_apply] at hV
  rcases runs_askTwice hV with ⟨v, -, hs⟩ | ⟨v, w, hv, hA, hs⟩
  · cases hs
  · refine ⟨U.accesses, v, w, ?_, hv, ?_⟩
    · rw [accesses_append, hA]
      rfl
    · simpa using hs.symm

end

/-! ## Operations in a row -/

/-- What can be done with the bytes of the ports. Only the UARTs take texts, and only the SPI master
stops. -/
inductive Action where
  | pollUart0
  | pollUart1 (count : Nat)
  | pollSpi0 (count : Nat)
  | read (port : SerialPort) (budget : Budget)
  | write (port : SerialPort) (budget : Budget) (byte : UInt8)
  | textUart0 (budget : Budget) (text : String)
  | textUart1 (budget : Budget) (text : String)
  | flush (port : SerialPort) (budget : Budget)
  | stopSpi0 (budget : Budget)
  deriving DecidableEq, Repr

namespace Action

def program : Action → Driver (Reply UInt8)
  | pollUart0 => .flag <$> Uart0.poll
  | pollUart1 count => .flag <$> Uart1.poll count
  | pollSpi0 count => .flag <$> Spi0.poll count
  | read port budget => .word <$> port.read budget
  | write port budget byte => (fun _ => .done) <$> port.write budget byte
  | textUart0 budget text => (fun _ => .done) <$> Uart0.writeText budget text
  | textUart1 budget text => (fun _ => .done) <$> Uart1.writeText budget text
  | flush port budget => (fun _ => .done) <$> port.flush budget
  | stopSpi0 budget => (fun _ => .done) <$> Spi0.stop budget

/-- The bytes of a text, each of which is written under the whole budget. -/
def text? : Action → Option (SerialPort × Budget × List UInt8)
  | textUart0 budget text => some (.uart0, budget, text.toUTF8.toList)
  | textUart1 budget text => some (.uart1, budget, text.toUTF8.toList)
  | _ => none

end Action

variable {limit : Nat}

/-- An operation of which the registers that were visited are in order. -/
structure Kept (e : Episode Action.program limit) : Prop where
  guarded : Everywhere Guarded e.transcript.accesses
  /-- A flush of the full UART ends with an empty FIFO, and then a line at rest. -/
  flushed : ∀ budget r, e.action = .flush .uart0 budget → e.result? = some (.ok r) →
    ∃ A v w, e.transcript.accesses = A ++ [looked Uart0Block.fr v, looked Uart0Block.fr w] ∧
      Uart0Fr.txfe.isSet v = true ∧ Uart0Fr.busy.isSet w = false
  /-- What runs out of its budget has touched nothing. -/
  untouched : e.action.text? = none → e.result? = some (.error .timeout) →
    Untouched e.transcript.accesses
  /-- A text that runs out of the budget of one of its bytes has touched nothing for that byte. -/
  unwritten : ∀ port budget bytes, e.action.text? = some (port, budget, bytes) →
    e.result? = some (.error .timeout) → ∃ done byte rest U V, bytes = done ++ byte :: rest ∧
      e.transcript = U ++ V ∧ (done.forM (port.write budget) limit).Runs U (.ended (.ok ())) ∧
      (port.write budget byte limit).Runs V (.ended (.error .timeout)) ∧ Untouched V.accesses

section
variable {budget : Budget} {T : Transcript Board}

/-- An operation that is no text and no flush. -/
theorem Careful.kept {e : Episode Action.program limit} (h : Careful e.transcript e.stop)
    (hflush : ∀ budget, e.action ≠ .flush .uart0 budget) (htext : e.action.text? = none) :
    Kept e where
  guarded := h.guarded
  flushed budget _ he := absurd he (hflush budget)
  untouched _ := h.untouched
  unwritten port budget bytes he := by
    rw [htext] at he
    cases he

theorem texts_kept {e : Episode Action.program limit} {bytes : List UInt8} {s : Stop Unit}
    (htext : e.action.text? = some (port, budget, bytes))
    (hT : (bytes.forM (port.write budget) limit).Runs e.transcript s)
    (hs : e.stop = s.map fun _ => .done) : Kept e where
  guarded := (additive_everywhere lasting_guarded).forM
    (fun _ _ _ _ _ h => (write_careful h).guarded) hT
  flushed b r he := by
    rw [he] at htext
    cases htext
  untouched he := by
    rw [htext] at he
    cases he
  unwritten p b bs he hresult := by
    cases htext.symm.trans he
    rw [Episode.result?, hs, Stop.result?_map_eq_error] at hresult
    rcases runs_forM hT with rfl | ⟨done, byte, rest, U, V, hbytes, hparts, hU, hV⟩
    · cases hresult
    · rw [Stop.result?_eq_error] at hresult
      rw [hresult] at hV
      exact ⟨done, byte, rest, U, V, hbytes, hparts, hU, hV, (write_careful hV).untouched rfl⟩

/-- Every operation keeps to the order, wherever it is left. -/
theorem kept (e : Episode Action.program limit) : Kept e := by
  obtain ⟨action, T, s, hT⟩ := e
  cases action with
  | pollUart0 =>
    obtain ⟨s₀, hrun, rfl⟩ := runs_map.1 hT
    exact (uart0_poll_looks hrun).careful.kept (fun _ h => nomatch h) rfl
  | pollUart1 count =>
    obtain ⟨s₀, hrun, rfl⟩ := runs_map.1 hT
    exact (uart1_poll_looks hrun).careful.kept (fun _ h => nomatch h) rfl
  | pollSpi0 count =>
    obtain ⟨s₀, hrun, rfl⟩ := runs_map.1 hT
    exact (spi0_poll_looks hrun).careful.kept (fun _ h => nomatch h) rfl
  | read port budget =>
    obtain ⟨s₀, hrun, rfl⟩ := runs_map.1 hT
    exact ((read_careful hrun).map _).kept (fun _ h => nomatch h) rfl
  | write port budget byte =>
    obtain ⟨s₀, hrun, rfl⟩ := runs_map.1 hT
    exact ((write_careful hrun).map _).kept (fun _ h => nomatch h) rfl
  | textUart0 budget text =>
    obtain ⟨s₀, hrun, hs⟩ := runs_map.1 hT
    exact texts_kept rfl hrun hs
  | textUart1 budget text =>
    obtain ⟨s₀, hrun, hs⟩ := runs_map.1 hT
    exact texts_kept rfl hrun hs
  | flush port budget =>
    obtain ⟨s₀, hrun, rfl⟩ := runs_map.1 hT
    have hlooks : Looks port T.accesses := flush_looks hrun
    refine ⟨hlooks.everywhere, ?_, fun _ _ => hlooks.untouched, fun _ _ _ h => nomatch h⟩
    intro b r hflush hresult
    obtain ⟨rfl, rfl⟩ := Action.flush.inj hflush
    obtain ⟨u, rfl, -⟩ := Stop.result?_map_eq_ok.1 hresult
    exact uart0_flush_ends hrun
  | stopSpi0 budget =>
    obtain ⟨s₀, hrun, rfl⟩ := runs_map.1 hT
    exact ((stop_careful hrun).map _).kept (fun _ h => nomatch h) rfl

end

/-- In a run of any operations of the three ports, wherever it is left, each visit to a data
register and each stop of a transfer is right behind the look that allowed it. -/
theorem data_registers_guarded {actions : List Action} {T : Transcript Board}
    {s : Stop (List (Except Error (Reply UInt8)))}
    (h : (session Action.program actions limit).Runs T s) :
    Everywhere Guarded T.accesses ∧
      ∃ episodes : List (Episode Action.program limit), Divides actions T s episodes ∧
        ∀ e ∈ episodes, Kept e := by
  obtain ⟨episodes, hdivides⟩ := runs_session h
  refine ⟨?_, episodes, hdivides, fun e _ => kept e⟩
  rw [hdivides.accesses_eq]
  exact Everywhere.flatMap lasting_guarded fun e => (kept e).guarded

/-- Hardware whose registers read as these words in turn, and as 0 afterwards. -/
def reading (words : List UInt32) : Behaviour Board
  | past, .read _ => words.getD past.length 0
  | _, .write .. | _, .post .. | _, .pause _ => ()
  | _, .locate => (0 : Nat)
  | _, .collect size => Vector.replicate size 0

/-- A port that has room at the second look, a text that gets one byte out, a stop behind a transfer
that is done, a flush, and a read that finds nothing. -/
def mixedActions : List Action :=
  [.write .uart0 (.bounded 1) 0x41, .textUart1 (.bounded 0) "hi", .stopSpi0 (.bounded 0),
    .flush .uart0 .unlimited, .read .spi0 (.bounded 0)]

def mixedPort : Behaviour Board :=
  reading [0x20, 0, 0, 2, 0, 0, 0x10000, 0x100A2, 0, 0x80, 0x80]

theorem data_registers_guarded_mixedPort :
    ((session Action.program mixedActions).record mixedPort 2).outcome =
      .ok [.ok .done, .error .timeout, .ok .done, .ok .done, .error .timeout] ∧
    Everywhere Guarded
      ((session Action.program mixedActions).record mixedPort 2).transcript.accesses ∧
    ∃ episodes : List (Episode Action.program 2),
      episodes.map Episode.action = mixedActions ∧ ∀ e ∈ episodes, Kept e := by
  have houtcome : ((session Action.program mixedActions).record mixedPort 2).outcome =
      .ok [.ok .done, .error .timeout, .ok .done, .ok .done, .error .timeout] := by
    decide +kernel
  obtain ⟨hguarded, episodes, hdivides, hkept⟩ :=
    data_registers_guarded (Tree.runs_record mixedPort (session Action.program mixedActions 2) [])
  obtain ⟨hactions, -⟩ := hdivides.complete _ (congrArg Stop.ended houtcome)
  exact ⟨houtcome, hguarded, episodes, hactions, hkept⟩

end SerialPort

end Bcm2835
