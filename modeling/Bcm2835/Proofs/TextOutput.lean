import Bcm2835.Proofs.DataRegisters

/-! Texts on the two UARTs. The looks at the status of a port are answered one after another; what
they are answered decides how far a text gets (`Course`), whatever else the hardware does. The
course of a text is found byte by byte (`exists_course`), each with the whole budget for its
wait. -/

namespace Bcm2835

open Program Transcript

open Board

/-- The budget pays for this many units of waiting. -/
def Budget.Allows : Budget → Nat → Prop
  | .unlimited, _ => True
  | .bounded n, k => k ≤ n

theorem Budget.allows_iff {b : Budget} {k : Nat} : b.Allows k ↔ ∃ b', b.spend? k = some b' := by
  cases b with
  | unlimited => exact iff_of_true trivial ⟨_, rfl⟩
  | bounded n =>
    constructor
    · intro h
      exact ⟨_, Budget.spend?_bounded.2 ⟨h, rfl⟩⟩
    · rintro ⟨b', h⟩
      exact (Budget.spend?_bounded.1 h).1

/-- The answers from place `k` on: `m` of them say no, and the next one says yes. -/
structure FirstYes (ready : Nat → Bool) (k m : Nat) : Prop where
  before : ∀ j < m, ready (k + j) = false
  there : ready (k + m) = true

/-- One number for each of several waits in a row: how many answers say no before the first that
says yes. The waits take the answers from the first place up to the second one. -/
inductive Waits (ready : Nat → Bool) : Nat → List Nat → Nat → Prop
  | nil (k : Nat) : Waits ready k [] k
  | cons {k m n : Nat} {ms : List Nat} :
    FirstYes ready k m → Waits ready (k + m + 1) ms n → Waits ready k (m :: ms) n

/-- There is a first yes within `limit` answers, or they all say no. -/
theorem firstYes_or_forall (ready : Nat → Bool) (k limit : Nat) :
    (∃ m < limit, FirstYes ready k m) ∨ ∀ j < limit, ready (k + j) = false := by
  induction limit with
  | zero => exact .inr fun j hj => absurd hj (Nat.not_lt_zero j)
  | succ limit ih =>
    rcases ih with ⟨m, hm, hfirst⟩ | hnone
    · exact .inl ⟨m, Nat.lt_succ_of_lt hm, hfirst⟩
    cases hlast : ready (k + limit) with
    | true => exact .inl ⟨limit, Nat.lt_succ_self limit, hnone, hlast⟩
    | false =>
      refine .inr fun j hj => ?_
      rcases Nat.lt_succ_iff_lt_or_eq.1 hj with hj | rfl
      · exact hnone j hj
      · exact hlast

namespace SerialPort

/-- The looks at the status. -/
def looks (port : SerialPort) (A : List (Access Board)) : Nat :=
  A.countP fun a => a.request = .read port.status.offset

/-- The looks at the status are answered with these words in turn. -/
def Shows (port : SerialPort) (answers : Nat → UInt32) (hw : Behaviour Board) : Prop :=
  ∀ past, hw past (.read port.status.offset) = answers (port.looks past)

section
variable {port : SerialPort} {answers : Nat → UInt32} {budget : Budget} {limit : Nat}

/-- The answers from place `k` on, `m` of them. -/
def span (answers : Nat → UInt32) (k m : Nat) : List UInt32 := (List.range' k m).map answers

theorem length_span (answers : Nat → UInt32) (k m : Nat) : (span answers k m).length = m := by
  rw [span, List.length_map, List.length_range']

/-- Looks that find no room, from place `k` on, each with its unit of waiting. -/
def refused (port : SerialPort) (answers : Nat → UInt32) (k m : Nat) : Transcript Board :=
  missed (I := Board) (r := .read port.status.offset) (span answers k m)

@[simp] theorem ticks_refused (k m : Nat) : ticks (refused port answers k m) = m :=
  (ticks_missed _).trans (length_span answers k m)

@[simp] theorem accesses_refused (k m : Nat) :
    accesses (refused port answers k m) = (span answers k m).map (looked port.status) :=
  accesses_missed _

/-- A byte goes out behind `m` looks that find no room. -/
def putOut (port : SerialPort) (answers : Nat → UInt32) (k m : Nat) (byte : UInt8) :
    Transcript Board :=
  refused port answers k m ++
    [.access (looked port.status (answers (k + m))), .access (wrote port.data byte.toUInt32)]

/-- How bytes go out if the answers from place `k` on are these. -/
inductive Course (port : SerialPort) (answers : Nat → UInt32) (budget : Budget) (limit : Nat) :
    Nat → List UInt8 → Transcript Board → Outcome Unit → Prop
  | done (k : Nat) : Course port answers budget limit k [] [] (.ok ())
  | byte {k m : Nat} {bytes : List UInt8} {T : Transcript Board} {o : Outcome Unit} (b : UInt8) :
    FirstYes (fun i => port.hasRoom (answers i)) k m → budget.Allows m → m < limit →
      Course port answers budget limit (k + m + 1) bytes T o →
      Course port answers budget limit k (b :: bytes) (putOut port answers k m b ++ T) o
  /-- The budget does not last until there is room. -/
  | late {k n : Nat} (b : UInt8) (bytes : List UInt8) :
    budget = .bounded n → n < limit → (∀ j ≤ n, port.hasRoom (answers (k + j)) = false) →
      Course port answers budget limit k (b :: bytes)
        (refused port answers k n ++ [.access (looked port.status (answers (k + n)))])
        (.error .timeout)
  /-- The wait is given up before the budget is spent. -/
  | stuck {k : Nat} (b : UInt8) (bytes : List UInt8) :
    budget.Allows limit → (∀ j < limit, port.hasRoom (answers (k + j)) = false) →
      Course port answers budget limit k (b :: bytes) (refused port answers k limit) .stalled

theorem exists_course (port : SerialPort) (answers : Nat → UInt32) (budget : Budget) (limit : Nat)
    (k : Nat) (bytes : List UInt8) : ∃ T o, Course port answers budget limit k bytes T o := by
  induction bytes generalizing k with
  | nil => exact ⟨_, _, .done k⟩
  | cons b bytes ih =>
    rcases firstYes_or_forall (fun i => port.hasRoom (answers i)) k limit with
      ⟨m, hm, hfirst⟩ | hnone
    · match budget, ih (k + m + 1) with
      | .unlimited, ⟨T, o, hrest⟩ => exact ⟨_, _, .byte b hfirst trivial hm hrest⟩
      | .bounded n, ⟨T, o, hrest⟩ =>
        rcases Nat.lt_or_ge n m with hlt | hle
        · refine ⟨_, _, .late b bytes rfl (Nat.lt_trans hlt hm) fun j hj => ?_⟩
          exact hfirst.before j (Nat.lt_of_le_of_lt hj hlt)
        · exact ⟨_, _, .byte b hfirst hle hm hrest⟩
    · match budget with
      | .unlimited => exact ⟨_, _, .stuck b bytes trivial hnone⟩
      | .bounded n =>
        rcases Nat.lt_or_ge n limit with hlt | hle
        · refine ⟨_, _, .late b bytes rfl hlt fun j hj => ?_⟩
          exact hnone j (Nat.lt_of_le_of_lt hj hlt)
        · exact ⟨_, _, .stuck b bytes hle hnone⟩

/-! ## The run of a course -/

theorem misses_of_forall {k m : Nat} (h : ∀ j < m, port.hasRoom (answers (k + j)) = false) :
    ∀ w ∈ span answers k m, port.hasRoom w = false := by
  intro w hw
  obtain ⟨i, hi, rfl⟩ := List.mem_map.1 hw
  obtain ⟨hle, hlt⟩ := List.mem_range'_1.1 hi
  obtain ⟨j, rfl⟩ := Nat.exists_eq_add_of_le hle
  exact h j (Nat.lt_of_add_lt_add_left hlt)

theorem runs_write_ok {k m : Nat} (b : UInt8)
    (h : FirstYes (fun i => port.hasRoom (answers i)) k m) (hb : budget.Allows m) (hm : m < limit) :
    (port.write budget b limit).Runs (putOut port answers k m b) (.ended (.ok ())) := by
  obtain ⟨ready, hasks, hwrite⟩ := port.write_eq budget b
  rw [hwrite, runs_within_ok, bind_apply, hasks.waitUntil_apply]
  constructor
  · have hpoll : (Tree.poll (I := Board) (.read port.status.offset) port.hasRoom limit).Runs
        (refused port answers k m ++ [.access (looked port.status (answers (k + m)))])
        (.ended (.ok ())) :=
      Tree.runs_poll.2 ⟨span answers k m, misses_of_forall h.before,
        .inr ⟨(length_span answers k m).trans_lt hm, _, rfl, (if_pos h.there).symm⟩⟩
    refine Tree.runs_bind_ok.2 ⟨_, [.access (wrote port.data b.toUInt32)], (), ?_, hpoll,
      .request _ (.halt _)⟩
    rw [putOut, List.append_assoc]
    rfl
  · apply Budget.allows_iff.1
    simpa [putOut] using hb

theorem runs_write_late {k n : Nat} (b : UInt8) (hb : budget = .bounded n) (hn : n < limit)
    (h : ∀ j ≤ n, port.hasRoom (answers (k + j)) = false) :
    (port.write budget b limit).Runs
      (refused port answers k n ++ [.access (looked port.status (answers (k + n)))])
      (.ended (.error .timeout)) := by
  obtain ⟨ready, hasks, hwrite⟩ := port.write_eq budget b
  subst hb
  rw [hwrite]
  refine runs_within_bounded.2 (.inr ⟨?_, by simp, rfl⟩)
  rw [bind_apply, hasks.waitUntil_apply]
  have hstop : (if port.hasRoom (answers (k + n)) then Stop.ended (.ok ()) else .waiting) =
      Stop.waiting (α := Unit) := if_neg (Bool.eq_false_iff.1 (h n (Nat.le_refl n)))
  exact Tree.Runs.bind_early (Tree.runs_poll.2 ⟨span answers k n,
    misses_of_forall fun j hj => h j (Nat.le_of_lt hj),
    .inr ⟨(length_span answers k n).trans_lt hn, _, rfl, hstop.symm⟩⟩) rfl

theorem runs_write_stuck {k : Nat} (b : UInt8) (hb : budget.Allows limit)
    (h : ∀ j < limit, port.hasRoom (answers (k + j)) = false) :
    (port.write budget b limit).Runs (refused port answers k limit) (.ended .stalled) := by
  obtain ⟨ready, hasks, hwrite⟩ := port.write_eq budget b
  obtain ⟨b', hb'⟩ := Budget.allows_iff.1 hb
  rw [hwrite]
  refine runs_within.2 ⟨.ended .stalled, b', ?_, by simpa using hb', rfl⟩
  rw [bind_apply, hasks.waitUntil_apply]
  exact Tree.Runs.bind_early (Tree.runs_poll.2 ⟨span answers k limit, misses_of_forall h,
    .inl ⟨length_span answers k limit, rfl, rfl⟩⟩) rfl

variable {k : Nat} {bytes : List UInt8} {T : Transcript Board} {o : Outcome Unit}

theorem Course.runs (h : Course port answers budget limit k bytes T o) :
    (bytes.forM (port.write budget) limit).Runs T (.ended o) := by
  induction h with
  | done k => exact .halt _
  | byte b hfirst hb hm _ ih => exact (runs_write_ok b hfirst hb hm).bind ih
  | late b bytes hb hn hnone => exact (runs_write_late b hb hn hnone).bind_early rfl
  | stuck b bytes hb hnone => exact (runs_write_stuck b hb hnone).bind_early rfl

/-! ## The answers in a course -/

theorem looks_append (port : SerialPort) (A B : List (Access Board)) :
    port.looks (A ++ B) = port.looks A + port.looks B := List.countP_append

theorem looks_looked (port : SerialPort) (word : UInt32) :
    port.looks [looked port.status word] = 1 := by
  simp [looks]

theorem looks_visit (port : SerialPort) (v word : UInt32) :
    port.looks [looked port.status v, wrote port.data word] = 1 := by
  simp [looks]

theorem looks_span (k m : Nat) :
    port.looks ((span answers k m).map (looked port.status)) = m := by
  rw [looks, List.countP_eq_length.2, List.length_map, length_span]
  intro a ha
  obtain ⟨w, -, rfl⟩ := List.mem_map.1 ha
  exact decide_eq_true rfl

section
variable {hw : Behaviour Board} {past : List (Access Board)}

theorem Shows.answers_looked (hs : Shows port answers hw) (hk : port.looks past = k) :
    hw.Answers past [looked port.status (answers k)] := by
  subst hk
  exact ⟨hs past, trivial⟩

theorem Shows.answers_span (hs : Shows port answers hw) (hk : port.looks past = k) (m : Nat) :
    hw.Answers past ((span answers k m).map (looked port.status)) := by
  induction m generalizing k past with
  | zero => trivial
  | succ m ih =>
    rw [span, List.range'_succ, List.map_cons, List.map_cons]
    refine ⟨(hs.answers_looked hk).1, ih ?_⟩
    rw [looks_append, hk, looks_looked]

/-- Hardware that shows these answers gives every answer in a course. -/
theorem Course.answered (h : Course port answers budget limit k bytes T o)
    (hs : Shows port answers hw) (hk : port.looks past = k) : hw.Answers past T.accesses := by
  induction h generalizing past with
  | done k => trivial
  | @byte k m bytes T o b hfirst hb hm _ ih =>
    have hlooks : port.looks (past ++ (span answers k m).map (looked port.status)) = k + m := by
      rw [looks_append, hk, looks_span]
    rw [accesses_append, putOut, accesses_append, accesses_refused, List.append_assoc]
    refine Behaviour.answers_append.2 ⟨hs.answers_span hk m, ?_⟩
    refine Behaviour.answers_append.2 ⟨⟨(hs.answers_looked hlooks).1, rfl, trivial⟩, ih ?_⟩
    rw [looks_append, hlooks]
    exact congrArg (k + m + ·) (looks_visit port (answers (k + m)) b.toUInt32)
  | @late k n b bytes hb hn hnone =>
    rw [accesses_append, accesses_refused]
    refine Behaviour.answers_append.2 ⟨hs.answers_span hk n, hs.answers_looked ?_⟩
    rw [looks_append, hk, looks_span]
  | stuck b bytes hb hnone =>
    rw [accesses_refused]
    exact hs.answers_span hk limit

/-- The course of the bytes is what happens, on hardware that shows these answers. -/
theorem Course.record_eq (h : Course port answers budget limit 0 bytes T o)
    (hs : Shows port answers hw) :
    (bytes.forM (port.write budget)).record hw limit = ⟨T, o⟩ :=
  Tree.record_eq_of_runs h.runs (h.answered hs rfl)

end

/-! ## What a course comes to -/

/-- The words that go out when these bytes do. -/
def zeroExtended (bytes : List UInt8) : List UInt32 := bytes.map UInt8.toUInt32

theorem writes_span (k m : Nat) :
    writes port.data ((span answers k m).map (looked port.status)) = [] :=
  writes_map_looked ..

theorem writes_putOut (k m : Nat) (b : UInt8) :
    writes port.data (putOut port answers k m b).accesses = [b.toUInt32] := by
  rw [putOut, accesses_append, accesses_refused, writes_append, writes_span]
  exact writes_wrote_self port.data b.toUInt32 []

/-- The status is looked at and bytes are handed over, and nothing else is done. -/
def OnlyWrites (port : SerialPort) (A : List (Access Board)) : Prop :=
  ∀ a ∈ A, (∃ w, a = looked port.status w) ∨ ∃ w, a = wrote port.data w

theorem Course.onlyWrites (h : Course port answers budget limit k bytes T o) :
    OnlyWrites port T.accesses := by
  have hlooks (k m : Nat) : OnlyWrites port ((span answers k m).map (looked port.status)) :=
    fun a ha => .inl (looks_map port _ a ha)
  have happend {A B : List (Access Board)} (hA : OnlyWrites port A) (hB : OnlyWrites port B) :
      OnlyWrites port (A ++ B) := List.forall_mem_append.2 ⟨hA, hB⟩
  have hlooked (w : UInt32) : OnlyWrites port [looked port.status w] :=
    List.forall_mem_singleton.2 (.inl ⟨w, rfl⟩)
  have hwrote (w : UInt32) : OnlyWrites port [wrote port.data w] :=
    List.forall_mem_singleton.2 (.inr ⟨w, rfl⟩)
  induction h with
  | done k => exact List.forall_mem_nil _
  | @byte k m _ _ _ b _ _ _ _ ih =>
    rw [accesses_append, putOut, accesses_append, accesses_refused]
    exact happend (happend (hlooks k m) (happend (hlooked _) (hwrote _))) ih
  | @late k n =>
    rw [accesses_append, accesses_refused]
    exact happend (hlooks k n) (hlooked _)
  | @stuck k =>
    rw [accesses_refused]
    exact hlooks k limit

/-- A text that is through is out as a whole, and no wait was too long. -/
theorem Course.of_ok (h : Course port answers budget limit k bytes T (.ok ())) :
    writes port.data T.accesses = zeroExtended bytes ∧
      ∃ ms n, Waits (fun i => port.hasRoom (answers i)) k ms n ∧ ms.length = bytes.length ∧
        ∀ m ∈ ms, budget.Allows m ∧ m < limit := by
  generalize ho : Outcome.ok () = o at h
  induction h with
  | done k => exact ⟨rfl, [], k, .nil k, rfl, List.forall_mem_nil _⟩
  | @byte k m bytes T o b hfirst hb hm _ ih =>
    obtain ⟨hwrites, ms, n, hwaits, hlength, hms⟩ := ih ho
    refine ⟨?_, m :: ms, n, .cons hfirst hwaits, congrArg (· + 1) hlength,
      List.forall_mem_cons.2 ⟨⟨hb, hm⟩, hms⟩⟩
    rw [accesses_append, writes_append, writes_putOut, hwrites]
    rfl
  | late | stuck => cases ho

/-- Waits that are short enough let the whole text through. -/
theorem course_of_waits {ms : List Nat} {n : Nat}
    (h : Waits (fun i => port.hasRoom (answers i)) k ms n) (hlength : ms.length = bytes.length)
    (hms : ∀ m ∈ ms, budget.Allows m ∧ m < limit) :
    ∃ T, Course port answers budget limit k bytes T (.ok ()) := by
  induction h generalizing bytes with
  | nil k =>
    obtain rfl := List.length_eq_zero_iff.1 hlength.symm
    exact ⟨_, .done k⟩
  | @cons k m n ms hfirst _ ih =>
    obtain ⟨b, bytes, rfl⟩ := List.exists_cons_of_length_eq_add_one hlength.symm
    obtain ⟨⟨hb, hm⟩, hms⟩ := List.forall_mem_cons.1 hms
    obtain ⟨T, hT⟩ := ih (Nat.succ_injective hlength) hms
    exact ⟨_, .byte b hfirst hb hm hT⟩

/-- The text stops at a byte whose wait takes more than the whole budget. What is in front of it is
out, and nothing of it or behind it. -/
theorem Course.of_error {e : Error} (h : Course port answers budget limit k bytes T (.error e)) :
    e = .timeout ∧ ∃ n done b rest ms i, budget = .bounded n ∧ bytes = done ++ b :: rest ∧
      writes port.data T.accesses = zeroExtended done ∧
      Waits (fun i => port.hasRoom (answers i)) k ms i ∧ ms.length = done.length ∧
      (∀ m ∈ ms, m ≤ n) ∧ ∀ j ≤ n, port.hasRoom (answers (i + j)) = false := by
  generalize ho : Outcome.error e = o at h
  induction h with
  | @byte k m bytes T o b hfirst hb hm _ ih =>
    obtain ⟨he, n, done, c, rest, ms, i, rfl, rfl, hwrites, hwaits, hlength, hms, hnone⟩ := ih ho
    refine ⟨he, n, b :: done, c, rest, m :: ms, i, rfl, rfl, ?_, .cons hfirst hwaits,
      congrArg (· + 1) hlength, List.forall_mem_cons.2 ⟨hb, hms⟩, hnone⟩
    rw [accesses_append, writes_append, writes_putOut, hwrites]
    rfl
  | @late k n b bytes hb hn hnone =>
    cases ho
    refine ⟨rfl, n, [], b, bytes, [], k, hb, rfl, ?_, .nil k, rfl, List.forall_mem_nil _, hnone⟩
    rw [accesses_append, accesses_refused, writes_append, writes_span]
    rfl
  | done | stuck => cases ho

/-- A text ends, in one of two ways, unless a wait is given up before the budget is spent. -/
theorem Course.ends (h : Course port answers budget limit k bytes T o) :
    o = .ok () ∨ o = .error .timeout ∨ o = .stalled ∧ budget.Allows limit := by
  induction h with
  | done k => exact .inl rfl
  | byte _ _ _ _ _ ih => exact ih
  | late => exact .inr (.inl rfl)
  | stuck b bytes hb _ => exact .inr (.inr ⟨rfl, hb⟩)

/-- Bytes go out in order and all of them, or up to the first one whose wait takes more than the
budget, which each of them has for itself. The run ends as `done` then, or as `failed`. -/
structure SpellsOut {α : Type} (port : SerialPort) (answers : Nat → UInt32) (budget : Budget)
    (bytes : List UInt8) (limit : Nat) (done failed : Outcome α) (R : Record Board α) : Prop where
  only : OnlyWrites port R.transcript.accesses
  /-- Only a wait that the budget would still pay for can be given up. -/
  ends : R.outcome = done ∨ R.outcome = failed ∨ R.outcome = .stalled ∧ budget.Allows limit
  ok_iff : R.outcome = done ↔
    ∃ ms n, Waits (fun i => port.hasRoom (answers i)) 0 ms n ∧ ms.length = bytes.length ∧
      ∀ m ∈ ms, budget.Allows m ∧ m < limit
  of_ok : R.outcome = done → writes port.data R.transcript.accesses = bytes.map UInt8.toUInt32
  of_error : R.outcome = failed →
    ∃ n front b rest ms i, budget = .bounded n ∧ bytes = front ++ b :: rest ∧
      writes port.data R.transcript.accesses = front.map UInt8.toUInt32 ∧
      Waits (fun i => port.hasRoom (answers i)) 0 ms i ∧ ms.length = front.length ∧
      (∀ m ∈ ms, m ≤ n) ∧ ∀ j ≤ n, port.hasRoom (answers (i + j)) = false

theorem Shows.spellsOut {hw : Behaviour Board} (hs : Shows port answers hw) (budget : Budget)
    (bytes : List UInt8) (limit : Nat) :
    SpellsOut port answers budget bytes limit (.ok ()) (.error .timeout)
      ((bytes.forM (port.write budget)).record hw limit) := by
  obtain ⟨T, o, hcourse⟩ := exists_course port answers budget limit 0 bytes
  have hrecord := hcourse.record_eq hs
  rw [hrecord]
  constructor
  · exact hcourse.onlyWrites
  · exact hcourse.ends
  · constructor
    · rintro rfl
      exact hcourse.of_ok.2
    · rintro ⟨ms, n, hwaits, hlength, hms⟩
      obtain ⟨T', hcourse'⟩ := course_of_waits hwaits hlength hms
      exact congrArg Record.outcome (hrecord.symm.trans (hcourse'.record_eq hs))
  · rintro rfl
    exact hcourse.of_ok.1
  · rintro rfl
    exact hcourse.of_error.2

/-- What is told a formatter is what happens. -/
theorem SpellsOut.wrapping {hw : Behaviour Board} {p : Driver Unit}
    (h : SpellsOut port answers budget bytes limit (.ok ()) (.error .timeout) (p.record hw limit)) :
    SpellsOut port answers budget bytes limit (.ok (.ok ())) (.ok (.error .failed))
      ((p.wrapping fun _ => FormatError.failed).record hw limit) := by
  have hrecord : (p.wrapping fun _ => FormatError.failed).record hw limit =
      ⟨(p.record hw limit).transcript, (p.record hw limit).outcome.wrapped fun _ => .failed⟩ :=
    record_wrapping _ p
  rw [hrecord]
  refine ⟨h.only, ?_, Outcome.wrapped_eq_ok.trans h.ok_iff, ?_, ?_⟩
  · rcases h.ends with ho | ho | ⟨ho, hallows⟩
    · exact .inl (congrArg (Outcome.wrapped _) ho)
    · exact .inr (.inl (congrArg (Outcome.wrapped _) ho))
    · exact .inr (.inr ⟨congrArg (Outcome.wrapped _) ho, hallows⟩)
  · intro ho
    exact h.of_ok (Outcome.wrapped_eq_ok.1 ho)
  · intro ho
    obtain ⟨e, he, -⟩ := Outcome.wrapped_eq_error.1 ho
    rcases h.ends with ho | ho | ⟨ho, -⟩
    · cases ho.symm.trans he
    · exact h.of_error ho
    · cases ho.symm.trans he

end

/-- A text goes out as its bytes in UTF-8, each with zeros above it, on both UARTs: for every budget
and for all answers to the looks at the status. A formatter that writes it is told whether it got
through. -/
theorem texts_spelled_out (budget : Budget) (text : String) (limit : Nat) (hw : Behaviour Board)
    (answers : Nat → UInt32) :
    (uart0.Shows answers hw →
      SpellsOut uart0 answers budget text.toUTF8.toList limit (.ok ()) (.error .timeout)
        ((Uart0.writeText budget text).record hw limit) ∧
      SpellsOut uart0 answers budget text.toUTF8.toList limit (.ok (.ok ())) (.ok (.error .failed))
        ((Uart0.formatText budget text).record hw limit)) ∧
    (uart1.Shows answers hw →
      SpellsOut uart1 answers budget text.toUTF8.toList limit (.ok ()) (.error .timeout)
        ((Uart1.writeText budget text).record hw limit) ∧
      SpellsOut uart1 answers budget text.toUTF8.toList limit (.ok (.ok ())) (.ok (.error .failed))
        ((Uart1.formatText budget text).record hw limit)) := by
  constructor
  · intro hs
    have hwrite := hs.spellsOut budget text.toUTF8.toList limit
    exact ⟨hwrite, hwrite.wrapping⟩
  · intro hs
    have hwrite := hs.spellsOut budget text.toUTF8.toList limit
    exact ⟨hwrite, hwrite.wrapping⟩

/-- Hardware that shows these words at the looks at the status of a port. -/
def showing (port : SerialPort) (answers : Nat → UInt32) : Behaviour Board
  | past, .read offset =>
    (if offset = port.status.offset then answers (port.looks past) else 0 : UInt32)
  | _, .write .. | _, .post .. | _, .pause _ => ()
  | _, .locate => (0 : Nat)
  | _, .collect size => Vector.replicate size 0

theorem shows_showing (port : SerialPort) (answers : Nat → UInt32) :
    port.Shows answers (port.showing answers) := fun _ => if_pos rfl

/-- A FIFO that is full at every second look, and always from the seventh look on. -/
def filling (i : Nat) : UInt32 := if i % 2 = 0 ∨ 6 ≤ i then 0x20 else 0

/-- Of a text with a letter of two bytes, three bytes get out on a port that fills up, and all four
on one that always has room. -/
theorem texts_spelled_out_filling :
    (SpellsOut uart0 filling (.bounded 1) "hé!".toUTF8.toList 2 (.ok (.ok ()))
        (.ok (.error .failed))
        ((Uart0.formatText (.bounded 1) "hé!").record (uart0.showing filling) 2) ∧
      ((Uart0.formatText (.bounded 1) "hé!").record (uart0.showing filling) 2).outcome =
        .ok (.error .failed) ∧
      writes uart0.data ((Uart0.formatText (.bounded 1) "hé!").record (uart0.showing filling)
        2).transcript.accesses = [0x68, 0xC3, 0xA9]) ∧
    SpellsOut uart1 (fun _ => 2) .unlimited "hé!".toUTF8.toList 1 (.ok ()) (.error .timeout)
        ((Uart1.writeText .unlimited "hé!").record (uart1.showing fun _ => 2) 1) ∧
      writes uart1.data ((Uart1.writeText .unlimited "hé!").record (uart1.showing fun _ => 2)
        1).transcript.accesses = [0x68, 0xC3, 0xA9, 0x21] := by
  obtain ⟨huart0, -⟩ := texts_spelled_out (.bounded 1) "hé!" 2 (uart0.showing filling) filling
  obtain ⟨-, huart1⟩ := texts_spelled_out .unlimited "hé!" 1 (uart1.showing fun _ => 2) fun _ => 2
  exact ⟨⟨(huart0 (shows_showing uart0 filling)).2, by decide +kernel, by decide +kernel⟩,
    (huart1 (shows_showing uart1 fun _ => 2)).1, by decide +kernel⟩

end SerialPort

end Bcm2835
