import Bcm2835.Proofs.Limits
import Bcm2835.Proofs.SpiSlave.Handshake

/-! How much a synchronization under a bounded budget can read. Markers cost nothing, but only one
run of them is free: every other one is paid for by the byte that breaks its run. So the budget
bounds the bytes, and with them the rounds, and a limit above that bound is no limit
(`synchronize_bounded_ends`). The bound is reached where each run breaks with its last byte
(`record_brokenLine`). -/

namespace Bcm2835.SpiSlave

open Program Transcript PcmPort

theorem steady_nextByte : Steady nextByte :=
  Steady.bind (Steady.waitUntil (.const _)) fun _ => Steady.const _

theorem steady_putByte (byte : UInt8) : Steady (putByte byte) :=
  Steady.bind (Steady.waitUntil (.const _)) fun _ => Steady.bind (.const _) fun _ =>
    Steady.drain (.const _) fun _ _ _ => .refl _

theorem steady_seekMarker (x : Alignment × SyncReport) : Steady (seekMarker x) := fun _ _ hn => by
  rw [seekMarker_apply, seekMarker_apply]
  split
  · exact .refl _
  · refine (steady_nextByte hn).bind fun b => ?_
    split
    · exact .refl _
    · exact (Tree.Extends.refl _).bind fun _ => .refl _

theorem steady_seekAcknowledgement (count : Nat) :
    Steady (seekAcknowledgement count) := fun _ _ hn => by
  rw [seekAcknowledgement_apply, seekAcknowledgement_apply]
  exact (steady_nextByte hn).bind fun _ => .refl _

theorem steady_exchangeMarkers : Steady exchangeMarkers := fun _ _ hn => by
  rw [exchangeMarkers_apply, exchangeMarkers_apply]
  exact (Steady.loop steady_seekMarker _ hn).bind fun _ => .report _ <|
    (steady_putByte marker hn).bind fun _ =>
      (Steady.loop steady_seekAcknowledgement _ hn).bind fun _ => .refl _

variable {n limit : Nat} {T : Transcript PcmPort} {s : Stop SyncReport}

theorem ticks_le_of_runs_bounded {p : Program PcmPort SyncReport}
    (h : (within (.bounded n) p limit).Runs T s) : T.ticks ≤ n := by
  obtain ⟨_, _, -, hb, -⟩ := runs_within.1 h
  exact (Budget.spend?_bounded.1 hb).1

theorem length_received_le (h : (synchronize (.bounded n) limit).Runs T s) :
    (received T.accesses).length ≤ syncRun * n + syncRun + 1 := by
  have hticks := ticks_le_of_runs_bounded h
  obtain ⟨s₀, -, hT, -⟩ := runs_within.1 h
  have := Nat.mul_le_mul_left syncRun hticks
  have := (runs_exchangeMarkers hT).2.1
  omega

theorem length_sent_le (h : (synchronize (.bounded n) limit).Runs T s) :
    (sent T.accesses).length ≤ 1 := by
  obtain ⟨s₀, -, hT, -⟩ := runs_within.1 h
  have hstage := (runs_exchangeMarkers hT).1
  generalize T.accesses = A at hstage
  cases hstage <;> simp

/-- Nothing is given up if the limit leaves room for what the budget allows. -/
theorem outcome_of_limit {o : Outcome SyncReport}
    (h : (synchronize (.bounded n) limit).Runs T (.ended o))
    (hl : syncRun * n + syncRun + 1 < limit) :
    (∃ report, o = .ok report) ∨ o = .error .timeout := by
  rcases runs_within_bounded.1 h with ⟨hT, hticks⟩ | ⟨-, -, rfl⟩
  · rcases (runs_exchangeMarkers hT).2.2 with ⟨report, hs⟩ | hs | ⟨hs, hlimit⟩
    · cases hs
      exact .inl ⟨report, rfl⟩
    · cases hs
    · have := Nat.mul_le_mul_left syncRun hticks
      omega
  · exact .inr rfl

/-- Runs that break with their last byte, that many, and then one that does not. -/
def brokenRuns : Nat → List UInt8
  | 0 => List.replicate syncRun marker
  | n + 1 => List.replicate 9 marker ++ 0 :: brokenRuns n

theorem length_brokenRuns (n : Nat) : (brokenRuns n).length = 10 * n + 10 := by
  induction n with
  | zero => rfl
  | succ n ih =>
    rw [brokenRuns, List.length_append, List.length_cons, ih, List.length_replicate]
    omega

theorem misreads_brokenRuns (n : Nat) : misreads (brokenRuns n) = n := by
  induction n with
  | zero => rfl
  | succ n ih =>
    rw [brokenRuns, misreads_append, misreads_cons, ih]
    exact Nat.zero_add _

theorem completed_brokenRuns (n : Nat) : Alignment.Completed (brokenRuns n) := by
  induction n with
  | zero => exact Alignment.completed_replicate
  | succ n ih => exact ih.broken (by decide) (by decide)

theorem map_byte_prompt (bytes : List UInt8) :
    (bytes.map Arrival.prompt).map Arrival.byte = bytes := by
  rw [List.map_map]
  exact List.map_id _

def brokenCourse (n : Nat) : Course where
  search := (brokenRuns n).map Arrival.prompt
  full := 0
  stale := []
  skipped := []
  last := 0
  completed := (map_byte_prompt _).symm ▸ completed_brokenRuns n
  skipped_ne := by simp

theorem cost_brokenCourse (n : Nat) : (brokenCourse n).cost = n := by
  have hprompt (bytes : List UInt8) : ((bytes.map Arrival.prompt).map Arrival.waits).sum = 0 := by
    induction bytes with
    | nil => rfl
    | cons b bytes ih => simpa using ih
  rw [Course.cost, brokenCourse, hprompt, map_byte_prompt, misreads_brokenRuns]
  simp

/-- A port that delivers broken runs, and then the acknowledgement behind the marker. -/
def brokenLine (n : Nat) : Behaviour PcmPort :=
  .repeating (brokenCourse n).accesses (port (fun _ => false) (fun _ => false) fun _ => 0)

/-- On a line that breaks each run with its last byte, all that the budget allows is read. -/
theorem record_brokenLine (n : Nat) {limit : Nat} (hl : 10 * n + 10 < limit) :
    (synchronize (.bounded n)).record (brokenLine n) limit =
      ⟨(brokenCourse n).transcript, .ok (brokenCourse n).report⟩ := by
  have hfits : (brokenCourse n).Fits limit := by
    constructor <;> simp [brokenCourse, length_brokenRuns] <;> omega
  have hticks : (brokenCourse n).transcript.ticks ≤ n :=
    Nat.le_of_eq ((Course.ticks_transcript _).trans (cost_brokenCourse n))
  have hruns : (synchronize (.bounded n) limit).Runs (brokenCourse n).transcript
      (.ended (.ok (brokenCourse n).report)) :=
    runs_within_ok.2 ⟨runs_exchangeMarkers_ok.2 ⟨_, hfits, rfl, rfl⟩, _,
      Budget.spend?_bounded.2 ⟨hticks, rfl⟩⟩
  refine Tree.record_eq_of_runs hruns ?_
  rw [Course.accesses_transcript]
  exact Behaviour.answers_repeating _ [] _

theorem length_received_brokenCourse (n : Nat) :
    (received (brokenCourse n).transcript.accesses).length = 10 * n + 11 := by
  rw [Course.accesses_transcript, Course.received_accesses]
  simp [brokenCourse, length_brokenRuns]

/-- A synchronization under a bounded budget ends on every port, with a report or a timeout, after
no more than `10 * n + 11` bytes read and one byte sent. On some port it ends with a report after
just as many bytes. -/
theorem synchronize_bounded_ends (n : Nat) :
    (∀ port : Behaviour PcmPort, ∃ R : Record PcmPort SyncReport,
      (∀ limit > 10 * n + 11, (synchronize (.bounded n)).record port limit = R) ∧
        ((∃ report, R.outcome = .ok report) ∨ R.outcome = .error .timeout) ∧
        (received R.transcript.accesses).length ≤ 10 * n + 11 ∧
        (sent R.transcript.accesses).length ≤ 1) ∧
      ∃ port : Behaviour PcmPort, ∃ R : Record PcmPort SyncReport,
        (∀ limit > 10 * n + 10, (synchronize (.bounded n)).record port limit = R) ∧
          (∃ report, R.outcome = .ok report) ∧
          (received R.transcript.accesses).length = 10 * n + 11 := by
  constructor
  · intro port
    have hrun := Tree.runs_record port (synchronize (.bounded n) (10 * n + 12)) []
    have hends := outcome_of_limit hrun (Nat.lt_succ_self _)
    refine ⟨_, fun limit hl => ?_, hends, length_received_le hrun, length_sent_le hrun⟩
    -- the run at the bound was not given up, so larger limits leave it as it is
    refine (steady_exchangeMarkers.within _).record_eq hl fun hstalled => ?_
    rcases hends with ⟨report, ho⟩ | ho
    · cases hstalled.symm.trans ho
    · cases hstalled.symm.trans ho
  · exact ⟨brokenLine n, _, fun limit hl => record_brokenLine n hl, ⟨_, rfl⟩,
      length_received_brokenCourse n⟩

theorem synchronize_bounded_ends_brokenLine :
    ∃ R : Record PcmPort SyncReport,
      (∀ limit > 10 * 2 + 11, (synchronize (.bounded 2)).record (brokenLine 2) limit = R) ∧
        R.outcome = .ok ⟨30, 2, 1⟩ ∧ R.ticks = 2 ∧
        received R.transcript.accesses = brokenRuns 2 ++ [acknowledgement] := by
  obtain ⟨R, hR, -⟩ := (synchronize_bounded_ends 2).1 (brokenLine 2)
  have hrun : (synchronize (.bounded 2)).record (brokenLine 2) 32 = R := hR 32 (by decide)
  exact ⟨R, hR, hrun ▸ by decide +kernel, hrun ▸ by decide +kernel, hrun ▸ by decide +kernel⟩

end Bcm2835.SpiSlave
