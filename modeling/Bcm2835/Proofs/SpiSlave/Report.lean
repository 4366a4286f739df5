import Mathlib.Order.Bounds.Basic
import Bcm2835.Proofs.SpiSlave.Handshake

/-! What the report of a successful synchronization says about the bytes that came out of the FIFO:
where the first run of markers ended, how many of the bytes up to there were no markers, and where
the first acknowledgement stood among the bytes behind the drain. -/

namespace Bcm2835.SpiSlave

open Program Transcript PcmPort

theorem misreads_of_ne {junk : List UInt8} (h : ∀ b ∈ junk, b ≠ marker) :
    misreads junk = junk.length := List.countP_eq_length.2 fun b hb => by simpa using h b hb

theorem misreads_replicate_marker (n : Nat) : misreads (List.replicate n marker) = 0 := by
  simp [misreads, List.countP_replicate]

namespace Alignment

variable {junk bytes stream : List UInt8}

theorem Completed.isLeast (h : Completed bytes) (hs : bytes <+: stream) :
    IsLeast {k | List.replicate syncRun marker <:+ stream.take k} bytes.length := by
  constructor
  · change _ <:+ stream.take bytes.length
    rw [← List.prefix_iff_eq_take.1 hs]
    exact isAligned_after_iff.1 h.aligned
  · intro k hk
    change _ <:+ stream.take k at hk
    by_contra hlt
    have hlt : k < bytes.length := Nat.lt_of_not_le hlt
    obtain ⟨rest, rfl⟩ := hs
    rw [List.take_append_of_le_length (Nat.le_of_lt hlt), ← isAligned_after_iff,
      h.pending k hlt] at hk
    cases hk

/-- Bytes that are no markers do not matter for where the first run of markers ends. -/
theorem completed_junk_append (h : ∀ b ∈ junk, b ≠ marker) :
    Completed (junk ++ List.replicate syncRun marker) := by
  induction junk with
  | nil => exact completed_replicate
  | cons b junk ih =>
    have hrest := ih fun c hc => h c (List.mem_cons_of_mem _ hc)
    exact hrest.broken (Nat.succ_pos _) (h b List.mem_cons_self)

end Alignment

/-- What a report says about the accesses of its run. -/
structure SyncReport.Describes (r : SyncReport) (A : List (Access PcmPort)) : Prop where
  /-- The first place at which the last bytes were all markers. -/
  consumed : IsLeast {k | List.replicate syncRun marker <:+ (received A).take k} r.consumed
  glitches : r.glitches = misreads ((received A).take r.consumed)
  /-- One marker goes out behind these bytes, the drain takes what is there up to the first poll
  that finds nothing, whatever it is, and the bytes behind it are counted up to the
  acknowledgement. -/
  handshake : ∃ before stale skipped,
    A = before ++ given marker ::
        (drained stale ++ rxPoll false :: (skipped ++ [taken acknowledgement])) ∧
      sent before = [] ∧ received before = (received A).take r.consumed ∧
      sent skipped = [] ∧ acknowledgement ∉ received skipped ∧
      r.handshakeBytes = (received skipped).length + 1 ∧
      (received A).length = r.consumed + stale.length + r.handshakeBytes

/-- If the bytes are some that are no markers and then a run of markers, the former are the
glitches, and the report counts the bytes up to the end of the run. -/
theorem SyncReport.Describes.of_junk {r : SyncReport} {A : List (Access PcmPort)} {junk rest}
    (h : r.Describes A) (hjunk : ∀ b ∈ junk, b ≠ marker)
    (hA : received A = junk ++ List.replicate syncRun marker ++ rest) :
    r.consumed = junk.length + syncRun ∧ r.glitches = junk.length := by
  have hlength : (junk ++ List.replicate syncRun marker).length = junk.length + syncRun := by simp
  have hconsumed : r.consumed = junk.length + syncRun :=
    (h.consumed.unique ((Alignment.completed_junk_append hjunk).isLeast ⟨rest, hA.symm⟩)).trans
      hlength
  refine ⟨hconsumed, ?_⟩
  rw [h.glitches, hconsumed, hA, ← hlength, List.take_left, misreads_append, misreads_of_ne hjunk,
    misreads_replicate_marker]
  rfl

namespace Course

variable (c : Course)

theorem describes_report : c.report.Describes c.accesses := by
  have htake : (received c.accesses).take c.report.consumed = c.search.map Arrival.byte := by
    rw [received_accesses, consumed_report, ← List.length_map, List.take_left]
  constructor
  · rw [consumed_report, ← List.length_map]
    exact c.completed.isLeast ⟨_, c.received_accesses.symm⟩
  · rw [htake, glitches_report]
  · refine ⟨c.before, c.stale,
      c.skipped.flatMap Arrival.accesses ++ (List.replicate c.last (rxPoll false) ++ [rxPoll true]),
      ?_, ?_, ?_, ?_, ?_, ?_, ?_⟩
    · simp [accesses, answer, Arrival.accesses]
    · simp [before]
    · rw [htake]
      simp [before]
    · simp
    · simpa using c.skipped_ne
    · simp
    · rw [received_accesses]
      simp
      omega

end Course

variable {budget : Budget} {limit : Nat} {T : Transcript PcmPort} {report : SyncReport}

/-- A report describes its run, in particular one in which the markers come behind bytes that are no
markers. -/
theorem synchronize_reports (h : (synchronize budget limit).Runs T (.ended (.ok report))) :
    report.Describes T.accesses ∧
      ∀ junk rest, (∀ b ∈ junk, b ≠ marker) →
        received T.accesses = junk ++ List.replicate syncRun marker ++ rest →
        report.consumed = junk.length + syncRun ∧ report.glitches = junk.length := by
  obtain ⟨c, -, rfl, rfl⟩ := runs_exchangeMarkers_ok.1 (runs_within_ok.1 h).1
  rw [Course.accesses_transcript]
  exact ⟨c.describes_report, fun _ _ => c.describes_report.of_junk⟩

/-- A port that delivers one byte that is no marker before the run, and has no room for the marker
at first. Behind the marker an acknowledgement is there already, and another one comes late. -/
def hastyPort : Behaviour PcmPort :=
  port (fun past => past.length != 30) (fun past => past.length != 25) fun past =>
    (0x42 :: List.replicate 10 0x81 ++ [0x7E, 0x00, 0x7E] : List UInt8).getD
      (received past).length 0

theorem synchronize_reports_hastyPort :
    ((synchronize (.bounded 4)).record hastyPort 12).outcome = .ok ⟨11, 1, 2⟩ ∧
      SyncReport.Describes ⟨11, 1, 2⟩
        ((synchronize (.bounded 4)).record hastyPort 12).transcript.accesses :=
  ⟨rfl, (synchronize_reports (Tree.runs_record hastyPort (synchronize (.bounded 4) 12) [])).1⟩

end Bcm2835.SpiSlave
