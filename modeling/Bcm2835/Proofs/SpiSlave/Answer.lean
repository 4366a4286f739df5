import Mathlib.Algebra.Order.BigOperators.Group.List
import Mathlib.Algebra.Order.Ring.Nat
import Bcm2835.Proofs.SpiSlave.Bounds
import Bcm2835.Proofs.SpiSlave.ClockSafety

/-! What becomes of the answer to the marker. The marker goes out as any byte does, so what is there
behind it is thrown away up to the first poll that finds nothing, an acknowledgement like anything
else. A synchronization takes the first acknowledgement exactly if some poll up to it found nothing
(`takes_answer_iff`). -/

namespace Bcm2835.SpiSlave

open Program Transcript PcmPort

variable {hw : Behaviour PcmPort} {A P Q before after : List (Access PcmPort)} {limit : Nat}

theorem Stage.exists_of_given (h : Stage (P ++ given marker :: Q)) :
    ∃ bs : List Arrival, ∃ full, Alignment.Completed (bs.map Arrival.byte) ∧
      P = bs.flatMap Arrival.inspection ++ List.replicate full (txPoll false) ++ [txPoll true] := by
  generalize hA : P ++ given marker :: Q = A at h
  cases h with
  | searching bs polls _ => simpa using congrArg sent hA
  | aligned bs full _ => simpa using congrArg sent hA
  | listening bs full heard polls hbs =>
    rw [List.append_cons _ _ [given marker], List.append_assoc, List.singleton_append] at hA
    exact ⟨bs, full, hbs, (eq_of_append_given (by simp) (by simp) hA.symm).1⟩

/-- Bytes of which one was waited for: those before it were there, and the others come behind a poll
that found nothing. -/
theorem exists_drained {others : List Arrival} {waits : Nat} {byte : UInt8}
    (hothers : ∀ b ∈ others, b.byte ≠ byte)
    (h : ∃ b ∈ others ++ [Arrival.mk waits byte], 0 < b.waits) :
    ∃ stale, ∃ skipped : List Arrival, ∃ last, (∀ b ∈ skipped, b.byte ≠ byte) ∧
      (others ++ [Arrival.mk waits byte]).flatMap Arrival.accesses =
        drained stale ++ rxPoll false ::
        (skipped.flatMap Arrival.accesses ++ Arrival.accesses ⟨last, byte⟩) := by
  have hwaited (w : Nat) (c : UInt8) :
      Arrival.accesses ⟨w + 1, c⟩ = rxPoll false :: Arrival.accesses ⟨w, c⟩ := rfl
  -- the first byte that was waited for ends the drain
  induction others with
  | nil =>
    obtain ⟨last, rfl⟩ : ∃ last, waits = last + 1 :=
      Nat.exists_eq_succ_of_ne_zero (Nat.ne_of_gt (by simpa using h))
    exact ⟨[], [], last, by simp, by simp [hwaited, drained]⟩
  | cons b others ih =>
    obtain ⟨w, c⟩ := b
    cases w with
    | zero =>
      obtain ⟨stale, skipped, last, hskipped, hall⟩ :=
        ih (List.forall_mem_cons.1 hothers).2 (by simpa using h)
      refine ⟨c :: stale, skipped, last, hskipped, ?_⟩
      rw [List.cons_append, List.flatMap_cons, hall, ← List.append_assoc]
      rfl
    | succ w =>
      exact ⟨[], ⟨w, c⟩ :: others, waits, by simpa using hothers, by simp [hwaited, drained]⟩

theorem Course.fits_of_lt (c : Course) (h : c.cost + c.search.length < limit) : c.Fits limit := by
  have hle {bs : List Arrival} {b : Arrival} (hb : b ∈ bs) : b.waits ≤ (bs.map Arrival.waits).sum :=
    List.le_sum_of_mem (List.mem_map_of_mem hb)
  rw [cost] at h
  exact ⟨by omega, fun b hb => by have := hle hb; omega, by omega, by omega, by omega,
    fun b hb => by have := hle hb; omega, by omega⟩

/-- A synchronization without a bound, on a port that was not used before. -/
abbrev freeRun (hw : Behaviour PcmPort) (limit : Nat) : Record PcmPort SyncReport :=
  (synchronize .unlimited).record hw limit

theorem freeRun_eq : freeRun hw limit = exchangeMarkers.record hw limit := record_within_unlimited

theorem stage_freeRun : Stage (freeRun hw limit).transcript.accesses := by
  rw [freeRun_eq]
  exact (runs_exchangeMarkers (Tree.runs_record ..)).1

theorem Course.freeRun_of_answers {c : Course} (hc : c.Fits limit) (h : hw.Answers [] c.accesses) :
    freeRun hw limit = ⟨c.transcript, .ok c.report⟩ :=
  record_within_unlimited.trans <|
    Tree.record_eq_of_runs (runs_exchangeMarkers_ok.2 ⟨c, hc, rfl, rfl⟩)
      (by rwa [Course.accesses_transcript])

theorem exists_course {report : SyncReport} (h : (freeRun hw limit).outcome = .ok report) :
    ∃ c : Course, (freeRun hw limit).transcript.accesses = c.accesses := by
  have hrun := Tree.runs_record hw (synchronize .unlimited limit) []
  rw [show (Tree.record hw (synchronize .unlimited limit) []).outcome = _ from h] at hrun
  obtain ⟨c, -, hT, -⟩ := runs_exchangeMarkers_ok.1 (runs_within_unlimited.1 hrun)
  exact ⟨c, (congrArg accesses hT).trans c.accesses_transcript⟩

theorem accesses_freeRun_mono {n m : Nat} (h : n ≤ m) :
    (freeRun hw n).transcript.accesses <+: (freeRun hw m).transcript.accesses := by
  obtain ⟨T, hT⟩ : (freeRun hw n).transcript <+: (freeRun hw m).transcript :=
    (steady_exchangeMarkers.within .unlimited h).isPrefix_transcript
  exact ⟨accesses T, by rw [← hT, accesses_append]⟩

/-- The marker goes out right behind these accesses. -/
def EchoesAfter (hw : Behaviour PcmPort) (before : List (Access PcmPort)) : Prop :=
  ∃ limit after, (freeRun hw limit).transcript.accesses = before ++ given marker :: after

theorem EchoesAfter.unique (h : EchoesAfter hw P) (h' : EchoesAfter hw Q) : P = Q := by
  obtain ⟨n, after, hn⟩ := h
  obtain ⟨m, after', hm⟩ := h'
  obtain ⟨R, hR⟩ := hn ▸ accesses_freeRun_mono (Nat.le_add_right n m)
  obtain ⟨S, hS⟩ := hm ▸ accesses_freeRun_mono (Nat.le_add_left m n)
  rw [List.append_assoc, List.cons_append] at hR hS
  obtain ⟨-, hsent, hsent', -⟩ := stage_freeRun.echo hS.symm
  exact (eq_of_append_given hsent hsent' (hS.trans hR.symm)).1

theorem answers_freeRun (h : (freeRun hw limit).transcript.accesses = A) : hw.Answers [] A :=
  h ▸ Tree.answers_record hw (synchronize .unlimited limit) []

theorem EchoesAfter.answers (h : EchoesAfter hw P) : hw.Answers [] (P ++ [given marker]) := by
  obtain ⟨n, after, hn⟩ := h
  rw [List.append_cons] at hn
  exact (Behaviour.answers_append.1 (answers_freeRun hn)).1

/-- A success has found the receive FIFO empty, and then not. -/
theorem Course.exists_polls {c : Course} (h : hw.Answers [] c.accesses) :
    ∃ P Q, hw P .rxReady = false ∧ hw (P ++ Q) .rxReady = true := by
  have hc : c.accesses = (c.before ++ given marker :: drained c.stale) ++ ([rxPoll false] ++
      (c.skipped.flatMap Arrival.accesses ++ List.replicate c.last (rxPoll false)) ++
      [rxPoll true, taken acknowledgement]) := by
    simp [accesses, answer, Arrival.accesses]
  rw [hc, Behaviour.answers_append] at h
  obtain ⟨-, hready, -⟩ := Behaviour.answers_append.1 h.2
  rw [List.append_assoc] at hready
  exact ⟨_, _, h.2.1, hready⟩

/-- What was there when the drain began is thrown away by it. -/
theorem prefix_of_answers {bytes stale : List UInt8}
    (h : hw.Answers P (drained bytes)) (h' : hw.Answers P (drained stale ++ rxPoll false :: Q)) :
    bytes <+: stale := by
  induction bytes generalizing P stale with
  | nil => exact List.nil_prefix
  | cons b bytes ih =>
    obtain ⟨hready, hbyte, hrest⟩ := h
    cases stale with
    | nil => cases hready.symm.trans h'.1
    | cons c stale =>
      obtain ⟨-, hbyte', hrest'⟩ := h'
      obtain rfl : b = c := hbyte.symm.trans hbyte'
      exact (List.prefix_cons_inj _).2 (ih hrest hrest')

/-- Other bytes and then the acknowledgement. -/
def answered (others : List Arrival) (waits : Nat) : List Arrival :=
  others ++ [⟨waits, acknowledgement⟩]

section
variable {others : List Arrival} {waits : Nat}

theorem exists_course_answered (hecho : EchoesAfter hw before)
    (hothers : ∀ b ∈ others, b.byte ≠ acknowledgement)
    (hwaited : ∃ b ∈ answered others waits, 0 < b.waits) :
    ∃ c : Course, c.accesses =
      before ++ given marker :: (answered others waits).flatMap Arrival.accesses := by
  obtain ⟨n, after, hn⟩ := hecho
  have hstage : Stage (before ++ given marker :: after) := hn ▸ stage_freeRun
  obtain ⟨bs, full, hbs, rfl⟩ := hstage.exists_of_given
  obtain ⟨stale, skipped, last, hskipped, hall⟩ := exists_drained hothers hwaited
  exact ⟨⟨bs, full, stale, skipped, last, hbs, hskipped⟩,
    congrArg (fun A => _ ++ given marker :: A) hall.symm⟩

theorem takes_answer (hecho : EchoesAfter hw before)
    (hothers : ∀ b ∈ others, b.byte ≠ acknowledgement)
    (hanswer : hw.Answers (before ++ [given marker])
      ((answered others waits).flatMap Arrival.accesses))
    (hwaited : ∃ b ∈ answered others waits, 0 < b.waits) :
    ∃ L, ∀ limit > L, (∃ report, (freeRun hw limit).outcome = .ok report) ∧
      (freeRun hw limit).transcript.accesses =
        before ++ given marker :: (answered others waits).flatMap Arrival.accesses := by
  obtain ⟨c, hc⟩ := exists_course_answered hecho hothers hwaited
  have hanswers : hw.Answers [] c.accesses := by
    rw [hc, List.append_cons]
    exact Behaviour.answers_append.2 ⟨hecho.answers, hanswer⟩
  refine ⟨c.cost + c.search.length, fun limit hl => ?_⟩
  rw [Course.freeRun_of_answers (c.fits_of_lt hl) hanswers]
  exact ⟨⟨c.report, rfl⟩, c.accesses_transcript.trans hc⟩

end

theorem waited_of_drained {stale : List UInt8} {heard : List Arrival}
    (h : drained stale ++ rxPoll false :: Q = heard.flatMap Arrival.accesses) :
    ∃ b ∈ heard, 0 < b.waits := by
  have hmem : rxPoll false ∈ heard.flatMap Arrival.accesses := by simp [← h]
  obtain ⟨b, hb, hpoll⟩ := List.mem_flatMap.1 hmem
  refine ⟨b, hb, Nat.pos_of_ne_zero fun hw => ?_⟩
  rw [Arrival.accesses, hw] at hpoll
  rcases List.mem_cons.1 hpoll with h | h
  · cases h
  · cases List.mem_singleton.1 h

theorem drained_of_prompt {heard : List Arrival} (h : ∀ b ∈ heard, b.waits = 0) :
    heard.flatMap Arrival.accesses = drained (heard.map Arrival.byte) := by
  rw [drained_eq, List.map_map]
  refine congrArg (List.flatMap _) ((List.map_id heard).symm.trans (List.map_congr_left ?_))
  rintro ⟨w, b⟩ hb
  cases h _ hb
  rfl

/-- If other bytes and then the acknowledgement come in behind the marker, a synchronization without
a bound succeeds with that acknowledgement exactly if some poll up to it found nothing. Otherwise it
is thrown away, and the synchronization takes a later one or none. -/
theorem takes_answer_iff {others : List Arrival} {waits : Nat} (hecho : EchoesAfter hw before)
    (hothers : ∀ b ∈ others, b.byte ≠ acknowledgement)
    (hanswer : hw.Answers (before ++ [given marker])
      ((answered others waits).flatMap Arrival.accesses)) :
    ((∃ L, ∀ limit > L, (∃ report, (freeRun hw limit).outcome = .ok report) ∧
        (freeRun hw limit).transcript.accesses =
          before ++ given marker :: (answered others waits).flatMap Arrival.accesses) ↔
      ∃ b ∈ answered others waits, 0 < b.waits) ∧
    ((∀ b ∈ answered others waits, b.waits = 0) →
      ∀ limit report, (freeRun hw limit).outcome = .ok report →
        ∃ stale skipped, (freeRun hw limit).transcript.accesses = before ++ given marker ::
          (drained ((answered others waits).map Arrival.byte ++ stale) ++ rxPoll false ::
            (skipped ++ [taken acknowledgement]))) := by
  have hcourse {limit : Nat} {report : SyncReport} (h : (freeRun hw limit).outcome = .ok report) :
      ∃ c : Course, (freeRun hw limit).transcript.accesses =
        before ++ given marker :: (drained c.stale ++ rxPoll false :: c.answer) := by
    obtain ⟨c, hc⟩ := exists_course h
    obtain rfl : before = c.before := hecho.unique ⟨limit, _, hc⟩
    exact ⟨c, hc⟩
  refine ⟨⟨?_, takes_answer hecho hothers hanswer⟩, fun hprompt limit report h => ?_⟩
  · rintro ⟨L, hL⟩
    obtain ⟨⟨report, hok⟩, hall⟩ := hL (L + 1) (Nat.lt_succ_self L)
    obtain ⟨c, hc⟩ := hcourse hok
    exact waited_of_drained (List.cons.inj (List.append_cancel_left (hc.symm.trans hall))).2
  · -- the drain and the bytes are answered from the same place on
    obtain ⟨c, hc⟩ := hcourse h
    have hdrain := answers_freeRun hc
    rw [List.append_cons] at hdrain
    rw [drained_of_prompt hprompt] at hanswer
    obtain ⟨stale, hstale⟩ := prefix_of_answers hanswer (Behaviour.answers_append.1 hdrain).2
    refine ⟨stale, c.skipped.flatMap Arrival.accesses ++ (List.replicate c.last (rxPoll false) ++
      [rxPoll true]), ?_⟩
    rw [hc, hstale]
    simp [Course.answer, Arrival.accesses]

/-- A port that delivers a run of markers and then the acknowledgement, one poll late. -/
def latePort : Behaviour PcmPort :=
  port (fun past => past.length != 22) (fun _ => true) fun past =>
    (List.replicate 10 0x81 : List UInt8).getD (received past).length 0x7E

/-- Up to the marker, on a port with no other waiting. -/
def promptSearch : List (Access PcmPort) :=
  (drained (List.replicate 10 marker)) ++ [txPoll true]

theorem takes_answer_iff_latePort :
    EchoesAfter latePort promptSearch ∧
      latePort.Answers (promptSearch ++ [given marker])
        ((answered [] 1).flatMap Arrival.accesses) ∧
      ∃ L, ∀ limit > L, (∃ report, (freeRun latePort limit).outcome = .ok report) ∧
        (freeRun latePort limit).transcript.accesses =
          promptSearch ++ given marker :: (answered [] 1).flatMap Arrival.accesses := by
  have hecho : EchoesAfter latePort promptSearch :=
    ⟨12, (answered [] 1).flatMap Arrival.accesses, rfl⟩
  have hanswer : latePort.Answers (promptSearch ++ [given marker])
      ((answered [] 1).flatMap Arrival.accesses) := ⟨rfl, rfl, rfl, trivial⟩
  exact ⟨hecho, hanswer, (takes_answer_iff hecho (by simp) hanswer).1.2
    ⟨⟨1, acknowledgement⟩, by simp [answered], Nat.one_pos⟩⟩

/-- A port that delivers a run of markers, the acknowledgement at once, and nothing else. -/
def promptPort : Behaviour PcmPort :=
  port (fun past => (received past).length < 11) (fun _ => true) fun past =>
    (List.replicate 10 0x81 : List UInt8).getD (received past).length 0x7E

/-- The answer is there behind the marker, and no synchronization without a bound succeeds. -/
theorem promptPort_loses_answer :
    EchoesAfter promptPort promptSearch ∧
      promptPort.Answers (promptSearch ++ [given marker])
        ((answered [] 0).flatMap Arrival.accesses) ∧
      ∀ limit report, (freeRun promptPort limit).outcome ≠ .ok report := by
  refine ⟨⟨12, (answered [] 0).flatMap Arrival.accesses ++ List.replicate 13 (rxPoll false), rfl⟩,
    ⟨rfl, rfl, trivial⟩, fun limit report h => ?_⟩
  obtain ⟨c, hc⟩ := exists_course h
  obtain ⟨P, Q, hempty, hready⟩ := c.exists_polls (answers_freeRun hc)
  -- the port has nothing left once it was found empty behind the run
  have hP : ¬ (received P).length < 11 := of_decide_eq_false hempty
  have hQ : (received (P ++ Q)).length < 11 := of_decide_eq_true hready
  rw [received_append, List.length_append] at hQ
  omega

end Bcm2835.SpiSlave
