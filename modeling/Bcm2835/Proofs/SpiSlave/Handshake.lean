import Bcm2835.Proofs.SpiSlave.Alignment

/-! The exchange of markers as a whole, apart from any budget. A run that succeeds is described by
what came in (`Course`), and each course has its run (`runs_exchangeMarkers_ok`). Wherever else a
run is left, it has got as far as one of three stages, and has read no more than its units of
waiting pay for (`runs_exchangeMarkers`). -/

namespace Bcm2835.SpiSlave

open Program Transcript PcmPort

variable {β : Type} {limit : Nat} {T : Transcript PcmPort}

/-! ## The wait for the acknowledgement -/

theorem seekAcknowledgement_apply {count : Nat} :
    seekAcknowledgement count limit = (nextByte limit).bind fun b =>
      if b = acknowledgement then .halt (.ok (.done (count + 1)))
      else .tick (.halt (.ok (.again (count + 1)))) := by
  refine congrArg (Tree.bind (nextByte limit)) (funext fun b => ?_)
  by_cases hb : b = acknowledgement
  · simp only [hb, if_true]
    rfl
  · simp only [hb, if_false]
    rfl

theorem runs_seekAcknowledgement_done {count n : Nat} :
    (seekAcknowledgement count limit).Runs T (.ended (.ok (.done n))) ↔
      n = count + 1 ∧ ∃ waits < limit, T = Arrival.transcript ⟨waits, acknowledgement⟩ := by
  rw [seekAcknowledgement_apply, runs_nextByte_bind_ok]
  constructor
  · rintro ⟨⟨waits, b⟩, hw, V, rfl, hV⟩
    dsimp only at hV
    split at hV
    · next hb =>
      obtain ⟨rfl, h⟩ := Tree.runs_halt.1 hV
      cases h
      exact ⟨rfl, waits, hw, by rw [List.append_nil, hb]⟩
    · rcases Tree.runs_tick.1 hV with ⟨-, h⟩ | ⟨W, -, hW⟩
      · cases h
      · obtain ⟨-, h⟩ := Tree.runs_halt.1 hW
        cases h
  · rintro ⟨rfl, waits, hw, rfl⟩
    exact ⟨⟨waits, acknowledgement⟩, hw, [], (List.append_nil _).symm, .halt _⟩

theorem runs_seekAcknowledgement_again {count n : Nat} :
    (seekAcknowledgement count limit).Runs T (.ended (.ok (.again n))) ↔
      n = count + 1 ∧ ∃ b : Arrival, b.waits < limit ∧ b.byte ≠ acknowledgement ∧
        T = b.discarded := by
  rw [seekAcknowledgement_apply, runs_nextByte_bind_ok]
  constructor
  · rintro ⟨b, hw, V, rfl, hV⟩
    split at hV
    · obtain ⟨-, h⟩ := Tree.runs_halt.1 hV
      cases h
    · next hb =>
      rcases Tree.runs_tick.1 hV with ⟨-, h⟩ | ⟨W, rfl, hW⟩
      · cases h
      · obtain ⟨rfl, h⟩ := Tree.runs_halt.1 hW
        cases h
        exact ⟨rfl, b, hw, hb, rfl⟩
  · rintro ⟨rfl, b, hw, hb, rfl⟩
    refine ⟨b, hw, [.tick], rfl, ?_⟩
    rw [if_neg hb]
    exact .tick (.halt _)

theorem seekAcknowledgement_early {count : Nat} {s₀ : Stop (Step Nat Nat)} {s : Stop β}
    (h : (seekAcknowledgement count limit).Runs T s₀) (hs : s₀.early? = some s) :
    ((∃ polls, T.accesses = List.replicate polls (rxPoll false)) ∧ Unfinished limit T s) ∨
      ∃ b : Arrival, T = b.transcript ∧ s = .waiting := by
  rw [seekAcknowledgement_apply] at h
  rcases nextByte_bind_early h hs with h | ⟨b, V, rfl, hV⟩
  · exact .inl h
  split at hV
  · obtain ⟨-, rfl⟩ := Tree.runs_halt.1 hV
    cases hs
  · rcases Tree.runs_tick.1 hV with ⟨rfl, rfl⟩ | ⟨W, -, hW⟩
    · cases hs
      exact .inr ⟨b, List.append_nil _, rfl⟩
    · obtain ⟨-, rfl⟩ := Tree.runs_halt.1 hW
      cases hs

/-- What the wait keeps from round to round: it has read these bytes, and one of them each round. -/
def Awaiting (limit n count : Nat) (T : Transcript PcmPort) : Prop :=
  ∃ bs : List Arrival, T = bs.flatMap Arrival.discarded ∧ (∀ b ∈ bs, b.waits < limit) ∧
    (∀ b ∈ bs, b.byte ≠ acknowledgement) ∧ n + bs.length = limit ∧ count = bs.length

theorem Awaiting.start : Awaiting limit limit 0 [] := ⟨[], rfl, by simp, by simp, rfl, rfl⟩

theorem Awaiting.again {n x y : Nat} {U : Transcript PcmPort} (h : Awaiting limit (n + 1) x T)
    (hU : (seekAcknowledgement x limit).Runs U (.ended (.ok (.again y)))) :
    Awaiting limit n y (T ++ U) := by
  obtain ⟨bs, rfl, hw, hne, hn, rfl⟩ := h
  obtain ⟨rfl, b, hb, hbne, rfl⟩ := runs_seekAcknowledgement_again.1 hU
  refine ⟨bs ++ [b], by simp, ?_, ?_, ?_, by simp⟩
  · simpa [or_imp, forall_and] using ⟨hw, hb⟩
  · simpa [or_imp, forall_and] using ⟨hne, hbne⟩
  · rw [List.length_append, List.length_singleton]
    omega

theorem rounds_seekAcknowledgement_runs {bs : List Arrival} {count n waits : Nat}
    (hw : ∀ b ∈ bs, b.waits < limit) (hne : ∀ b ∈ bs, b.byte ≠ acknowledgement)
    (hlast : waits < limit) (hn : bs.length < n) :
    (Tree.rounds (fun x => seekAcknowledgement x limit) n count).Runs
      (bs.flatMap Arrival.discarded ++ Arrival.transcript ⟨waits, acknowledgement⟩)
      (.ended (.ok (count + bs.length + 1))) := by
  induction bs generalizing count n with
  | nil =>
    obtain ⟨n, rfl⟩ := Nat.exists_eq_succ_of_ne_zero (Nat.ne_of_gt hn)
    exact Tree.Runs.done (runs_seekAcknowledgement_done.2 ⟨rfl, waits, hlast, rfl⟩)
  | cons b bs ih =>
    obtain ⟨n, rfl⟩ := Nat.exists_eq_succ_of_ne_zero (Nat.ne_of_gt (Nat.zero_lt_of_lt hn))
    have hround : (seekAcknowledgement count limit).Runs b.discarded
        (.ended (.ok (.again (count + 1)))) := runs_seekAcknowledgement_again.2
      ⟨rfl, b, hw b List.mem_cons_self, hne b List.mem_cons_self, rfl⟩
    have hrest : (Tree.rounds (fun x => seekAcknowledgement x limit) n (count + 1)).Runs _ _ :=
      ih (fun c hc => hw c (List.mem_cons_of_mem _ hc))
        (fun c hc => hne c (List.mem_cons_of_mem _ hc)) (Nat.lt_of_succ_lt_succ hn)
    rw [List.flatMap_cons, List.append_assoc, List.length_cons, Nat.add_comm bs.length,
      ← Nat.add_assoc]
    exact Tree.runs_rounds_succ.2 (.inr (.inl ⟨_, _, _, rfl, hround, hrest⟩))

theorem runs_awaitAcknowledgement_ok {count : Nat} :
    (awaitAcknowledgement limit).Runs T (.ended (.ok count)) ↔
      ∃ bs : List Arrival, ∃ waits < limit, bs.length < limit ∧ (∀ b ∈ bs, b.waits < limit) ∧
        (∀ b ∈ bs, b.byte ≠ acknowledgement) ∧
        T = bs.flatMap Arrival.discarded ++ Arrival.transcript ⟨waits, acknowledgement⟩ ∧
        count = bs.length + 1 := by
  constructor
  · intro h
    rcases Tree.Runs.last_round h Awaiting.start Awaiting.again with
      ⟨-, -, hs⟩ | ⟨n, y, U, V, rfl, hU, ⟨r, hV, hs⟩ | ⟨s₀, -, hs⟩⟩
    · cases hs
    · obtain ⟨bs, rfl, hw, hne, hn, rfl⟩ := hU
      obtain ⟨rfl, waits, hlast, rfl⟩ := runs_seekAcknowledgement_done.1 hV
      cases hs
      exact ⟨bs, waits, hlast, by omega, hw, hne, rfl, rfl⟩
    · exact absurd hs (s₀.early?_ne_ok count)
  · rintro ⟨bs, waits, hlast, hn, hw, hne, rfl, rfl⟩
    rw [← Nat.zero_add bs.length]
    exact rounds_seekAcknowledgement_runs hw hne hlast hn

/-- A wait that was left has read these bytes, each but the last one paid for. -/
theorem awaitAcknowledgement_early {s₀ : Stop Nat} {s : Stop β}
    (h : (awaitAcknowledgement limit).Runs T s₀) (hs : s₀.early? = some s) :
    Unfinished limit T s ∧ ∃ bs : List Arrival, ∃ polls,
      T.accesses = bs.flatMap Arrival.accesses ++ List.replicate polls (rxPoll false) ∧
      bs.length ≤ T.ticks + 1 := by
  have hcost (bs : List Arrival) : bs.length ≤ ticks (bs.flatMap Arrival.discarded) := by
    rw [Arrival.ticks_discarded]
    exact Nat.le_add_left ..
  rcases Tree.Runs.last_round h Awaiting.start Awaiting.again with
    ⟨y, hT, rfl⟩ | ⟨n, y, U, V, rfl, hU, ⟨r, -, rfl⟩ | ⟨s₁, hV, hs₁⟩⟩
  · cases hs
    obtain ⟨bs, hT, -, -, hn, -⟩ := hT
    rw [List.nil_append] at hT
    subst hT
    have := hcost bs
    exact ⟨.inr ⟨rfl, by omega⟩, bs, 0, by simp, by omega⟩
  · cases hs
  · obtain ⟨bs, hU, -, -, -, -⟩ := hU
    rw [List.nil_append] at hU
    subst hU
    have hlen := hcost bs
    rw [ticks_append, accesses_append, Arrival.accesses_discarded]
    rcases seekAcknowledgement_early hV ((Stop.early?_of_early? hs₁).trans hs) with
      ⟨⟨polls, hV⟩, hs⟩ | ⟨b, rfl, rfl⟩
    · refine ⟨hs.imp_right fun ⟨hs, hl⟩ => ⟨hs, ?_⟩, bs, polls, by rw [hV], by omega⟩
      rw [ticks_append]
      omega
    · refine ⟨.inl rfl, bs ++ [b], 0, by simp, ?_⟩
      rw [List.length_append, List.length_singleton]
      omega

/-! ## The exchange as a whole -/

/-- What a successful exchange is made of: the bytes up to the end of the first run of markers, the
polls that found no room for the marker, the bytes that were there behind it, and the bytes before
the acknowledgement with the polls that waited for that. -/
structure Course where
  search : List Arrival
  full : Nat
  stale : List UInt8
  skipped : List Arrival
  last : Nat
  completed : Alignment.Completed (search.map Arrival.byte)
  skipped_ne : ∀ b ∈ skipped, b.byte ≠ acknowledgement

namespace Course

variable (c : Course)

/-- Up to the marker that is sent back. -/
def before : List (Access PcmPort) :=
  c.search.flatMap Arrival.inspection ++ List.replicate c.full (txPoll false) ++ [txPoll true]

/-- Behind the first poll that finds no byte. -/
def answer : List (Access PcmPort) :=
  c.skipped.flatMap Arrival.accesses ++ Arrival.accesses ⟨c.last, acknowledgement⟩

def accesses : List (Access PcmPort) :=
  c.before ++ given marker :: (drained c.stale ++ rxPoll false :: c.answer)

/-- The units of waiting. -/
def cost : Nat :=
  (c.search.map Arrival.waits).sum + misreads (c.search.map Arrival.byte) + c.full +
    c.stale.length + ((c.skipped.map Arrival.waits).sum + c.skipped.length) + c.last

def report : SyncReport :=
  { SyncReport.after {} (c.search.map Arrival.byte) with handshakeBytes := c.skipped.length + 1 }

@[simp] theorem consumed_report : c.report.consumed = c.search.length := by
  simp [report, SyncReport.after]

@[simp] theorem glitches_report :
    c.report.glitches = misreads (c.search.map Arrival.byte) := by
  simp [report, SyncReport.after]

@[simp] theorem handshakeBytes_report : c.report.handshakeBytes = c.skipped.length + 1 := rfl

def transcript : Transcript PcmPort :=
  c.search.flatMap Arrival.inspected ++
    .report (.aligned c.report.consumed c.report.glitches) ::
      (handedOver c.full marker ++
        (c.stale.flatMap (fun b => (Arrival.prompt b).discarded) ++ [.access (rxPoll false)]) ++
        (c.skipped.flatMap Arrival.discarded ++ Arrival.transcript ⟨c.last, acknowledgement⟩ ++
          [.report .synchronized]))

/-- The limit leaves enough rounds. -/
structure Fits (limit : Nat) : Prop where
  search : c.search.length < limit
  search_waits : ∀ b ∈ c.search, b.waits < limit
  full : c.full < limit
  stale : c.stale.length < limit
  skipped : c.skipped.length < limit
  skipped_waits : ∀ b ∈ c.skipped, b.waits < limit
  last : c.last < limit

theorem received_accesses : received c.accesses = c.search.map Arrival.byte ++
    (c.stale ++ (c.skipped.map Arrival.byte ++ [acknowledgement])) := by
  simp [accesses, before, answer]

@[simp] theorem accesses_transcript : c.transcript.accesses = c.accesses := by
  simp [transcript, accesses, before, answer]

@[simp] theorem ticks_transcript : c.transcript.ticks = c.cost := by
  simp [transcript, cost]
  omega

end Course

theorem exchangeMarkers_apply :
    exchangeMarkers limit = (align limit).bind fun found =>
      .report (.aligned found.consumed found.glitches) <|
        (putByte marker limit).bind fun _ => (awaitAcknowledgement limit).bind fun n =>
          .report .synchronized (.halt (.ok { found with handshakeBytes := n })) := rfl

/-- A successful exchange is the run of its course. -/
theorem runs_exchangeMarkers_ok {report : SyncReport} :
    (exchangeMarkers limit).Runs T (.ended (.ok report)) ↔
      ∃ c : Course, c.Fits limit ∧ T = c.transcript ∧ report = c.report := by
  rw [exchangeMarkers_apply]
  constructor
  · intro h
    obtain ⟨A, R, found, rfl, hA, hR⟩ := Tree.runs_bind_ok.1 h
    obtain ⟨R', rfl, hR'⟩ := Tree.runs_report.1 hR
    obtain ⟨B, C, _, rfl, hB, hC⟩ := Tree.runs_bind_ok.1 hR'
    obtain ⟨D, E, n, rfl, hD, hE⟩ := Tree.runs_bind_ok.1 hC
    obtain ⟨F, rfl, hF⟩ := Tree.runs_report.1 hE
    obtain ⟨rfl, hreport⟩ := Tree.runs_halt.1 hF
    cases hreport
    obtain ⟨search, hs, hsw, rfl, hcompleted, rfl⟩ := runs_align_ok.1 hA
    obtain ⟨full, hf, stale, hst, rfl⟩ := runs_putByte_ok.1 hB
    obtain ⟨skipped, last, hl, hsk, hskw, hne, rfl, rfl⟩ := runs_awaitAcknowledgement_ok.1 hD
    refine ⟨⟨search, full, stale, skipped, last, hcompleted, hne⟩,
      ⟨hs, hsw, hf, hst, hsk, hskw, hl⟩, ?_, rfl⟩
    simp [Course.transcript, Course.report]
  · rintro ⟨c, hc, rfl, rfl⟩
    have hsearch := runs_align_ok.2
      ⟨c.search, hc.search, hc.search_waits, rfl, c.completed, rfl⟩
    have hecho : (putByte marker limit).Runs _ (.ended (.ok ())) := runs_putByte_ok.2
      ⟨c.full, hc.full, c.stale, hc.stale, rfl⟩
    have hanswer := runs_awaitAcknowledgement_ok.2
      ⟨c.skipped, c.last, hc.last, hc.skipped, hc.skipped_waits, c.skipped_ne, rfl, rfl⟩
    exact hsearch.bind (.report _ (hecho.bind (hanswer.bind (.report _ (.halt _)))))

/-- How far a run has got: it searches the run of markers, it has found it and waits for room, or
the marker is out and it takes what comes. -/
inductive Stage : List (Access PcmPort) → Prop
  | searching (bs : List Arrival) (polls : Nat) :
    Alignment.Pending {} (bs.map Arrival.byte) →
      Stage (bs.flatMap Arrival.inspection ++ List.replicate polls (rxPoll false))
  | aligned (bs : List Arrival) (full : Nat) :
    Alignment.Completed (bs.map Arrival.byte) →
      Stage (bs.flatMap Arrival.inspection ++ List.replicate full (txPoll false))
  | listening (bs : List Arrival) (full : Nat) (heard : List Arrival) (polls : Nat) :
    Alignment.Completed (bs.map Arrival.byte) →
      Stage (bs.flatMap Arrival.inspection ++ List.replicate full (txPoll false) ++
        [txPoll true, given marker] ++
        (heard.flatMap Arrival.accesses ++ List.replicate polls (rxPoll false)))

/-- A poll that found nothing belongs to the byte behind it, or to the polls at the end. -/
theorem exists_arrivals_of_idle (bs : List Arrival) (polls : Nat) :
    ∃ bs' : List Arrival, ∃ polls', rxPoll false ::
        (bs.flatMap Arrival.accesses ++ List.replicate polls (rxPoll false)) =
      bs'.flatMap Arrival.accesses ++ List.replicate polls' (rxPoll false) := by
  cases bs with
  | nil => exact ⟨[], polls + 1, rfl⟩
  | cons b bs => exact ⟨⟨b.waits + 1, b.byte⟩ :: bs, polls, rfl⟩

theorem drained_eq (stale : List UInt8) :
    drained stale = (stale.map Arrival.prompt).flatMap Arrival.accesses :=
  (List.flatMap_map ..).symm

theorem Stage.drained {bs : List Arrival} (h : Alignment.Completed (bs.map Arrival.byte))
    (full : Nat) (stale : List UInt8) :
    Stage (bs.flatMap Arrival.inspection ++ List.replicate full (txPoll false) ++
      [txPoll true, given marker] ++ drained stale) := by
  have := Stage.listening bs full (stale.map Arrival.prompt) 0 h
  rwa [List.replicate_zero, List.append_nil, ← drained_eq] at this

theorem Stage.answered {bs : List Arrival} (h : Alignment.Completed (bs.map Arrival.byte))
    (full : Nat) (stale : List UInt8) (hs : List Arrival) (polls : Nat) :
    Stage (bs.flatMap Arrival.inspection ++ List.replicate full (txPoll false) ++
      [txPoll true, given marker] ++ (SpiSlave.drained stale ++ rxPoll false ::
        (hs.flatMap Arrival.accesses ++ List.replicate polls (rxPoll false)))) := by
  obtain ⟨hs', polls', hidle⟩ := exists_arrivals_of_idle hs polls
  rw [hidle, drained_eq, ← List.append_assoc (List.flatMap ..), ← List.flatMap_append]
  exact .listening bs full _ polls' h

theorem Alignment.Completed.length_le {bs : List Arrival}
    (h : Alignment.Completed (bs.map Arrival.byte)) :
    bs.length ≤ syncRun * ticks (bs.flatMap Arrival.inspected) + syncRun := by
  obtain ⟨hlen, hrun⟩ := Alignment.length_le h.pending
  rw [List.length_map] at hlen
  have : syncRun * misreads (bs.map Arrival.byte) ≤
      syncRun * ticks (bs.flatMap Arrival.inspected) := by
    rw [Arrival.ticks_inspected]
    exact Nat.mul_le_mul_left _ (Nat.le_add_left ..)
  omega

/-- What is left of the exchange once the run of markers is found. -/
theorem runs_echo {found : SyncReport} {s : Stop SyncReport}
    (h : ((putByte marker limit).bind fun _ => (awaitAcknowledgement limit).bind fun n =>
      .report .synchronized (.halt (.ok { found with handshakeBytes := n }))).Runs T s) :
    ((∃ full, T.accesses = List.replicate full (txPoll false)) ∨
      ∃ full, ∃ V : List (Access PcmPort),
        T.accesses = List.replicate full (txPoll false) ++ [txPoll true, given marker] ++ V ∧
        ((∃ stale, V = drained stale) ∨ ∃ stale, ∃ hs : List Arrival, ∃ polls,
          V = drained stale ++ rxPoll false ::
            (hs.flatMap Arrival.accesses ++ List.replicate polls (rxPoll false)))) ∧
      (received T.accesses).length ≤ T.ticks + 1 ∧
      ((∃ report, s = .ended (.ok report)) ∨ Unfinished limit T s) := by
  rcases Tree.runs_bind.1 h with ⟨B, C, _, rfl, hB, hC⟩ | ⟨s₀, hB, hs⟩
  swap
  · obtain ⟨hs, ⟨full, hB⟩ | ⟨full, stale, hB, hstale⟩⟩ := putByte_early hB hs
    · exact ⟨.inl ⟨full, hB⟩, by simp [hB], .inr hs⟩
    · exact ⟨.inr ⟨full, drained stale, hB, .inl ⟨stale, rfl⟩⟩, by simpa [hB], .inr hs⟩
  obtain ⟨full, -, stale, -, rfl⟩ := runs_putByte_ok.1 hB
  rcases Tree.runs_bind.1 hC with ⟨D, E, n, rfl, hD, hE⟩ | ⟨s₀, hD, hs⟩
  · obtain ⟨hs, waits, -, -, -, -, rfl, rfl⟩ := runs_awaitAcknowledgement_ok.1 hD
    obtain ⟨F, rfl, hF⟩ := Tree.runs_report.1 hE
    obtain ⟨rfl, rfl⟩ := Tree.runs_halt.1 hF
    refine ⟨.inr ⟨full, _, ?_, .inr ⟨stale, hs ++ [⟨waits, acknowledgement⟩], 0, rfl⟩⟩, ?_,
      .inl ⟨_, rfl⟩⟩
    · simp
    · simp
      omega
  · obtain ⟨hs, bs, polls, hD, hlen⟩ := awaitAcknowledgement_early hD hs
    refine ⟨.inr ⟨full, _, ?_, .inr ⟨stale, bs, polls, rfl⟩⟩, ?_, .inr ?_⟩
    · simp [hD]
    · simp [hD]
      omega
    · refine hs.imp_right fun ⟨hs, hl⟩ => ⟨hs, ?_⟩
      rw [ticks_append]
      omega

/-- Wherever a run is left, it has read no more bytes than its units of waiting pay for, but for one
run of markers and one byte, and it was not given up before its rounds came near the limit. -/
theorem runs_exchangeMarkers {s : Stop SyncReport} (h : (exchangeMarkers limit).Runs T s) :
    Stage T.accesses ∧ (received T.accesses).length ≤ syncRun * T.ticks + syncRun + 1 ∧
      ((∃ report, s = .ended (.ok report)) ∨ s = .waiting ∨
        s = .ended .stalled ∧ limit ≤ syncRun * T.ticks + syncRun + 1) := by
  rw [exchangeMarkers_apply] at h
  rcases Tree.runs_bind.1 h with ⟨A, R, found, rfl, hA, hR⟩ | ⟨s₀, hA, hs⟩
  swap
  · obtain ⟨bs, polls, hT, hp, hlen, hs⟩ := align_early hA hs
    refine ⟨hT ▸ .searching bs polls hp, ?_, .inr (hs.imp_right fun ⟨hs, hl⟩ => ⟨hs, by omega⟩)⟩
    simp [hT]
    omega
  obtain ⟨bs, -, -, rfl, hcompleted, rfl⟩ := runs_align_ok.1 hA
  obtain ⟨V, rfl, hV⟩ := Tree.runs_report.1 hR
  obtain ⟨hstage, hreads, hs⟩ := runs_echo hV
  have hlen := hcompleted.length_le
  have hticks : ticks V ≤ syncRun * ticks V := Nat.le_mul_of_pos_left _ (by decide)
  refine ⟨?_, ?_, hs.imp_right (Or.imp_right fun ⟨hs, hl⟩ => ⟨hs, ?_⟩)⟩
  · rw [accesses_append, Arrival.accesses_inspected, accesses_report]
    rcases hstage with ⟨full, hV⟩ | ⟨full, W, hV, ⟨stale, rfl⟩ | ⟨stale, hs, polls, rfl⟩⟩
    · exact hV ▸ .aligned bs full hcompleted
    · rw [hV]
      simpa using Stage.drained hcompleted full stale
    · rw [hV]
      simpa using Stage.answered hcompleted full stale hs polls
  · rw [accesses_append, ticks_append, accesses_report, ticks_report, received_append,
      List.length_append, Nat.mul_add]
    simp only [Arrival.accesses_inspected, Arrival.received_inspection, List.length_map]
    omega
  · rw [ticks_append, ticks_report, Nat.mul_add]
    omega

end Bcm2835.SpiSlave
