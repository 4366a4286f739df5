import Mathlib.Data.List.Induction
import Bcm2835.Proofs.SpiSlave.Intake

/-! The search for the run of markers. The counter of an alignment is the length of the run of
markers at the end of the bytes read (`Alignment.le_run_after_iff`), and a byte that is no marker
pays for itself and for the markers before it (`Alignment.length_le`). A search that succeeds reads
up to the first byte that completes a run (`runs_align_ok`); any other one is still waiting for a
byte, or has just held the clock off (`align_early`). -/

namespace Bcm2835.SpiSlave

open Program Transcript PcmPort

variable {β : Type}

/-- The number of bytes that are no markers. -/
def misreads (bytes : List UInt8) : Nat := bytes.countP fun b => b ≠ marker

@[simp] theorem misreads_nil : misreads [] = 0 := rfl

@[simp] theorem misreads_append (bytes bytes' : List UInt8) :
    misreads (bytes ++ bytes') = misreads bytes + misreads bytes' := List.countP_append

theorem misreads_cons (b : UInt8) (bytes : List UInt8) :
    misreads (b :: bytes) = misreads bytes + if b = marker then 0 else 1 := by
  by_cases h : b = marker <;> simp [misreads, h]

namespace Alignment

def after (a : Alignment) (bytes : List UInt8) : Alignment :=
  bytes.foldl (fun a b => (a.observe b).1) a

variable {a : Alignment} {b : UInt8} {bytes : List UInt8}

@[simp] theorem after_nil : a.after [] = a := rfl

@[simp] theorem after_cons : a.after (b :: bytes) = (a.observe b).1.after bytes := rfl

@[simp] theorem after_append (bytes' : List UInt8) :
    a.after (bytes ++ bytes') = (a.after bytes).after bytes' := List.foldl_append

@[simp] theorem observe_marker : a.observe marker = (⟨a.run + 1⟩, .matched) := rfl

theorem observe_of_ne (h : b ≠ marker) : a.observe b = (⟨0⟩, .glitch) := if_neg h

theorem isAligned_iff : a.isAligned = true ↔ syncRun ≤ a.run := by
  simp [isAligned]

theorem isAligned_eq_false : a.isAligned = false ↔ a.run < syncRun := by
  simp [isAligned]

/-- The counter is the length of the run of markers at the end. -/
theorem le_run_after_iff {k : Nat} :
    k ≤ (after {} bytes).run ↔ List.replicate k marker <:+ bytes := by
  -- a byte that is no marker takes the counter back to zero, so the last byte decides
  induction bytes using List.reverseRecOn generalizing k with
  | nil => simp
  | append_singleton bytes b ih =>
    rw [after_append, after_cons, after_nil]
    cases k with
    | zero => simp
    | succ k =>
      rw [List.replicate_succ']
      by_cases hb : b = marker
      · rw [hb, observe_marker, Nat.add_le_add_iff_right, ih]
        constructor
        · rintro ⟨R, rfl⟩
          exact ⟨R, by simp⟩
        · rintro ⟨R, h⟩
          exact ⟨R, List.append_cancel_right (by simpa using h)⟩
      · rw [observe_of_ne hb]
        refine iff_of_false (Nat.not_succ_le_zero k) ?_
        rintro ⟨R, h⟩
        rw [← List.append_assoc] at h
        exact hb (List.cons.inj (List.append_inj_right' h rfl)).1.symm

theorem isAligned_after_iff :
    (after {} bytes).isAligned = true ↔ List.replicate syncRun marker <:+ bytes :=
  isAligned_iff.trans le_run_after_iff

/-- None of these bytes finds the run complete. -/
def Pending (a : Alignment) (bytes : List UInt8) : Prop :=
  ∀ k < bytes.length, (a.after (bytes.take k)).isAligned = false

theorem pending_nil : a.Pending [] := fun _ h => absurd h (Nat.not_lt_zero _)

theorem pending_cons :
    a.Pending (b :: bytes) ↔ a.isAligned = false ∧ (a.observe b).1.Pending bytes := by
  constructor
  · exact fun h => ⟨h 0 (Nat.succ_pos _), fun k hk => h (k + 1) (Nat.succ_lt_succ hk)⟩
  · rintro ⟨h0, h⟩ k hk
    cases k with
    | zero => exact h0
    | succ k => exact h k (Nat.lt_of_succ_lt_succ hk)

theorem pending_append {bytes' : List UInt8} :
    a.Pending (bytes ++ bytes') ↔ a.Pending bytes ∧ (a.after bytes).Pending bytes' := by
  induction bytes generalizing a with
  | nil => exact (and_iff_right pending_nil).symm
  | cons c bytes ih => rw [List.cons_append, pending_cons, pending_cons, ih, after_cons, and_assoc]

theorem pending_append_singleton :
    a.Pending (bytes ++ [b]) ↔ a.Pending bytes ∧ (a.after bytes).isAligned = false := by
  rw [pending_append, pending_cons, and_iff_left pending_nil]

theorem run_after_replicate (n : Nat) : (a.after (List.replicate n marker)).run = a.run + n := by
  induction n generalizing a with
  | zero => rfl
  | succ n ih =>
    rw [List.replicate_succ, after_cons, ih, observe_marker, Nat.add_assoc, Nat.add_comm 1]

theorem pending_replicate {n : Nat} (hn : n ≤ syncRun) : Pending {} (List.replicate n marker) := by
  intro k hk
  rw [List.length_replicate] at hk
  rw [List.take_replicate, isAligned_eq_false, run_after_replicate,
    Nat.min_eq_left (Nat.le_of_lt hk),
    Nat.zero_add]
  exact Nat.lt_of_lt_of_le hk hn

/-- The first run of markers is complete with the last of these bytes. -/
structure Completed (bytes : List UInt8) : Prop where
  pending : Pending {} bytes
  aligned : (after {} bytes).isAligned = true

theorem completed_replicate : Completed (List.replicate syncRun marker) :=
  ⟨pending_replicate (Nat.le_refl _), isAligned_iff.2 <| by
    rw [run_after_replicate]
    exact Nat.le_add_left ..⟩

/-- A run that a byte breaks too early does not matter. -/
theorem Completed.broken {n : Nat} (h : Completed bytes) (hn : n < syncRun) (hb : b ≠ marker) :
    Completed (List.replicate n marker ++ b :: bytes) := by
  constructor
  · refine pending_append.2 ⟨pending_replicate (Nat.le_of_lt hn), pending_cons.2 ⟨?_, ?_⟩⟩
    · rw [isAligned_eq_false, run_after_replicate, Nat.zero_add]
      exact hn
    · rw [observe_of_ne hb]
      exact h.pending
  · rw [after_append, after_cons, observe_of_ne hb]
    exact h.aligned

/-- Each byte that is no marker stands for itself and at most nine markers before it. -/
theorem length_le (h : Pending {} bytes) :
    bytes.length ≤ syncRun * misreads bytes + (after {} bytes).run ∧
      (after {} bytes).run ≤ syncRun := by
  induction bytes using List.reverseRecOn with
  | nil => exact ⟨Nat.zero_le _, Nat.zero_le _⟩
  | append_singleton bytes b ih =>
    obtain ⟨hbytes, hrun⟩ := pending_append_singleton.1 h
    obtain ⟨hlen, -⟩ := ih hbytes
    rw [isAligned_eq_false] at hrun
    rw [after_append, after_cons, after_nil, misreads_append, misreads_cons, misreads_nil,
      List.length_append, List.length_singleton]
    by_cases hb : b = marker
    · simp only [hb, observe_marker, if_true, Nat.add_zero]
      omega
    · simp only [hb, observe_of_ne hb, if_false, Nat.mul_add]
      omega

end Alignment

def SyncReport.after (r : SyncReport) (bytes : List UInt8) : SyncReport :=
  { r with consumed := r.consumed + bytes.length, glitches := r.glitches + misreads bytes }

@[simp] theorem SyncReport.after_nil (r : SyncReport) : r.after [] = r := rfl

theorem SyncReport.after_append (r : SyncReport) (bytes bytes' : List UInt8) :
    (r.after bytes).after bytes' = r.after (bytes ++ bytes') := by
  simp [after, Nat.add_assoc]

/-- What holding the clock off does to the port. -/
def heldClock : List (Access PcmPort) := [clock false, pause glitchTicks, clock true]

namespace Arrival

/-- A byte of the search: every byte but a marker has the clock held off behind it. -/
def inspection (a : Arrival) : List (Access PcmPort) :=
  a.accesses ++ if a.byte = marker then [] else heldClock

def inspected (a : Arrival) : Transcript PcmPort :=
  a.transcript ++ if a.byte = marker then [] else heldClock.map .access ++ [.tick]

@[simp] theorem received_inspection (bs : List Arrival) :
    received (bs.flatMap inspection) = bs.map byte := by
  induction bs with
  | nil => rfl
  | cons a bs ih => by_cases h : a.byte = marker <;> simp [inspection, heldClock, h, ih]

@[simp] theorem sent_inspection (bs : List Arrival) : sent (bs.flatMap inspection) = [] := by
  induction bs with
  | nil => rfl
  | cons a bs ih => by_cases h : a.byte = marker <;> simp [inspection, heldClock, h, ih]

theorem accesses_inspected_single (a : Arrival) :
    Transcript.accesses a.inspected = a.inspection := by
  by_cases h : a.byte = marker <;> simp [inspected, inspection, heldClock, h]

theorem ticks_inspected_single (a : Arrival) :
    ticks a.inspected = a.waits + misreads [a.byte] := by
  by_cases h : a.byte = marker <;> simp [inspected, heldClock, misreads_cons, h]

@[simp] theorem accesses_inspected (bs : List Arrival) :
    Transcript.accesses (bs.flatMap inspected) = bs.flatMap inspection := by
  induction bs with
  | nil => rfl
  | cons a bs ih =>
    rw [List.flatMap_cons, List.flatMap_cons, Transcript.accesses_append, ih,
      accesses_inspected_single]

@[simp] theorem ticks_inspected (bs : List Arrival) :
    ticks (bs.flatMap inspected) = (bs.map waits).sum + misreads (bs.map byte) := by
  induction bs with
  | nil => rfl
  | cons a bs ih =>
    rw [List.flatMap_cons, ticks_append, ih, ticks_inspected_single, List.map_cons, List.map_cons,
      List.sum_cons, misreads_cons, misreads_cons, misreads_nil]
    omega

end Arrival

variable {limit : Nat} {T : Transcript PcmPort} {a : Alignment} {r : SyncReport}

theorem holdClock_apply :
    holdClock limit = .request (I := PcmPort) (.setClock false) fun _ =>
      .request (.delay glitchTicks) fun _ =>
        .request (.setClock true) fun _ => .halt (.ok ()) := rfl

theorem runs_holdClock {s : Stop Unit} :
    (holdClock limit).Runs T s ↔ T = heldClock.map .access ∧ s = .ended (.ok ()) := by
  rw [holdClock_apply]
  constructor
  · intro h
    obtain ⟨_, U, rfl, hU⟩ := Tree.runs_request.1 h
    obtain ⟨_, V, rfl, hV⟩ := Tree.runs_request.1 hU
    obtain ⟨_, W, rfl, hW⟩ := Tree.runs_request.1 hV
    obtain ⟨rfl, rfl⟩ := Tree.runs_halt.1 hW
    exact ⟨rfl, rfl⟩
  · rintro ⟨rfl, rfl⟩
    exact Tree.runs_request.2 ⟨(), _, rfl, Tree.runs_request.2 ⟨(), _, rfl,
      Tree.runs_request.2 ⟨(), _, rfl, .halt _⟩⟩⟩

theorem seekMarker_apply :
    seekMarker (a, r) limit =
      if a.isAligned then .halt (.ok (.done r))
      else (nextByte limit).bind fun b =>
        if b = marker then .halt (.ok (.again ((a.observe b).1, r.after [b])))
        else (holdClock limit).bind fun _ =>
          .tick (.halt (.ok (.again ((a.observe b).1, r.after [b])))) := by
  rw [seekMarker]
  by_cases ha : a.isAligned
  · simp only [ha, if_true]
    rfl
  · simp only [ha]
    refine congrArg (Tree.bind (nextByte limit)) (funext fun b => ?_)
    by_cases hb : b = marker
    · simp only [hb, Alignment.observe_marker, if_true]
      rfl
    · simp only [Alignment.observe_of_ne hb, hb, if_false, SyncReport.after, misreads_cons]
      rfl

theorem runs_seekMarker_done {found : SyncReport} :
    (seekMarker (a, r) limit).Runs T (.ended (.ok (.done found))) ↔
      a.isAligned = true ∧ T = [] ∧ found = r := by
  rw [seekMarker_apply]
  by_cases ha : a.isAligned = true
  · rw [if_pos ha, Tree.runs_halt]
    simp [ha, eq_comm]
  · rw [if_neg ha]
    refine iff_of_false (fun h => ?_) fun h => ha h.1
    obtain ⟨b, -, V, rfl, hV⟩ := runs_nextByte_bind_ok.1 h
    split at hV
    · cases hV
    · obtain ⟨U, W, _, rfl, -, hW⟩ := Tree.runs_bind_ok.1 hV
      cases hW with
      | tick h => cases h

theorem runs_seekMarker_again {x : Alignment × SyncReport} :
    (seekMarker (a, r) limit).Runs T (.ended (.ok (.again x))) ↔
      a.isAligned = false ∧ ∃ b : Arrival, b.waits < limit ∧ T = b.inspected ∧
        x = (a.after [b.byte], r.after [b.byte]) := by
  rw [seekMarker_apply]
  by_cases ha : a.isAligned = true
  · rw [if_pos ha, Tree.runs_halt]
    simp [ha]
  rw [if_neg ha, runs_nextByte_bind_ok, Bool.eq_false_iff, and_iff_right ha]
  refine exists_congr fun b => and_congr_right fun _ => ?_
  by_cases hb : b.byte = marker
  · simp only [hb, if_true, Tree.runs_halt, Arrival.inspected]
    constructor
    · rintro ⟨V, rfl, rfl, h⟩
      cases h
      exact ⟨rfl, rfl⟩
    · rintro ⟨rfl, rfl⟩
      exact ⟨[], rfl, rfl, rfl⟩
  · simp only [hb, if_false, Tree.runs_bind_ok, runs_holdClock, Arrival.inspected]
    constructor
    · rintro ⟨V, rfl, U, W, _, rfl, ⟨rfl, -⟩, hW⟩
      rcases Tree.runs_tick.1 hW with ⟨-, h⟩ | ⟨X, rfl, hX⟩
      · cases h
      · obtain ⟨rfl, h⟩ := Tree.runs_halt.1 hX
        cases h
        exact ⟨rfl, rfl⟩
    · rintro ⟨rfl, rfl⟩
      exact ⟨_, rfl, _, _, (), rfl, ⟨rfl, trivial⟩, .tick (.halt _)⟩

/-- A round that was left waits for a byte, or has just held the clock off. -/
theorem seekMarker_early {s₀ : Stop (Step (Alignment × SyncReport) SyncReport)} {s : Stop β}
    (h : (seekMarker (a, r) limit).Runs T s₀) (hs : s₀.early? = some s) :
    a.isAligned = false ∧
      (((∃ polls, T.accesses = List.replicate polls (rxPoll false)) ∧ Unfinished limit T s) ∨
        ∃ b : Arrival, b.byte ≠ marker ∧ T.accesses = b.inspection ∧ s = .waiting) := by
  rw [seekMarker_apply] at h
  by_cases ha : a.isAligned = true
  · rw [if_pos ha, Tree.runs_halt] at h
    obtain ⟨-, rfl⟩ := h
    cases hs
  rw [if_neg ha] at h
  refine ⟨Bool.eq_false_iff.2 ha, ?_⟩
  rcases nextByte_bind_early h hs with h | ⟨b, V, rfl, hV⟩
  · exact .inl h
  by_cases hb : b.byte = marker
  · rw [if_pos hb, Tree.runs_halt] at hV
    obtain ⟨-, rfl⟩ := hV
    cases hs
  rw [if_neg hb] at hV
  rcases Tree.runs_bind.1 hV with ⟨U, W, _, rfl, hU, hW⟩ | ⟨s₁, hV, hs₁⟩
  · obtain ⟨rfl, -⟩ := runs_holdClock.1 hU
    rcases Tree.runs_tick.1 hW with ⟨rfl, rfl⟩ | ⟨X, rfl, hX⟩
    · cases hs
      exact .inr ⟨b, hb, by simp [Arrival.inspection, hb, heldClock], rfl⟩
    · obtain ⟨-, rfl⟩ := Tree.runs_halt.1 hX
      cases hs
  · obtain ⟨-, rfl⟩ := runs_holdClock.1 hV
    cases hs₁

/-- What the search keeps from round to round: it has read these bytes, and one of them each round.
-/
def Searching (limit n : Nat) (x : Alignment × SyncReport) (T : Transcript PcmPort) : Prop :=
  ∃ bs : List Arrival, T = bs.flatMap Arrival.inspected ∧ (∀ b ∈ bs, b.waits < limit) ∧
    Alignment.Pending {} (bs.map Arrival.byte) ∧ n + bs.length = limit ∧
    x = (Alignment.after {} (bs.map Arrival.byte), SyncReport.after {} (bs.map Arrival.byte))

theorem Searching.start : Searching limit limit ({}, {}) [] :=
  ⟨[], rfl, by simp, Alignment.pending_nil, rfl, rfl⟩

theorem Searching.again {n : Nat} {x y : Alignment × SyncReport} {U : Transcript PcmPort}
    (h : Searching limit (n + 1) x T)
    (hU : (seekMarker x limit).Runs U (.ended (.ok (.again y)))) :
    Searching limit n y (T ++ U) := by
  obtain ⟨bs, rfl, hw, hp, hn, rfl⟩ := h
  obtain ⟨ha, b, hb, rfl, rfl⟩ := runs_seekMarker_again.1 hU
  refine ⟨bs ++ [b], by simp, ?_, ?_, ?_, ?_⟩
  · simpa [or_imp, forall_and] using ⟨hw, hb⟩
  · rw [List.map_append]
    exact Alignment.pending_append_singleton.2 ⟨hp, ha⟩
  · rw [List.length_append, List.length_singleton]
    omega
  · rw [List.map_append, Alignment.after_append, ← SyncReport.after_append]
    rfl

theorem rounds_seekMarker_runs {bs : List Arrival} {n : Nat} (hw : ∀ b ∈ bs, b.waits < limit)
    (hp : a.Pending (bs.map Arrival.byte))
    (ha : (a.after (bs.map Arrival.byte)).isAligned = true) (hn : bs.length < n) :
    (Tree.rounds (fun x => seekMarker x limit) n (a, r)).Runs (bs.flatMap Arrival.inspected)
      (.ended (.ok (r.after (bs.map Arrival.byte)))) := by
  induction bs generalizing a r n with
  | nil =>
    obtain ⟨n, rfl⟩ := Nat.exists_eq_succ_of_ne_zero (Nat.ne_of_gt hn)
    exact Tree.Runs.done (runs_seekMarker_done.2 ⟨ha, rfl, rfl⟩)
  | cons b bs ih =>
    obtain ⟨n, rfl⟩ := Nat.exists_eq_succ_of_ne_zero (Nat.ne_of_gt (Nat.zero_lt_of_lt hn))
    rw [List.map_cons, Alignment.pending_cons] at hp
    have hround : (seekMarker (a, r) limit).Runs b.inspected
        (.ended (.ok (.again (a.after [b.byte], r.after [b.byte])))) :=
      runs_seekMarker_again.2 ⟨hp.1, b, hw b List.mem_cons_self, rfl, rfl⟩
    have hrest := ih (a := a.after [b.byte]) (r := r.after [b.byte])
      (fun c hc => hw c (List.mem_cons_of_mem _ hc)) hp.2 ha (Nat.lt_of_succ_lt_succ hn)
    rw [SyncReport.after_append] at hrest
    exact hround.again hrest

/-- A search that succeeds has read up to the first byte that completes a run of markers. -/
theorem runs_align_ok {found : SyncReport} :
    (align limit).Runs T (.ended (.ok found)) ↔
      ∃ bs : List Arrival, bs.length < limit ∧ (∀ b ∈ bs, b.waits < limit) ∧
        T = bs.flatMap Arrival.inspected ∧ Alignment.Completed (bs.map Arrival.byte) ∧
        found = SyncReport.after {} (bs.map Arrival.byte) := by
  constructor
  · intro h
    rcases Tree.Runs.last_round h Searching.start Searching.again with
      ⟨-, -, hs⟩ | ⟨n, y, U, V, rfl, hU, ⟨r, hV, hs⟩ | ⟨s₀, -, hs⟩⟩
    · cases hs
    · obtain ⟨bs, rfl, hw, hp, hn, rfl⟩ := hU
      obtain ⟨ha, rfl, rfl⟩ := runs_seekMarker_done.1 hV
      cases hs
      exact ⟨bs, by omega, hw, List.append_nil _, ⟨hp, ha⟩, rfl⟩
    · exact absurd hs (s₀.early?_ne_ok found)
  · rintro ⟨bs, hn, hw, rfl, h, rfl⟩
    exact rounds_seekMarker_runs hw h.pending h.aligned hn

/-- A search that was left has not read a complete run before the last byte. The bytes it has read
are paid for by its units of waiting, but for one run, and so are its rounds if it was given up. -/
theorem align_early {s₀ : Stop SyncReport} {s : Stop β} (h : (align limit).Runs T s₀)
    (hs : s₀.early? = some s) :
    ∃ bs : List Arrival, ∃ polls,
      T.accesses = bs.flatMap Arrival.inspection ++ List.replicate polls (rxPoll false) ∧
      Alignment.Pending {} (bs.map Arrival.byte) ∧
      bs.length ≤ syncRun * T.ticks + syncRun ∧
      (s = .waiting ∨ s = .ended .stalled ∧ limit ≤ syncRun * T.ticks + syncRun) := by
  have hcost (bs : List Arrival) (hp : Alignment.Pending {} (bs.map Arrival.byte)) :
      bs.length ≤ syncRun * ticks (bs.flatMap Arrival.inspected) +
        (Alignment.after {} (bs.map Arrival.byte)).run ∧
      (Alignment.after {} (bs.map Arrival.byte)).run ≤ syncRun := by
    obtain ⟨hlen, hrun⟩ := Alignment.length_le hp
    rw [List.length_map] at hlen
    refine ⟨Nat.le_trans hlen (Nat.add_le_add_right (Nat.mul_le_mul_left _ ?_) _), hrun⟩
    rw [Arrival.ticks_inspected]
    exact Nat.le_add_left ..
  rcases Tree.Runs.last_round h Searching.start Searching.again with
    ⟨y, hT, rfl⟩ | ⟨n, y, U, V, rfl, hU, ⟨r, -, rfl⟩ | ⟨s₁, hV, hs₁⟩⟩
  · cases hs
    obtain ⟨bs, hT, -, hp, hn, -⟩ := hT
    rw [List.nil_append] at hT
    subst hT
    obtain ⟨hlen, hrun⟩ := hcost bs hp
    exact ⟨bs, 0, by simp, hp, by omega, .inr ⟨rfl, by omega⟩⟩
  · cases hs
  · obtain ⟨bs, hU, -, hp, hn, rfl⟩ := hU
    rw [List.nil_append] at hU
    subst hU
    obtain ⟨hlen, -⟩ := hcost bs hp
    obtain ⟨ha, hV⟩ := seekMarker_early hV ((Stop.early?_of_early? hs₁).trans hs)
    rw [Alignment.isAligned_eq_false] at ha
    rw [ticks_append, accesses_append, Arrival.accesses_inspected, Nat.mul_add]
    rcases hV with ⟨⟨polls, hV⟩, hs⟩ | ⟨b, -, hV, rfl⟩
    · refine ⟨bs, polls, by rw [hV], hp, by omega, hs.imp_right fun ⟨hs, hl⟩ => ⟨hs, ?_⟩⟩
      have : V.ticks ≤ syncRun * V.ticks := Nat.le_mul_of_pos_left _ (by decide)
      omega
    · refine ⟨bs ++ [b], 0, by simp [hV], ?_, ?_, .inl rfl⟩
      · rw [List.map_append]
        exact Alignment.pending_append_singleton.2 ⟨hp, Alignment.isAligned_eq_false.2 ha⟩
      · rw [List.length_append, List.length_singleton]
        omega

end Bcm2835.SpiSlave
