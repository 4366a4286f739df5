import Mathlib.Data.List.Chain
import Bcm2835.Proofs.Everywhere
import Bcm2835.Proofs.SpiSlave.Report

/-! What a run of the exchange does to the port, wherever it is left. Each access is judged by the
ones before and behind it (`Everywhere`). What more accesses further away cannot spoil is looked at
byte by byte (`Everywhere.flatMap`), and the marker that is sent back divides what is left
(`Stage.divided`). -/

namespace Bcm2835

namespace SpiSlave

open Program Transcript PcmPort

def touchesClock : Access PcmPort → Bool
  | ⟨.setClock _, _⟩ | ⟨.delay _, _⟩ => true
  | ⟨.rxReady, _⟩ | ⟨.txReady, _⟩ | ⟨.txEmpty, _⟩ | ⟨.readFifo, _⟩ | ⟨.writeFifo _, _⟩ => false

@[simp] theorem touchesClock_rxPoll (flag : Bool) : touchesClock (rxPoll flag) = false := rfl
@[simp] theorem touchesClock_txPoll (flag : Bool) : touchesClock (txPoll flag) = false := rfl
@[simp] theorem touchesClock_taken (b : UInt8) : touchesClock (taken b) = false := rfl
@[simp] theorem touchesClock_given (b : UInt8) : touchesClock (given b) = false := rfl

def clockChanges (A : List (Access PcmPort)) : List Bool :=
  A.filterMap fun
    | ⟨.setClock enabled, _⟩ => some enabled
    | _ => none

variable {A P Q : List (Access PcmPort)} {a : Access PcmPort}

def Held (_P : List (Access PcmPort)) (a : Access PcmPort) (Q : List (Access PcmPort)) : Prop :=
  ∀ b, a = taken b → b ≠ marker → heldClock <+: Q

def OfHold (P : List (Access PcmPort)) (a : Access PcmPort) (Q : List (Access PcmPort)) : Prop :=
  touchesClock a = true → ∃ P' b X Y Q', b ≠ marker ∧ X ++ a :: Y = heldClock ∧
    P = P' ++ taken b :: X ∧ Q = Y ++ Q'

def Polled (P : List (Access PcmPort)) (a : Access PcmPort) (_Q : List (Access PcmPort)) : Prop :=
  ∀ b, a = taken b → [rxPoll true] <:+ P

theorem lasting_held : Lasting Held :=
  fun _ _ _ _ _ h b ha hb => (h b ha hb).trans (List.prefix_append _ _)

theorem lasting_polled : Lasting Polled :=
  fun X P _ _ _ h b ha => (h b ha).trans (List.suffix_append X P)

theorem lasting_ofHold : Lasting OfHold := by
  intro R P a Q S h ha
  obtain ⟨P', b, X, Y, Q', hb, hX, rfl, rfl⟩ := h ha
  exact ⟨R ++ P', b, X, Y, Q' ++ S, hb, hX, by simp, by simp⟩

theorem polled_of_received (h : received A = []) : Everywhere Polled A := by
  rintro P _ Q rfl b rfl
  simp at h

theorem Arrival.polled_accesses (b : Arrival) : Everywhere Polled b.accesses := by
  refine everywhere_append.2 ⟨fun P a Q h => ?_, everywhere_cons.2 ⟨?_, everywhere_cons.2 ⟨?_, ?_⟩⟩⟩
  · exact polled_of_received (received_replicate_rxPoll ..) P a Q h
  · exact fun c h => by cases h
  · exact fun c _ => List.suffix_append _ _
  · exact everywhere_nil

theorem Arrival.polled_inspection (b : Arrival) : Everywhere Polled b.inspection := by
  refine b.polled_accesses.append lasting_polled (polled_of_received ?_)
  split <;> rfl

theorem Stage.polled (h : Stage A) : Everywhere Polled A := by
  have hsearch (bs : List Arrival) : Everywhere Polled (bs.flatMap Arrival.inspection) :=
    .flatMap lasting_polled Arrival.polled_inspection
  cases h with
  | searching bs polls _ =>
    exact (hsearch bs).append lasting_polled (polled_of_received (by simp))
  | aligned bs full _ =>
    exact (hsearch bs).append lasting_polled (polled_of_received (by simp))
  | listening bs full heard polls _ =>
    have hheard : Everywhere Polled (heard.flatMap Arrival.accesses) :=
      .flatMap lasting_polled Arrival.polled_accesses
    rw [List.append_assoc (List.flatMap ..)]
    exact ((hsearch bs).append lasting_polled (polled_of_received (by simp))).append lasting_polled
      (hheard.append lasting_polled (polled_of_received (by simp)))

theorem held_of_received (h : received A = []) : Everywhere Held A := by
  rintro P _ Q rfl b rfl
  simp at h

theorem Arrival.held_inspection (b : Arrival) : Everywhere Held b.inspection := by
  rw [inspection, accesses, List.append_assoc]
  refine everywhere_append.2
    ⟨fun P a Q h c hc => ?_, everywhere_cons.2 ⟨?_, everywhere_cons.2 ⟨?_, ?_⟩⟩⟩
  · cases hc
    simpa using congrArg received h
  · exact fun c h => by cases h
  · intro c hc hne
    cases hc
    rw [if_neg hne]
    exact List.prefix_refl _
  · refine held_of_received ?_
    split <;> rfl

theorem Arrival.untouched (b : Arrival) : ∀ a ∈ b.accesses, touchesClock a = false := by
  simp [accesses, or_imp, forall_and]

theorem ofHold_of_untouched (h : ∀ a ∈ A, touchesClock a = false) : Everywhere OfHold A :=
  .of_forall_mem fun a ha _ _ htouch => by simp [h a ha] at htouch

theorem Arrival.ofHold_inspection (b : Arrival) : Everywhere OfHold b.inspection := by
  refine everywhere_append.2 ⟨fun P a Q h ha => ?_, fun P a Q h _ => ?_⟩
  · have huntouched := b.untouched a (by simp [h])
    cases huntouched.symm.trans ha
  · by_cases hb : b.byte = marker
    · rw [if_pos hb] at h
      simp at h
    · rw [if_neg hb] at h
      exact ⟨List.replicate b.waits (rxPoll false) ++ [rxPoll true], b.byte, P, Q, [], hb, h.symm,
        by simp [accesses], (List.append_nil Q).symm⟩

/-- The echo divides the accesses: the search and the waiting for room come before it, and nothing
is sent or held behind it. -/
theorem Stage.divided (h : Stage A) :
    ∃ bs : List Arrival, ∃ full echo, A = bs.flatMap Arrival.inspection ++ full ++ echo ∧
      received full = [] ∧ sent full = [] ∧ (∀ a ∈ full ++ echo, touchesClock a = false) ∧
      (echo = [] ∨ ∃ heard, echo = given marker :: heard ∧ sent heard = [] ∧
        Alignment.Completed (bs.map Arrival.byte)) := by
  cases h with
  | searching bs polls _ =>
    exact ⟨bs, List.replicate polls (rxPoll false), [], by simp, by simp, by simp, by simp,
      .inl rfl⟩
  | aligned bs full _ =>
    exact ⟨bs, List.replicate full (txPoll false), [], by simp, by simp, by simp, by simp, .inl rfl⟩
  | listening bs full heard polls hbs =>
    refine ⟨bs, List.replicate full (txPoll false) ++ [txPoll true], given marker ::
      (heard.flatMap Arrival.accesses ++ List.replicate polls (rxPoll false)), by simp, by simp,
      by simp, ?_, .inr ⟨_, rfl, by simp, hbs⟩⟩
    simpa [or_imp, forall_and] using fun a b _ => b.untouched a

theorem clockChanges_append (A B : List (Access PcmPort)) :
    clockChanges (A ++ B) = clockChanges A ++ clockChanges B := List.filterMap_append

theorem clockChanges_of_untouched (h : ∀ a ∈ A, touchesClock a = false) : clockChanges A = [] := by
  refine List.filterMap_eq_nil_iff.2 fun a ha => ?_
  have := h a ha
  obtain ⟨r, x⟩ := a
  cases r with
  | setClock enabled => cases this
  | _ => rfl

theorem clockChanges_inspection (bs : List Arrival) :
    clockChanges (bs.flatMap Arrival.inspection) =
      (List.replicate (misreads (bs.map Arrival.byte)) [false, true]).flatten := by
  induction bs with
  | nil => rfl
  | cons b bs ih =>
    rw [List.flatMap_cons, Arrival.inspection, clockChanges_append, clockChanges_append,
      clockChanges_of_untouched b.untouched, ih, List.map_cons, misreads_cons]
    split
    · rfl
    · rw [List.replicate_succ]
      rfl

theorem isChain_offOn (n : Nat) :
    ((List.replicate n [false, true]).flatten).IsChain (· ≠ ·) ∧
      ((List.replicate n [false, true]).flatten).getLast? ≠ some false := by
  induction n with
  | zero => simp
  | succ n ih =>
    cases n with
    | zero => simp
    | succ n =>
      simp [List.replicate_succ] at ih ⊢
      exact ih

namespace Stage

variable {b : UInt8}

theorem held (h : Stage A) (hA : A = P ++ taken b :: Q) (hP : sent P = []) (hb : b ≠ marker) :
    heldClock <+: Q := by
  -- behind the echo the clock is not held, so what lasts there has to ask for nothing sent before
  obtain ⟨bs, full, echo, rfl, hreceived, -, -, hecho⟩ := h.divided
  suffices H : Everywhere (fun P a Q => sent P = [] → Held P a Q)
      (bs.flatMap Arrival.inspection ++ full ++ echo) from H P _ Q hA hP b rfl hb
  have hbefore : Everywhere Held (bs.flatMap Arrival.inspection ++ full) :=
    (Everywhere.flatMap lasting_held Arrival.held_inspection).append lasting_held
      (held_of_received hreceived)
  refine everywhere_append.2 ⟨fun P a Q hA _ => lasting_held [] P a Q echo (hbefore P a Q hA), ?_⟩
  rcases hecho with rfl | ⟨heard, rfl, -, -⟩
  · exact everywhere_nil
  · refine everywhere_cons.2 ⟨fun _ b hb => ?_, fun P a Q _ hP => ?_⟩
    · cases hb
    · simp at hP

theorem ofHold (h : Stage A) (hA : A = P ++ a :: Q) (ha : touchesClock a = true) :
    sent P = [] ∧ OfHold P a Q := by
  obtain ⟨bs, full, echo, rfl, -, hsent, huntouched, -⟩ := h.divided
  obtain ⟨hfull, hecho⟩ := List.forall_mem_append.1 huntouched
  suffices H : Everywhere (fun P a Q => touchesClock a = true → sent P = [] ∧ OfHold P a Q)
      (bs.flatMap Arrival.inspection ++ full ++ echo) from H P a Q hA ha
  have hbefore : Everywhere OfHold (bs.flatMap Arrival.inspection ++ full) :=
    (Everywhere.flatMap lasting_ofHold Arrival.ofHold_inspection).append lasting_ofHold
      (ofHold_of_untouched hfull)
  refine everywhere_append.2
    ⟨fun P a Q hA _ => ⟨?_, lasting_ofHold [] P a Q echo (hbefore P a Q hA)⟩,
    .of_forall_mem fun a ha _ _ htouch => ?_⟩
  · have hsentP : sent (P ++ a :: Q) = [] := by simp [← hA, hsent]
    rw [sent_append] at hsentP
    exact (List.append_eq_nil_iff.1 hsentP).1
  · simp [hecho a ha] at htouch

theorem echo (h : Stage A) (hA : A = P ++ given b :: Q) :
    b = marker ∧ sent P = [] ∧ sent Q = [] ∧ List.replicate syncRun marker <:+ received P := by
  obtain ⟨bs, full, echo, rfl, hreceived, hsent, -, rfl | ⟨heard, rfl, hheard, hbs⟩⟩ := h.divided
  · simpa [hsent] using congrArg sent hA
  have hU : sent (bs.flatMap Arrival.inspection ++ full) = [] := by simp [hsent]
  obtain ⟨rfl, rfl, rfl⟩ := eq_of_append_given hU hheard hA
  refine ⟨rfl, hU, hheard, ?_⟩
  simpa [hreceived] using Alignment.isAligned_after_iff.1 hbs.aligned

theorem exists_clockChanges (h : Stage A) :
    ∃ n, clockChanges A = (List.replicate n [false, true]).flatten := by
  obtain ⟨bs, full, echo, rfl, -, -, huntouched, -⟩ := h.divided
  rw [List.append_assoc, clockChanges_append, clockChanges_of_untouched huntouched,
    clockChanges_inspection, List.append_nil]
  exact ⟨_, rfl⟩

end Stage

/-- Accesses to the port in order. -/
structure Orderly (A : List (Access PcmPort)) : Prop where
  /-- A byte is taken right behind a poll that found it. -/
  polled : ∀ P b Q, A = P ++ taken b :: Q → [rxPoll true] <:+ P
  /-- Before a byte is sent, the clock is held behind each byte that is no marker. -/
  held : ∀ P b Q, A = P ++ taken b :: Q → sent P = [] → b ≠ marker → heldClock <+: Q
  /-- Nothing else is done to the clock. -/
  ofHold : ∀ P a Q, A = P ++ a :: Q → touchesClock a = true → sent P = [] ∧
    ∃ P' b X Y Q', b ≠ marker ∧ X ++ a :: Y = heldClock ∧ P = P' ++ taken b :: X ∧ Q = Y ++ Q'
  /-- Only the marker is sent, once, and after a run of markers. -/
  echo : ∀ P b Q, A = P ++ given b :: Q → b = marker ∧ sent P = [] ∧ sent Q = [] ∧
    List.replicate syncRun marker <:+ received P
  /-- The clock is switched off and on in turn. -/
  alternating : (clockChanges A).IsChain (· ≠ ·)
  enabled : (clockChanges A).getLast? ≠ some false

theorem Stage.orderly (h : Stage A) : Orderly A := by
  obtain ⟨n, hn⟩ := h.exists_clockChanges
  exact ⟨fun P b Q hA => h.polled P _ Q hA b rfl, fun _ _ _ => h.held,
    fun P a Q hA ha => ⟨(h.ofHold hA ha).1, (h.ofHold hA ha).2 ha⟩, fun _ _ _ => h.echo,
    hn ▸ (isChain_offOn n).1, hn ▸ (isChain_offOn n).2⟩

variable {budget : Budget} {limit : Nat} {T : Transcript PcmPort} {s : Stop SyncReport}

/-- Wherever a synchronization is left, all its accesses are in order. -/
theorem synchronize_orderly (h : (synchronize budget limit).Runs T s) : Orderly T.accesses := by
  obtain ⟨s₀, -, hT, -⟩ := runs_within.1 h
  exact (runs_exchangeMarkers hT).1.orderly

theorem synchronize_orderly_hastyPort :
    ((synchronize (.bounded 2)).record hastyPort 12).outcome = .error .timeout ∧
      Orderly ((synchronize (.bounded 2)).record hastyPort 12).transcript.accesses :=
  ⟨rfl, synchronize_orderly (Tree.runs_record hastyPort (synchronize (.bounded 2) 12) [])⟩

end SpiSlave

end Bcm2835
