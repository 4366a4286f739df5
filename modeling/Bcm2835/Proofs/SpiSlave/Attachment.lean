import Bcm2835.SpiSlave.Setup
import Bcm2835.Proofs.Gpio.Functions
import Bcm2835.Proofs.SystemTimer.Delay

/-! How the PCM interface is attached to its pins. The pins are detached first; then comes the
reset, which may end early and neither gives a pin a function nor selects slave mode (`Preparing`);
what is left after it waits for nothing. So a run that ends early leaves the pins detached, and one
that comes to its end has attached them last. -/

namespace Bcm2835.SpiSlave

open Program Board Gpio Register

/-! ## Three parts in a row -/

/-- The reset as a clock master, up to the start of both directions. -/
def start : List Update := [
  .set PcmBlock.rxc 0,
  .set PcmBlock.txc 0,
  .set PcmBlock.inten 0,
  .set PcmBlock.intstc
    (PcmInt.txw.set + PcmInt.rxr.set + PcmInt.txerr.set + PcmInt.rxerr.set).value,
  .set PcmBlock.gray 0,
  .modify PcmBlock.rxc channelOne,
  .modify PcmBlock.txc channelOne,
  .set ClockGenerator.pcm.divisor resetClockDivisor.value,
  .set ClockGenerator.pcm.control resetClockControl.value,
  .set PcmBlock.mode frame.value,
  .modify PcmBlock.mode PcmMode.clkDis.clear,
  .set PcmBlock.cs startUp.value]

/-- The pins are given up. -/
def detach : Driver Unit := pins.forM fun pin => Gpio.configure pin .input

/-- What is done before slave mode is selected. -/
def prepare (pause : UInt32 → Driver Unit) : Driver Unit := do
  drain (PcmBlock.cs.isSet PcmCs.rxd) (discard PcmBlock.fifo.get)
  PcmBlock.cs.modify PcmCs.en.clear
  pause SystemTimer.ticksPerMillisecond
  start.forM Update.program
  waitUntil (PcmBlock.cs.isSet PcmCs.sync)
  PcmBlock.cs.modify PcmCs.sync.clear
  waitUntil (not <$> PcmBlock.cs.isSet PcmCs.sync)
  PcmBlock.mode.modify PcmMode.clkDis.set

/-- Slave mode, and the pins. -/
def attach : Driver Unit := do
  PcmBlock.mode.write slaveFrame
  pins.forM fun pin => Gpio.configure pin .alt2
  PcmBlock.mode.modify PcmMode.clkDis.clear
  report .attached

variable {budget : Budget} {pause : UInt32 → Driver Unit} {limit : Nat} {T : Transcript Board}

theorem init_eq : init budget pause =
    within budget (detach >>= fun _ => prepare pause >>= fun _ => attach) := by
  simp only [init, detach, prepare, attach, start, bind_assoc]
  rfl

/-! ## Slave mode -/

/-- The access selects slave mode: it sets CLKM, and does not put back what was just found. -/
def Selects (P : List (Access Board)) (a : Access Board) : Prop :=
  ∃ w, a = wrote PcmBlock.mode w ∧ PcmMode.clkm.isSet w = true ∧
    ∀ v, [looked PcmBlock.mode v] <:+ P → PcmMode.clkm.isSet v = false

/-- Slave mode was selected. -/
def Selected (A : List (Access Board)) : Prop := ∃ P a Q, A = P ++ a :: Q ∧ Selects P a

/-- Here slave mode is not selected. -/
def Unselecting (P : List (Access Board)) (a : Access Board) (_Q : List (Access Board)) : Prop :=
  ¬ Selects P a

variable {A B : List (Access Board)}

theorem lasting_unselecting : Lasting Unselecting := by
  intro X P a Q Y h ⟨w, ha, hw, hlook⟩
  exact h ⟨w, ha, hw, fun v hv => hlook v (hv.trans (List.suffix_append X P))⟩

theorem not_selected_iff : ¬ Selected A ↔ Everywhere Unselecting A := by
  constructor
  · intro h P a Q hA hsel
    exact h ⟨P, a, Q, hA, hsel⟩
  · intro h ⟨P, a, Q, hA, hsel⟩
    exact h P a Q hA hsel

/-! ## The reset -/

/-- No pin is given a function, and slave mode is not selected. -/
def Preparing (A : List (Access Board)) : Prop :=
  (∀ a ∈ A, ¬ SetsFunction a) ∧ Everywhere Unselecting A

theorem additive_preparing : Additive Preparing :=
  (additive_forall _).and (additive_everywhere lasting_unselecting)

theorem preparing_of_unwritten (h : ∀ a ∈ A, written? a = none) : Preparing A := by
  constructor
  · intro a ha ⟨o, w, hw, _⟩
    cases (h a ha).symm.trans hw
  · apply Everywhere.of_forall_mem
    intro a ha P Q ⟨w, hw, _⟩
    have hnone := h a ha
    rw [hw] at hnone
    cases hnone

theorem preparing_looked (o : Nat) (v : UInt32) : Preparing [lookedAt o v] :=
  preparing_of_unwritten (List.forall_mem_singleton.2 rfl)

/-- The update is none of a function word, and does not set CLKM. -/
def Prepares : Update → Prop
  | .set r w => ¬ FunctionWord r.offset ∧
    (r.offset = PcmBlock.mode.offset → w &&& PcmMode.clkm.mask = 0)
  | .modify r a => ¬ FunctionWord r.offset ∧ (r.offset = PcmBlock.mode.offset →
    a.mask &&& PcmMode.clkm.mask = 0 ∧ a.value &&& PcmMode.clkm.mask = 0)

instance : (u : Update) → Decidable (Prepares u)
  | .set .. | .modify .. => inferInstanceAs (Decidable (_ ∧ (_ → _)))

theorem preparing_accesses {u : Update} (h : Prepares u) (v : UInt32) :
    Preparing (u.accesses v) := by
  cases u with
  | set r w =>
    obtain ⟨hword, hmode⟩ := h
    refine ⟨List.forall_mem_singleton.2 (not_setsFunction_wroteAt hword), ?_⟩
    show Everywhere Unselecting [wrote r w]
    refine everywhere_cons.2 ⟨?_, everywhere_nil⟩
    intro hselects
    obtain ⟨x, hx, hset, -⟩ := hselects
    obtain ⟨ho, rfl⟩ := offset_eq_of_wrote hx
    rw [Field.isSet, hmode ho] at hset
    cases hset
  | modify r a =>
    obtain ⟨hword, hmode⟩ := h
    have hlook := preparing_looked r.offset v
    refine ⟨List.forall_mem_cons.2 ⟨hlook.1 _ (List.mem_singleton.2 rfl),
      List.forall_mem_singleton.2 (not_setsFunction_wroteAt hword)⟩, ?_⟩
    show Everywhere Unselecting [looked r v, wrote r (a.applyTo v)]
    refine everywhere_cons.2 ⟨?_, everywhere_cons.2 ⟨?_, everywhere_nil⟩⟩
    · intro hselects
      obtain ⟨x, hx, -⟩ := hselects
      exact looked_ne_wrote hx
    · -- CLKM is put back as it was found
      intro hselects
      obtain ⟨x, hx, hset, hclear⟩ := hselects
      obtain ⟨ho, rfl⟩ := offset_eq_of_wrote hx
      obtain ⟨hmask, hvalue⟩ := hmode ho
      have hsame := Field.isSet_congr (Assignment.applyTo_and hmask hvalue v)
      have hseen : looked PcmBlock.mode v = looked r v := congrArg (lookedAt · v) ho.symm
      have hfound := hclear v (hseen ▸ List.suffix_refl _)
      cases hset.symm.trans (hsame.trans hfound)

theorem prepare_leaves (hpause : OnlyWaits pause) : (prepare pause).Leaves Preparing := by
  have hP := additive_preparing
  have hupdate {u : Update} (h : Prepares u) : u.program.Leaves Preparing :=
    Update.leaves_program (preparing_accesses h)
  have hstart : ∀ u ∈ start, Prepares u := by decide
  have hsync : (PcmBlock.cs.isSet PcmCs.sync).Leaves Preparing :=
    leaves_isSet _ _ (preparing_looked _)
  apply hP.bind (hP.drain (leaves_isSet _ _ (preparing_looked _))
    (hP.map _ (leaves_get _ (preparing_looked _))))
  intro _
  apply hP.bind (hupdate (u := .modify PcmBlock.cs PcmCs.en.clear) (by decide))
  intro _
  apply hP.bind ((hpause _).imp fun A h =>
    preparing_of_unwritten fun a ha => written?_of_timing (h a ha))
  intro _
  apply hP.bind (Update.leaves_programs hP fun u hu => preparing_accesses (hstart u hu))
  intro _
  apply hP.bind (hP.waitUntil hsync)
  intro _
  apply hP.bind (hupdate (u := .modify PcmBlock.cs PcmCs.sync.clear) (by decide))
  intro _
  apply hP.bind (hP.waitUntil (hP.map _ hsync))
  intro _
  exact hupdate (u := .modify PcmBlock.mode PcmMode.clkDis.set) (by decide)

/-- The sync bit was seen set and later clear. -/
def Synced (A : List (Access Board)) : Prop :=
  ∃ X v Y w Z, A = X ++ looked PcmBlock.cs v :: Y ++ looked PcmBlock.cs w :: Z ∧
    PcmCs.sync.isSet v = true ∧ PcmCs.sync.isSet w = false

/-- A preparation that comes to its end saw the sync bit come and go, and wrote to MODE last. -/
theorem runs_prepare_ok (h : (prepare pause limit).Runs T (.ended (.ok ()))) :
    ∃ A w, T.accesses = A ++ [wrote PcmBlock.mode w] ∧ Synced A := by
  obtain ⟨drained, U, _, rfl, -, h⟩ := Tree.runs_bind_ok.1 h
  obtain ⟨disabled, U, _, rfl, -, h⟩ := Tree.runs_bind_ok.1 h
  obtain ⟨paused, U, _, rfl, -, h⟩ := Tree.runs_bind_ok.1 h
  obtain ⟨started, U, _, rfl, -, h⟩ := Tree.runs_bind_ok.1 h
  obtain ⟨seenSet, U, _, rfl, hset, h⟩ := Tree.runs_bind_ok.1 h
  obtain ⟨cleared, U, _, rfl, -, h⟩ := Tree.runs_bind_ok.1 h
  obtain ⟨seenClear, stopped, _, rfl, hclear, h⟩ := Tree.runs_bind_ok.1 h
  obtain ⟨early, v, -, hv, hearly⟩ := (asks_isSet PcmBlock.cs PcmCs.sync).runs_waitUntil_ok hset
  obtain ⟨late, w, -, hw, hlate⟩ := (asks_not_isSet PcmBlock.cs PcmCs.sync).runs_waitUntil_ok hclear
  obtain ⟨⟨x, hx⟩, -⟩ := Update.runs_program (u := .modify PcmBlock.mode PcmMode.clkDis.set) h
  refine ⟨drained.accesses ++ (disabled.accesses ++ (paused.accesses ++ (started.accesses ++
    (seenSet.accesses ++ (cleared.accesses ++ (seenClear.accesses ++ [looked PcmBlock.mode x])))))),
    PcmMode.clkDis.set.applyTo x, ?_, ?_⟩
  · simp only [Transcript.accesses_append, hx, List.append_assoc]
    rfl
  · refine ⟨drained.accesses ++ (disabled.accesses ++ (paused.accesses ++ (started.accesses ++
      early.map (looked PcmBlock.cs)))), v, cleared.accesses ++ late.map (looked PcmBlock.cs), w,
      [looked PcmBlock.mode x], ?_, hv, by simpa using hw⟩
    rw [hearly, hlate]
    simp only [List.append_assoc, List.cons_append, List.nil_append]
    rfl

theorem Synced.append (h : Synced A) (B C : List (Access Board)) : Synced (B ++ (A ++ C)) := by
  obtain ⟨X, v, Y, w, Z, rfl, hv, hw⟩ := h
  exact ⟨B ++ X, v, Y, w, Z ++ C, by simp, hv, hw⟩

/-! ## The pins -/

/-- The pins of the interface have this function. -/
def PinsAre (f : PinFunction) (m : Contents) : Prop :=
  ∀ q ∈ [28, 29, 30, 31], function m q = f.code.toNat

variable {m : Contents} {f : PinFunction} {s : Stop Unit}

theorem PinsAre.after_of_quiet (h : PinsAre f m) (hA : ∀ a ∈ A, ¬ SetsFunction a) :
    PinsAre f (m.after A) := by
  have hpins : ∀ q ∈ [28, 29, 30, 31], q < pinCount := by decide
  intro q hq
  exact (function_of_quiet hA ⟨q, hpins q hq⟩).trans (h q hq)

theorem pins_lt : ∀ pin ∈ pins, pin.toNat < pinCount := by simp [pins, pinCount]

theorem runs_configurePins (h : (pins.forM (fun pin => Gpio.configure pin f) limit).Runs T s) :
    s = .ended (.ok ()) ∧ (∀ a ∈ T.accesses, VisitsFunction a) ∧
      ∀ m : Contents, m.Keeps FunctionWord T.accesses → PinsAre f (m.after T.accesses) := by
  obtain ⟨hs, hafter⟩ := runs_configureAll pins_lt f h
  exact ⟨hs, configureAll_leaves pins_lt f h, fun m hm q hq => hafter m q hm (.inl hq)⟩

theorem runs_attach (h : (attach limit).Runs T s) :
    s = .ended (.ok ()) ∧ ∃ B v, T.accesses = wrote PcmBlock.mode slaveFrame.value :: (B ++
        [looked PcmBlock.mode v, wrote PcmBlock.mode (PcmMode.clkDis.clear.applyTo v)]) ∧
      ∀ m : Contents, m.Keeps FunctionWord B → PinsAre .alt2 (m.after B) := by
  obtain ⟨_, U, hU, h⟩ := Update.runs_program_bind (u := .set PcmBlock.mode slaveFrame.value) h
  rcases Tree.runs_bind.1 h with ⟨V, W, _, rfl, hV, hW⟩ | ⟨s₀, hV, hs⟩
  · obtain ⟨-, -, hpins⟩ := runs_configurePins hV
    obtain ⟨v, X, hX, h⟩ :=
      Update.runs_program_bind (u := .modify PcmBlock.mode PcmMode.clkDis.clear) hW
    obtain ⟨Y, rfl, hY⟩ := Tree.runs_report.1 h
    obtain ⟨rfl, rfl⟩ := Tree.runs_halt.1 hY
    refine ⟨rfl, V.accesses, v, ?_, hpins⟩
    rw [hU, Transcript.accesses_append, hX]
    rfl
  · obtain ⟨rfl, -⟩ := runs_configurePins hV
    cases hs

/-- What an attachment does: it detaches the pins and prepares, and if it comes through that it
attaches them. -/
theorem runs_parts (hpause : OnlyWaits pause)
    (h : ((detach >>= fun _ => prepare pause >>= fun _ => attach) limit).Runs T s) :
    ∃ D M B, T.accesses = D ++ (M ++ B) ∧ (∀ a ∈ D, VisitsFunction a) ∧
      (∀ m : Contents, m.Keeps FunctionWord D → PinsAre .input (m.after D)) ∧ Preparing M ∧
      ((B = [] ∧ ∀ u, s ≠ .ended (.ok u)) ∨
        (∃ A w, M = A ++ [wrote PcmBlock.mode w] ∧ Synced A) ∧ s = .ended (.ok ()) ∧
          ∃ C v, B = wrote PcmBlock.mode slaveFrame.value :: (C ++
              [looked PcmBlock.mode v, wrote PcmBlock.mode (PcmMode.clkDis.clear.applyTo v)]) ∧
            ∀ m : Contents, m.Keeps FunctionWord C → PinsAre .alt2 (m.after C)) := by
  rcases Tree.runs_bind.1 h with ⟨U, V, _, rfl, hU, hV⟩ | ⟨s₀, hU, hs⟩
  · obtain ⟨-, hD, hpins⟩ := runs_configurePins hU
    rcases Tree.runs_bind.1 hV with ⟨X, Y, _, rfl, hX, hY⟩ | ⟨s₀, hX, hs⟩
    · obtain ⟨rfl, C, v, hB, hC⟩ := runs_attach hY
      exact ⟨U.accesses, X.accesses, Y.accesses, by simp, hD, hpins, prepare_leaves hpause hX,
        .inr ⟨runs_prepare_ok hX, rfl, C, v, hB, hC⟩⟩
    · refine ⟨U.accesses, V.accesses, [], by simp, hD, hpins, prepare_leaves hpause hX,
        .inl ⟨rfl, ?_⟩⟩
      intro u hu
      rw [hu] at hs
      exact s₀.early?_ne_ok u hs
  · obtain ⟨rfl, -⟩ := runs_configurePins hU
    cases hs

/-! ## A whole run -/

/-- The access is one to the interface or to the clock manager. -/
def VisitsInterface (a : Access Board) : Prop :=
  ∃ o, place? a = some o ∧ (Layout.pcm.Contains o ∨ Layout.cm.Contains o)

/-- An access to the interface or its clock finds the pins detached up to the choice of the mode. -/
def FindsDetached (m : Contents) (P : List (Access Board)) (a : Access Board)
    (_Q : List (Access Board)) : Prop :=
  VisitsInterface a → ¬ Selected P → PinsAre .input (m.after P)

variable {D M : List (Access Board)}

theorem not_visitsInterface {a : Access Board} (h : VisitsFunction a) : ¬ VisitsInterface a := by
  obtain ⟨o, ho, hle, hlt⟩ := h
  intro ⟨p, hp, hplace⟩
  cases ho.symm.trans hp
  rcases hplace with ⟨hpcm, -⟩ | ⟨-, hcm⟩
  · exact absurd (Nat.lt_of_le_of_lt hpcm hlt) (by decide)
  · exact absurd (Nat.le_trans (Nat.add_le_add_right hle 4) hcm) (by decide)

theorem not_selected_append (hD : ∀ a ∈ D, VisitsFunction a) (hM : Preparing M) :
    ¬ Selected (D ++ M) := by
  have hquiet : Everywhere Unselecting D := by
    apply Everywhere.of_forall_mem
    intro a ha P Q ⟨w, hw, _⟩
    have hmode : VisitsInterface (wrote PcmBlock.mode w) := ⟨_, rfl, .inl (by decide)⟩
    exact not_visitsInterface (hD a ha) (hw ▸ hmode)
  exact not_selected_iff.2 (hquiet.append lasting_unselecting hM.2)

/-- Behind a write to MODE, the mode of a slave is a choice. -/
theorem selects_slaveFrame (A : List (Access Board)) (w : UInt32) :
    Selects (A ++ [wrote PcmBlock.mode w]) (wrote PcmBlock.mode slaveFrame.value) := by
  refine ⟨slaveFrame.value, rfl, by decide, ?_⟩
  intro v ⟨X, hX⟩
  have hlast := List.append_inj_right' hX rfl
  exact absurd (List.cons.inj hlast).1 looked_ne_wrote

theorem everywhere_findsDetached (hD : ∀ a ∈ D, VisitsFunction a)
    (hinput : PinsAre .input (m.after D)) (hM : Preparing M)
    (hB : B = [] ∨ ∃ a C, B = a :: C ∧ Selects (D ++ M) a) :
    Everywhere (FindsDetached m) (D ++ (M ++ B)) := by
  refine everywhere_append.2 ⟨?_, everywhere_append.2 ⟨?_, ?_⟩⟩
  · intro P a Q hPQ hvisit
    have ha : a ∈ D := by simp [hPQ]
    exact absurd hvisit (not_visitsInterface (hD a ha))
  · intro P a Q hPQ _ _
    rw [Contents.after_append]
    apply hinput.after_of_quiet
    intro b hb
    exact hM.1 b (by simp [hPQ, hb])
  · rcases hB with rfl | ⟨a, C, rfl, ha⟩
    · exact everywhere_nil
    · refine everywhere_cons.2 ⟨?_, ?_⟩
      · intro _ _
        rw [List.append_nil, Contents.after_append]
        exact hinput.after_of_quiet hM.1
      · intro P b Q _ _ hnot
        exact absurd ⟨D ++ M, a, P, by simp, ha⟩ hnot

theorem clkDis_clear_applyTo (v : UInt32) :
    PcmMode.clkDis.clear.applyTo v = v &&& ~~~0x10000000 := UInt32.or_zero

/-- An interface is attached to its pins once it is configured, and not before. Up to the choice of
slave mode each access to it finds the pins detached. A set-up that fails leaves them so and has not
chosen the mode; one that succeeds saw the sync bit come and go before it did, and starts the clock
with its last access. -/
theorem attached_once_configured (hpause : OnlyWaits pause)
    (h : (init budget pause limit).Runs T s) (hm : m.Keeps FunctionWord T.accesses) :
    Everywhere (FindsDetached m) T.accesses ∧
    (∀ e, s = .ended (.error e) → ¬ Selected T.accesses ∧ PinsAre .input (m.after T.accesses)) ∧
    (s = .ended (.ok ()) → PinsAre .alt2 (m.after T.accesses) ∧
      (∃ P Q, T.accesses = P ++ wrote PcmBlock.mode slaveFrame.value :: Q ∧ ¬ Selected P ∧
        Selects P (wrote PcmBlock.mode slaveFrame.value) ∧ Synced P) ∧
      ∃ P v, T.accesses =
        P ++ [looked PcmBlock.mode v, wrote PcmBlock.mode (v &&& ~~~0x10000000)]) := by
  rw [init_eq] at h
  obtain ⟨s₀, b, hrun, hb, rfl⟩ := runs_within.1 h
  obtain ⟨D, M, B, hA, hD, hinput, hM, hrest⟩ := runs_parts hpause hrun
  rw [hA] at hm ⊢
  obtain ⟨hmD, hmMB⟩ := Contents.keeps_append.1 hm
  have hinput := hinput m hmD
  rcases hrest with ⟨rfl, hunfinished⟩ | ⟨⟨A, w, hM', hsynced⟩, rfl, C, v, rfl, hpins⟩
  · refine ⟨everywhere_findsDetached hD hinput hM (.inl rfl), ?_, ?_⟩
    · intro e _
      rw [List.append_nil, Contents.after_append]
      exact ⟨not_selected_append hD hM, hinput.after_of_quiet hM.1⟩
    · intro hs
      exact absurd (Stop.cut_eq_ok.1 hs) (hunfinished ())
  · have hselects : Selects (D ++ M) (wrote PcmBlock.mode slaveFrame.value) := by
      rw [hM', ← List.append_assoc]
      exact selects_slaveFrame _ w
    refine ⟨everywhere_findsDetached hD hinput hM (.inr ⟨_, _, rfl, hselects⟩), ?_, ?_⟩
    · intro e hs
      cases hs
    · intro _
      refine ⟨?_, ⟨D ++ M, _, by rw [List.append_assoc], not_selected_append hD hM, hselects, ?_⟩,
        D ++ (M ++ wrote PcmBlock.mode slaveFrame.value :: C), v, ?_⟩
      · have hparts : D ++ (M ++ wrote PcmBlock.mode slaveFrame.value :: (C ++
            [looked PcmBlock.mode v, wrote PcmBlock.mode (PcmMode.clkDis.clear.applyTo v)])) =
            (D ++ (M ++ [wrote PcmBlock.mode slaveFrame.value])) ++ (C ++
              [looked PcmBlock.mode v, wrote PcmBlock.mode (PcmMode.clkDis.clear.applyTo v)]) := by
          simp
        rw [hparts] at hm ⊢
        have hmC := (Contents.keeps_append.1 (Contents.keeps_append.1 hm).2).1
        rw [Contents.after_append, Contents.after_append]
        exact (hpins _ hmC).after_of_quiet
          (preparing_accesses (u := .modify PcmBlock.mode PcmMode.clkDis.clear) (by decide) v).1
      · rw [hM']
        exact hsynced.append D [wrote PcmBlock.mode w]
      · rw [← clkDis_clear_applyTo]
        simp

/-- A set-up that succeeds on registers that hold zeros, and one that fails because there is always
a byte to drain. -/
theorem attached_once_configured_delay :
    (((init (.bounded 1) SystemTimer.delay).record (Contents.hardware fun _ => 0) 2).outcome =
        .ok () ∧
      Everywhere (FindsDetached fun _ => 0) ((init (.bounded 1) SystemTimer.delay).record
        (Contents.hardware fun _ => 0) 2).transcript.accesses ∧
      PinsAre .alt2 (Contents.after (fun _ => 0) ((init (.bounded 1) SystemTimer.delay).record
        (Contents.hardware fun _ => 0) 2).transcript.accesses)) ∧
    ((init (.bounded 1) SystemTimer.delay).record
      (Contents.hardware fun _ => 0x100000) 2).outcome = .error .timeout ∧
    PinsAre .input (Contents.after (fun _ => 0x100000) ((init (.bounded 1) SystemTimer.delay).record
      (Contents.hardware fun _ => 0x100000) 2).transcript.accesses) := by
  have hok : ((init (.bounded 1) SystemTimer.delay).record
      (Contents.hardware fun _ => 0) 2).outcome = .ok () := by decide +kernel
  have hlate : ((init (.bounded 1) SystemTimer.delay).record
      (Contents.hardware fun _ => 0x100000) 2).outcome = .error .timeout := by decide +kernel
  obtain ⟨hdetached, -, hend⟩ := attached_once_configured SystemTimer.delay_onlyWaits
    (Tree.runs_record (Contents.hardware fun _ => 0) (init (.bounded 1) SystemTimer.delay 2) [])
    (Contents.keeps_record (by decide) (fun _ => 0) (init (.bounded 1) SystemTimer.delay) 2)
  obtain ⟨-, hfail, -⟩ := attached_once_configured SystemTimer.delay_onlyWaits
    (Tree.runs_record (Contents.hardware fun _ => 0x100000)
      (init (.bounded 1) SystemTimer.delay 2) [])
    (Contents.keeps_record (by decide) (fun _ => 0x100000)
      (init (.bounded 1) SystemTimer.delay) 2)
  exact ⟨⟨hok, hdetached, (hend (congrArg Stop.ended hok)).1⟩, hlate,
    (hfail .timeout (congrArg Stop.ended hlate)).2⟩

end Bcm2835.SpiSlave
