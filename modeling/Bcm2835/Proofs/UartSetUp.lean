import Bcm2835.Proofs.Mailbox.OnBoard
import Bcm2835.Proofs.PortSetUp

/-! How the set-ups of the two UARTs end. Both are ports that are set up around a wait. The full one
may have the firmware set its reference clock before, with two calls that stay away from the port
and its pins (`Uart0.init_fails`). -/

namespace Bcm2835

open Program Board Gpio Register

/-! ## The full UART -/

namespace Uart0

variable {budget : Budget} {bitrate : UInt32} {limit : Nat} {T : Transcript Board}

def port : Port where
  control := Uart0Block.cr
  enable := Uart0Cr.uarten.mask
  programmed := [Uart0Block.lcrh, Uart0Block.ibrd, Uart0Block.fbrd]
  status := Uart0Block.fr
  atRest w := !Uart0Fr.busy.isSet w

/-- What is done once the port is at rest. -/
def reprogram (bitrate : UInt32) : Driver Unit := do
  Uart0Block.cr.write (Uart0Cr.txe.set + Uart0Cr.rxe.set)
  Uart0Block.lcrh.write (Uart0Lcrh.fen.set + Uart0Lcrh.wlen.val 3)
  Uart0Block.ibrd.write (Uart0Ibrd.ibrd.val (← ofFaulty (integerDivisor bitrate)))
  Uart0Block.fbrd.write (Uart0Fbrd.fbrd.val (← ofFaulty (fractionalDivisor bitrate)))
  Uart0Block.cr.modify Uart0Cr.uarten.set
  pins.forM fun pin => do
    Gpio.setPull pin .off
    Gpio.configure pin .alt0

theorem configure_eq : configure budget bitrate =
    within budget (Uart0Block.cr.modify Uart0Cr.uarten.clear >>= fun _ =>
      waitUntil (not <$> Uart0Block.fr.isSet Uart0Fr.busy) >>= fun _ => reprogram bitrate) := rfl

theorem pins_lt : ∀ pin ∈ pins, pin.toNat < pinCount := fun pin h => (pins_owned pin h).1

theorem reprogram_certain (bitrate : UInt32) : (reprogram bitrate).Certain := by
  apply (succeeds_set _ _).certain.bind
  intro _
  apply (succeeds_set _ _).certain.bind
  intro _
  apply (certain_ofFaulty _).bind
  intro _
  apply (succeeds_set _ _).certain.bind
  intro _
  apply (certain_ofFaulty _).bind
  intro _
  apply (succeeds_set _ _).certain.bind
  intro _
  apply (succeeds_modify _ _).certain.bind
  intro _
  exact (succeeds_attachAll pins_lt _).certain

theorem runs_reprogram_ok (hT : (reprogram bitrate limit).Runs T (.ended (.ok ()))) :
    ∃ (i f v : UInt32) (G : List (Access Board)), integerDivisor bitrate = .ok i ∧
      fractionalDivisor bitrate = .ok f ∧ AmongPins G ∧ T.accesses =
      [(Uart0Block.cr, (Uart0Cr.txe.set + Uart0Cr.rxe.set).value),
        (Uart0Block.lcrh, (Uart0Lcrh.fen.set + Uart0Lcrh.wlen.val 3).value),
        (Uart0Block.ibrd, (Uart0Ibrd.ibrd.val i).value),
        (Uart0Block.fbrd, (Uart0Fbrd.fbrd.val f).value)].map (fun u => wrote u.1 u.2) ++
      looked Uart0Block.cr v :: wrote Uart0Block.cr (Uart0Cr.uarten.set.applyTo v) :: G := by
  obtain ⟨_, U, hcr, hU⟩ := Update.runs_program_bind (u := .set Uart0Block.cr _) hT
  obtain ⟨_, V, hlcrh, hV⟩ := Update.runs_program_bind (u := .set Uart0Block.lcrh _) hU
  obtain ⟨i, hi, hV⟩ := runs_ofFaulty_bind_ok hV
  obtain ⟨_, W, hibrd, hW⟩ :=
    Update.runs_program_bind (u := .set Uart0Block.ibrd (Uart0Ibrd.ibrd.val i).value) hV
  obtain ⟨f, hf, hW⟩ := runs_ofFaulty_bind_ok hW
  obtain ⟨_, X, hfbrd, hX⟩ :=
    Update.runs_program_bind (u := .set Uart0Block.fbrd (Uart0Fbrd.fbrd.val f).value) hW
  obtain ⟨v, Y, hon, hY⟩ :=
    Update.runs_program_bind (u := .modify Uart0Block.cr Uart0Cr.uarten.set) hX
  refine ⟨i, f, v, Y.accesses, hi, hf, Gpio.attachAll_leaves pins_lt _ hY, ?_⟩
  rw [hcr, hlcrh, hibrd, hfbrd, hon]
  rfl

theorem uarten_clear_applyTo (v : UInt32) : Uart0Cr.uarten.clear.applyTo v = v &&& ~~~1 :=
  UInt32.or_zero

theorem configure_enables (hT : (configure budget bitrate limit).Runs T (.ended (.ok ()))) :
    port.Enabled T.accesses := by
  rw [configure_eq] at hT
  obtain ⟨U, looks, w, V, hU, hw, hV, hA⟩ := runs_within_wait_ok (asks_not_isSet _ _) hT
  obtain ⟨⟨v, hv⟩, -⟩ :=
    Update.runs_program (u := .modify Uart0Block.cr Uart0Cr.uarten.clear) hU
  obtain ⟨i, f, x, G, -, -, hG, hrest⟩ := runs_reprogram_ok hV
  rw [hA, hv, hrest]
  refine Port.enabled_of_parts (p := port) ?_ hw ?_ ?_ ?_ hG (by decide) (by decide)
  · intro u hu
    rcases List.mem_cons.1 hu with hu | hu
    · exact absurd hu.symm looked_ne_wrote
    · obtain ⟨-, rfl⟩ := offset_eq_of_wrote (List.mem_singleton.1 hu)
      exact Assignment.applyTo_and_of_le_mask (by decide) v
  · simp only [List.forall_mem_cons]
    exact ⟨fun _ => by decide, fun ho => absurd ho (by decide), fun ho => absurd ho (by decide),
      fun ho => absurd ho (by decide), List.forall_mem_nil _⟩
  · simp [port]
  · exact Assignment.applyTo_and_of_le_mask (by decide) x

/-- What a port has done that does not come to rest: it was switched off, with one change of its
control word, and looked at. -/
def Stuck (A : List (Access Board)) : Prop :=
  ∃ (v : UInt32) (looks : List UInt32), A = looked Uart0Block.cr v ::
      wrote Uart0Block.cr (v &&& ~~~1) :: looks.map (looked Uart0Block.fr) ∧
    ∀ w ∈ looks, Uart0Fr.busy.isSet w = true

theorem configure_stuck {e : Error}
    (hT : (configure budget bitrate limit).Runs T (.ended (.error e))) :
    e = .timeout ∧ Stuck T.accesses := by
  rw [configure_eq] at hT
  obtain ⟨rfl, U, looks, hU, hA, hlooks⟩ := runs_within_wait_error (succeeds_modify _ _).certain
    (reprogram_certain bitrate) (asks_not_isSet _ _) hT
  obtain ⟨⟨v, hv⟩, -⟩ :=
    Update.runs_program (u := .modify Uart0Block.cr Uart0Cr.uarten.clear) hU
  refine ⟨rfl, v, looks, ?_, ?_⟩
  · rw [hA, hv, ← uarten_clear_applyTo]
    rfl
  · intro w hw
    simpa using hlooks w hw

/-! ### With the reference clock -/

/-- Asks the firmware to have the reference clock run. -/
def stateRequest : Message Property := .new { data := [Clock.uart.number, 1] }

/-- Asks it for the rate of the clock. -/
def rateRequest : Message Property := .new { data := [Clock.uart.number, referenceClock, 0] }

/-- The first call. -/
def startClock (budget : Budget) : Driver (Message Property) :=
  MailboxPort.drive (Mailbox.query budget .setClockState stateRequest)

/-- The second one. -/
def rateClock (budget : Budget) : Driver (Message Property) :=
  MailboxPort.drive (Mailbox.query budget .setClockRate rateRequest)

/-- The words of the second message. -/
def rateWords : List UInt32 := (Mailbox.requestFor .setClockRate rateRequest).words

theorem init_eq : init budget bitrate =
    startClock budget >>= fun _ => rateClock budget >>= fun _ => configure budget bitrate := by
  have hcalls : MailboxPort.drive (Mailbox.setClockRate budget .uart referenceClock) =
      startClock budget >>= fun _ => rateClock budget >>= fun _ => pure () := by
    simp only [Mailbox.setClockRate, MailboxPort.drive, lower_bind]
    rfl
  simp only [init, hcalls, bind_assoc, pure_bind]

/-- Neither the port nor the pins are accessed. -/
def Apart (A : List (Access Board)) : Prop := Avoids Layout.uart0 A ∧ Avoids Layout.gpio A

theorem apart_of_keepsToMailbox {messages : List UInt32 → Prop} {A : List (Access Board)}
    (h : ∀ a ∈ A, Mailbox.KeepsToMailbox messages a) : Apart A :=
  ⟨avoids_of_contains (fun a ha => (h a ha).place) (by decide),
    avoids_of_contains (fun a ha => (h a ha).place) (by decide)⟩

theorem startClock_leaves (budget : Budget) : (startClock budget).Leaves fun A => ∀ a ∈ A,
    Mailbox.KeepsToMailbox (· = (Mailbox.requestFor .setClockState stateRequest).words) a :=
  Mailbox.drive_leaves (Mailbox.query_leaves budget _ _)

theorem rateClock_leaves (budget : Budget) :
    (rateClock budget).Leaves fun A => ∀ a ∈ A, Mailbox.KeepsToMailbox (· = rateWords) a :=
  Mailbox.drive_leaves (Mailbox.query_leaves budget _ _)

theorem Apart.append {A B : List (Access Board)} (hA : Apart A) (hB : Apart B) : Apart (A ++ B) :=
  ⟨(additive_avoids _).append hA.1 hB.1, (additive_avoids _).append hA.2 hB.2⟩

/-- How a set-up with the reference clock can fail, and what it has done then. -/
inductive Failure (budget : Budget) (bitrate : UInt32) (limit : Nat) :
    Error → List (Access Board) → Prop where
  /-- The clock could not be started: its rate is not asked for. -/
  | start {e : Error} {T : Transcript Board}
    (hrun : (startClock budget limit).Runs T (.ended (.error e)))
    (hapart : Apart T.accesses) (hposts : ∀ word, posted word rateWords ∉ T.accesses) :
    Failure budget bitrate limit e T.accesses
  /-- The clock runs, its rate could not be set. -/
  | rate {e : Error} {left : Message Property} {T U : Transcript Board}
    (hstart : (startClock budget limit).Runs T (.ended (.ok left)))
    (hrun : (rateClock budget limit).Runs U (.ended (.error e)))
    (hapart : Apart (T.accesses ++ U.accesses)) :
    Failure budget bitrate limit e (T.accesses ++ U.accesses)
  /-- The firmware did what it was asked, and the port did not come to rest. -/
  | port {left left' : Message Property} {T U V : Transcript Board}
    (hstart : (startClock budget limit).Runs T (.ended (.ok left)))
    (hrate : (rateClock budget limit).Runs U (.ended (.ok left')))
    (hrun : (configure budget bitrate limit).Runs V (.ended (.error .timeout)))
    (hapart : Apart (T.accesses ++ U.accesses)) (hstuck : Stuck V.accesses) :
    Failure budget bitrate limit .timeout (T.accesses ++ U.accesses ++ V.accesses)

theorem init_fails {e : Error} (hT : (init budget bitrate limit).Runs T (.ended (.error e))) :
    Failure budget bitrate limit e T.accesses := by
  rw [init_eq] at hT
  rcases Tree.runs_bind.1 hT with ⟨U, V, left, rfl, hU, hV⟩ | ⟨s, hU, hs⟩
  · have hstart := apart_of_keepsToMailbox (startClock_leaves budget hU)
    rw [Transcript.accesses_append]
    rcases Tree.runs_bind.1 hV with ⟨W, X, left', rfl, hW, hX⟩ | ⟨s, hW, hs⟩
    · have hrate := apart_of_keepsToMailbox (rateClock_leaves budget hW)
      obtain ⟨rfl, hstuck⟩ := configure_stuck hX
      rw [Transcript.accesses_append, ← List.append_assoc]
      exact .port hU hW hX (hstart.append hrate) hstuck
    · have hrate := apart_of_keepsToMailbox (rateClock_leaves budget hW)
      obtain rfl := s.eq_error_of_early? hs
      exact .rate hU hW (hstart.append hrate)
  · have hkeeps := startClock_leaves budget hU
    obtain rfl := s.eq_error_of_early? hs
    refine .start hU (apart_of_keepsToMailbox hkeeps) ?_
    intro word hmem
    exact absurd ((hkeeps _ hmem).posts word rateWords rfl) (by decide)

theorem init_enables (hT : (init budget bitrate limit).Runs T (.ended (.ok ()))) :
    port.Enabled T.accesses := by
  rw [init_eq] at hT
  obtain ⟨U, V, _, rfl, hU, hV⟩ := Tree.runs_bind_ok.1 hT
  obtain ⟨W, X, _, rfl, hW, hX⟩ := Tree.runs_bind_ok.1 hV
  have hU := (apart_of_keepsToMailbox (startClock_leaves budget hU)).1
  have hW := (apart_of_keepsToMailbox (rateClock_leaves budget hW)).1
  rw [Transcript.accesses_append, Transcript.accesses_append]
  apply Port.Enabled.prepend _ (hU.not_wrote (by decide))
  exact (configure_enables hX).prepend (hW.not_wrote (by decide))

end Uart0

/-! ## The mini UART -/

namespace Uart1

variable {budget : Budget} {bitrate : UInt32} {limit : Nat} {T : Transcript Board}

def port : Port where
  control := Uart1Block.cntl
  enable := (MuCntl.txEnable.set + MuCntl.rxEnable.set).mask
  programmed := [Uart1Block.ier, Uart1Block.lcr, Uart1Block.baud, Uart1Block.iir]
  status := Uart1Block.stat
  atRest := MuStat.rxIdle.isSet

/-- The pins and the bits of the port in the shared registers. -/
def attach : Driver Unit := do
  pins.forM fun pin => do
    Gpio.setPull pin .off
    Gpio.configure pin .alt5
  AuxBlock.irq.modify AuxDevices.miniUart.clear
  AuxBlock.enables.modify AuxDevices.miniUart.set

/-- What is done once the port is at rest. -/
def reprogram (bitrate : UInt32) : Driver Unit := do
  Uart1Block.ier.set 0
  Uart1Block.lcr.write (MuLcr.dataSize.val 3)
  Uart1Block.baud.write (MuBaud.baud.val (← ofFaulty (baudDivisor bitrate)))
  Uart1Block.iir.write (MuIir.fifo.val 3)
  Uart1Block.cntl.modify (MuCntl.txEnable.set + MuCntl.rxEnable.set)

theorem init_eq : init budget bitrate =
    within budget ((attach >>= fun _ => Uart1Block.cntl.set 0) >>= fun _ =>
      waitUntil (Uart1Block.stat.isSet MuStat.rxIdle) >>= fun _ => reprogram bitrate) := by
  simp only [init, attach, bind_assoc]
  rfl

theorem pins_lt : ∀ pin ∈ pins, pin.toNat < pinCount := fun pin h => (pins_owned pin h).1

theorem attach_succeeds : attach.Succeeds := by
  apply (succeeds_attachAll pins_lt _).bind
  intro _
  apply (succeeds_modify _ _).bind
  intro _
  exact succeeds_modify _ _

theorem reprogram_certain (bitrate : UInt32) : (reprogram bitrate).Certain := by
  apply (succeeds_set _ _).certain.bind
  intro _
  apply (succeeds_set _ _).certain.bind
  intro _
  apply (certain_ofFaulty _).bind
  intro _
  apply (succeeds_set _ _).certain.bind
  intro _
  apply (succeeds_set _ _).certain.bind
  intro _
  exact (succeeds_modify _ _).certain

theorem attach_avoids : attach.Leaves (Avoids Layout.uart1) := by
  have hP := additive_avoids Layout.uart1
  have hmodify {r : Register} (h : ¬ Layout.uart1.Contains r.offset) (a : Assignment) :
      (r.modify a).Leaves (Avoids Layout.uart1) := by
    have hstep {b : Access Board} (hb : place? b = some r.offset) :
        ∀ o, place? b = some o → ¬ Layout.uart1.Contains o := by
      intro o ho
      cases hb.symm.trans ho
      exact h
    exact Update.leaves_program (u := .modify r a) (P := Avoids Layout.uart1) fun v =>
      List.forall_mem_cons.2 ⟨hstep rfl, List.forall_mem_singleton.2 (hstep rfl)⟩
  apply hP.bind ((Gpio.attachAll_leaves pins_lt _).imp fun A h => h.avoids (by decide))
  intro _
  apply hP.bind (hmodify (by decide) _)
  intro _
  exact hmodify (by decide) _

theorem runs_switchOff (hT : ((attach >>= fun _ => Uart1Block.cntl.set 0) limit).Runs T
      (.ended (.ok ()))) :
    ∃ A, Avoids Layout.uart1 A ∧ T.accesses = A ++ [wrote Uart1Block.cntl 0] := by
  obtain ⟨U, V, _, rfl, hU, hV⟩ := Tree.runs_bind_ok.1 hT
  obtain ⟨⟨_, hcntl⟩, -⟩ := Update.runs_program (u := .set Uart1Block.cntl 0) hV
  exact ⟨U.accesses, attach_avoids hU, by rw [Transcript.accesses_append, hcntl]; rfl⟩

theorem runs_reprogram_ok (hT : (reprogram bitrate limit).Runs T (.ended (.ok ()))) :
    ∃ b v : UInt32, baudDivisor bitrate = .ok b ∧ T.accesses =
      [(Uart1Block.ier, 0), (Uart1Block.lcr, (MuLcr.dataSize.val 3).value),
        (Uart1Block.baud, (MuBaud.baud.val b).value),
        (Uart1Block.iir, (MuIir.fifo.val 3).value)].map (fun u => wrote u.1 u.2) ++
      [looked Uart1Block.cntl v,
        wrote Uart1Block.cntl ((MuCntl.txEnable.set + MuCntl.rxEnable.set).applyTo v)] := by
  obtain ⟨_, U, hier, hU⟩ := Update.runs_program_bind (u := .set Uart1Block.ier 0) hT
  obtain ⟨_, V, hlcr, hV⟩ :=
    Update.runs_program_bind (u := .set Uart1Block.lcr (MuLcr.dataSize.val 3).value) hU
  obtain ⟨b, hb, hV⟩ := runs_ofFaulty_bind_ok hV
  obtain ⟨_, W, hbaud, hW⟩ :=
    Update.runs_program_bind (u := .set Uart1Block.baud (MuBaud.baud.val b).value) hV
  obtain ⟨_, X, hiir, hX⟩ :=
    Update.runs_program_bind (u := .set Uart1Block.iir (MuIir.fifo.val 3).value) hW
  obtain ⟨⟨v, hv⟩, -⟩ := Update.runs_program
    (u := .modify Uart1Block.cntl (MuCntl.txEnable.set + MuCntl.rxEnable.set)) hX
  refine ⟨b, v, hb, ?_⟩
  rw [hier, hlcr, hbaud, hiir, hv]
  rfl

theorem init_enables (hT : (init budget bitrate limit).Runs T (.ended (.ok ()))) :
    port.Enabled T.accesses := by
  rw [init_eq] at hT
  obtain ⟨U, looks, w, V, hU, hw, hV, hA⟩ := runs_within_wait_ok (asks_isSet _ _) hT
  obtain ⟨F, hF, hoff⟩ := runs_switchOff hU
  obtain ⟨b, x, -, hrest⟩ := runs_reprogram_ok hV
  rw [hA, hoff, hrest]
  refine Port.enabled_of_parts (p := port) ?_ hw ?_ ?_ ?_ (List.forall_mem_nil _) (by decide)
    (by decide)
  · intro u hu
    rcases List.mem_append.1 hu with hu | hu
    · exact absurd hu (hF.not_wrote (by decide) u)
    · obtain ⟨-, rfl⟩ := offset_eq_of_wrote (List.mem_singleton.1 hu)
      decide
  · simp only [List.forall_mem_cons]
    exact ⟨fun ho => absurd ho (by decide), fun ho => absurd ho (by decide),
      fun ho => absurd ho (by decide), fun ho => absurd ho (by decide), List.forall_mem_nil _⟩
  · simp [port]
  · exact Assignment.applyTo_and_of_le_mask (by decide) x

/-- What a port has done that does not come to rest: it was switched off, and not programmed. -/
structure Stuck (A : List (Access Board)) : Prop where
  off : wrote Uart1Block.cntl 0 ∈ A
  only_off : ∀ w, wrote Uart1Block.cntl w ∈ A → w = 0
  unprogrammed : ∀ r ∈ [Uart1Block.ier, Uart1Block.lcr, Uart1Block.baud, Uart1Block.iir],
    ∀ w, wrote r w ∉ A
  restless : ∀ w, looked Uart1Block.stat w ∈ A → MuStat.rxIdle.isSet w = false

theorem init_stuck {e : Error} (hT : (init budget bitrate limit).Runs T (.ended (.error e))) :
    e = .timeout ∧ Stuck T.accesses := by
  rw [init_eq] at hT
  obtain ⟨rfl, U, looks, hU, hA, hlooks⟩ := runs_within_wait_error
    (attach_succeeds.bind fun _ => succeeds_set _ _).certain (reprogram_certain bitrate)
    (asks_isSet _ _) hT
  obtain ⟨F, hF, hoff⟩ := runs_switchOff hU
  rw [hA, hoff]
  have hwrote {r : Register} {w : UInt32} (hr : Layout.uart1.Contains r.offset)
      (h : wrote r w ∈ F ++ [wrote Uart1Block.cntl 0] ++ looks.map (looked Uart1Block.stat)) :
      r.offset = Uart1Block.cntl.offset ∧ w = 0 := by
    rcases List.mem_append.1 h with h | h
    · rcases List.mem_append.1 h with h | h
      · exact absurd h (hF.not_wrote hr w)
      · exact offset_eq_of_wrote (List.mem_singleton.1 h)
    · obtain ⟨_, -, hlook⟩ := List.mem_map.1 h
      exact absurd hlook looked_ne_wrote
  refine ⟨rfl, by simp, ?_, ?_, ?_⟩
  · intro w hw
    exact (hwrote (by decide) hw).2
  · simp only [List.forall_mem_cons]
    exact ⟨fun w hw => absurd (hwrote (by decide) hw).1 (by decide),
      fun w hw => absurd (hwrote (by decide) hw).1 (by decide),
      fun w hw => absurd (hwrote (by decide) hw).1 (by decide),
      fun w hw => absurd (hwrote (by decide) hw).1 (by decide), List.forall_mem_nil _⟩
  · intro w hw
    rcases List.mem_append.1 hw with hw | hw
    · rcases List.mem_append.1 hw with hw | hw
      · exact absurd hw (hF.not_looked (by decide) w)
      · exact absurd (List.mem_singleton.1 hw) looked_ne_wrote
    · obtain ⟨v, hv, hlook⟩ := List.mem_map.1 hw
      injection hlook with _ hlook
      exact hlook ▸ hlooks v hv

end Uart1

/-- A set-up that fails leaves the port off and as it was programmed before; one that succeeds
switches it on when it is programmed and at rest, and not before. -/
theorem failed_set_up_leaves_port_off (budget : Budget) (bitrate : UInt32) (limit : Nat)
    (T : Transcript Board) :
    (∀ e, (Uart0.configure budget bitrate limit).Runs T (.ended (.error e)) →
      e = .timeout ∧ Uart0.Stuck T.accesses) ∧
    (∀ e, (Uart0.init budget bitrate limit).Runs T (.ended (.error e)) →
      Uart0.Failure budget bitrate limit e T.accesses) ∧
    (∀ e, (Uart1.init budget bitrate limit).Runs T (.ended (.error e)) →
      e = .timeout ∧ Uart1.Stuck T.accesses) ∧
    ((Uart0.configure budget bitrate limit).Runs T (.ended (.ok ())) →
      Uart0.port.Enabled T.accesses) ∧
    ((Uart0.init budget bitrate limit).Runs T (.ended (.ok ())) → Uart0.port.Enabled T.accesses) ∧
    ((Uart1.init budget bitrate limit).Runs T (.ended (.ok ())) →
      Uart1.port.Enabled T.accesses) := by
  refine ⟨?_, ?_, ?_, ?_, ?_, ?_⟩
  · exact fun e hT => Uart0.configure_stuck hT
  · exact fun e hT => Uart0.init_fails hT
  · exact fun e hT => Uart1.init_stuck hT
  · exact Uart0.configure_enables
  · exact Uart0.init_enables
  · exact Uart1.init_enables

/-- Registers that hold one word everywhere: with 8 the full UART is busy and the firmware echoes
what it gets, with 0 it does not; with 4 the receiver of the mini UART is idle. -/
theorem failed_set_up_leaves_port_off_hardware :
    Uart0.Stuck ((Uart0.configure (.bounded 2) 115200).record
      (Contents.hardware fun _ => 8) 4).transcript.accesses ∧
    Uart0.Failure (.bounded 2) 115200 4 .timeout ((Uart0.init (.bounded 2) 115200).record
      (Contents.hardware fun _ => 8) 4).transcript.accesses ∧
    Uart0.Failure (.bounded 2) 115200 4 .timeout ((Uart0.init (.bounded 2) 115200).record
      (Contents.hardware fun _ => 0) 4).transcript.accesses ∧
    Uart1.Stuck ((Uart1.init (.bounded 2) 115200).record
      (Contents.hardware fun _ => 8) 4).transcript.accesses ∧
    Uart0.port.Enabled ((Uart0.configure (.bounded 2) 115200).record
      (Contents.hardware fun _ => 0) 4).transcript.accesses ∧
    Uart1.port.Enabled ((Uart1.init (.bounded 2) 115200).record
      (Contents.hardware fun _ => 4) 4).transcript.accesses := by
  have hrun {p : Driver Unit} {m : Contents} {o : Outcome Unit}
      (h : (p.record m.hardware 4).outcome = o) :
      (p 4).Runs (p.record m.hardware 4).transcript (.ended o) :=
    h ▸ Tree.runs_record m.hardware (p 4) []
  have hport (T : Transcript Board) := failed_set_up_leaves_port_off (.bounded 2) 115200 4 T
  refine ⟨?_, ?_, ?_, ?_, ?_, ?_⟩
  · exact ((hport _).1 .timeout (hrun (by decide +kernel))).2
  · exact (hport _).2.1 .timeout (hrun (by decide +kernel))
  · exact (hport _).2.1 .timeout (hrun (by decide +kernel))
  · exact ((hport _).2.2.1 .timeout (hrun (by decide +kernel))).2
  · exact (hport _).2.2.2.1 (hrun (by decide +kernel))
  · exact (hport _).2.2.2.2.2 (hrun (by decide +kernel))

end Bcm2835
