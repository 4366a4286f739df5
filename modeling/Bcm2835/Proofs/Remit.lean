import Bcm2835.Spi0
import Bcm2835.Uart0
import Bcm2835.Uart1
import Bcm2835.Proofs.Gpio.Session
import Bcm2835.Proofs.SpiSlave.Attachment

/-! What a driver may touch when it sets itself up, its remit: its own blocks and the one of the
pins, the function fields of its own pins, and some bits of registers that it shares with other
drivers. Keeping to a remit is closed under everything a program is put together from
(`Remit.additive_kept`), so that a set-up is gone through step by step. -/

namespace Bcm2835

open Program Board Gpio Register

/-- A write to the register is right behind a look at it, and changes these bits only. -/
def Adjusts (r : Register) (bits : UInt32) (P : List (Access Board)) (a : Access Board)
    (_Q : List (Access Board)) : Prop :=
  ∀ w, a = wrote r w → ∃ P' v, P = P' ++ [looked r v] ∧ w &&& ~~~bits = v &&& ~~~bits

theorem lasting_adjusts (r : Register) (bits : UInt32) : Lasting (Adjusts r bits) := by
  intro X P a Q Y h w ha
  obtain ⟨P', v, rfl, hv⟩ := h w ha
  exact ⟨X ++ P', v, by rw [List.append_assoc], hv⟩

/-- The control and the divisor word of a generator. -/
def ClockGenerator.entry (c : ClockGenerator) : Region := ⟨c.name, UInt64.ofNat c.control.offset, 8⟩

namespace Gpio

/-- The accesses are all to the block of the pins. -/
def AmongPins (A : List (Access Board)) : Prop :=
  ∀ a ∈ A, ∃ o, place? a = some o ∧ Layout.gpio.Contains o

theorem contains_fsel (pin : Pin) : Layout.gpio.Contains (GpioBlock.fsel.slot (pin / 10)) :=
  have hlt : pin.val < 10 * 6 := Nat.lt_trans pin.isLt (by decide)
  GpioBlock.block.contains_slot (by decide) (Nat.div_lt_of_lt_mul hlt)

theorem contains_pudclk (pin : Pin) : Layout.gpio.Contains (GpioBlock.pudclk.slot (pin / 32)) :=
  have hlt : pin.val < 32 * 2 := Nat.lt_trans pin.isLt (by decide)
  GpioBlock.block.contains_slot (by decide) (Nat.div_lt_of_lt_mul hlt)

theorem amongPins_setting (pin : Pin) (f : PinFunction) (v : UInt32) :
    AmongPins (setting pin f v) :=
  List.forall_mem_cons.2 ⟨⟨_, rfl, contains_fsel pin⟩,
    List.forall_mem_singleton.2 ⟨_, rfl, contains_fsel pin⟩⟩

/-- A pull only writes, to the pull and to the clock bits of the bank of the pin. -/
theorem exists_of_mem_pulse {pin : Pin} {pull : Pull} {a : Access Board} (h : a ∈ pulse pin pull) :
    ∃ o w, a = wroteAt o w ∧
      (o = GpioBlock.pud.offset ∨ o = GpioBlock.pudclk.slot (pin / 32)) := by
  suffices H : ∀ a ∈ pulse pin pull, ∃ o w, a = wroteAt o w ∧
      (o = GpioBlock.pud.offset ∨ o = GpioBlock.pudclk.slot (pin / 32)) from H a h
  simp only [pulse, List.forall_mem_cons]
  exact ⟨⟨_, _, rfl, .inl rfl⟩, ⟨_, _, rfl, .inr rfl⟩, ⟨_, _, rfl, .inl rfl⟩,
    ⟨_, _, rfl, .inr rfl⟩, List.forall_mem_nil _⟩

theorem amongPins_pulse (pin : Pin) (pull : Pull) : AmongPins (pulse pin pull) := by
  intro a ha
  obtain ⟨o, w, rfl, rfl | rfl⟩ := exists_of_mem_pulse ha
  · exact ⟨_, rfl, by decide⟩
  · exact ⟨_, rfl, contains_pudclk pin⟩

theorem not_setsFunction_of_mem_pulse (pin : Pin) (pull : Pull) :
    ∀ a ∈ pulse pin pull, ¬ SetsFunction a := by
  intro a ha
  obtain ⟨o, w, rfl, rfl | rfl⟩ := exists_of_mem_pulse ha
  · exact not_setsFunction_wroteAt (by decide)
  · apply not_setsFunction_wroteAt
    intro hword
    have hbelow : GpioBlock.fsel.offset + GpioBlock.fsel.extent ≤ GpioBlock.pudclk.offset := by
      decide
    exact absurd (Nat.lt_of_lt_of_le hword.2 hbelow) (Nat.not_lt.2 (Nat.le_add_right ..))

end Gpio

/-- What a driver may touch when it sets itself up. -/
structure Remit where
  /-- Its blocks, beside the one of the pins. -/
  blocks : List Region
  /-- Registers of which it may change some bits only. -/
  shared : List (Register × UInt32) := []
  pins : List Nat
  /-- It may look at the system timer. -/
  waits : Bool := false
  apart : ∀ x ∈ shared, ¬ Layout.gpio.Contains x.1.offset := by decide

namespace Remit

variable (R : Remit)

def Contains (o : Nat) : Prop := ∃ g ∈ Layout.gpio :: R.blocks, g.Contains o

instance (o : Nat) : Decidable (R.Contains o) :=
  inferInstanceAs (Decidable (∃ g ∈ Layout.gpio :: R.blocks, g.Contains o))

/-- The accesses keep to the remit. -/
structure Kept (A : List (Access Board)) : Prop where
  inside : ∀ a ∈ A, R.waits = true ∧ Timing a ∨ ∃ o, place? a = some o ∧ R.Contains o
  adjusted : ∀ x ∈ R.shared, Everywhere (Adjusts x.1 x.2) A
  /-- On function words that read as what they hold, the other pins have the functions they had. -/
  functions : ∀ m : Contents, m.Keeps FunctionWord A → ∀ q : Pin, q.val ∉ R.pins →
    function (m.after A) q = function m q
  spare : ∀ m : Contents, m.Keeps FunctionWord A → ∀ i j, Spare i j →
    (m.after A (GpioBlock.fsel.slot i)).toNat.testBit j =
      (m (GpioBlock.fsel.slot i)).toNat.testBit j

variable {R} {A B : List (Access Board)}

theorem additive_kept : Additive R.Kept where
  nil := ⟨List.forall_mem_nil _, fun _ _ => everywhere_nil, fun _ _ _ _ => rfl,
    fun _ _ _ _ _ => rfl⟩
  append {A B} hA hB := by
    refine ⟨List.forall_mem_append.2 ⟨hA.inside, hB.inside⟩, ?_, ?_, ?_⟩
    · intro x hx
      exact (hA.adjusted x hx).append (lasting_adjusts x.1 x.2) (hB.adjusted x hx)
    · intro m hm q hq
      obtain ⟨hmA, hmB⟩ := Contents.keeps_append.1 hm
      rw [Contents.after_append, hB.functions _ hmB q hq, hA.functions m hmA q hq]
    · intro m hm i j hs
      obtain ⟨hmA, hmB⟩ := Contents.keeps_append.1 hm
      rw [Contents.after_append, hB.spare _ hmB i j hs, hA.spare m hmA i j hs]

/-! ## Steps that no function word is written in -/

theorem kept_of_quiet
    (hinside : ∀ a ∈ A, R.waits = true ∧ Timing a ∨ ∃ o, place? a = some o ∧ R.Contains o)
    (hadjusted : ∀ x ∈ R.shared, Everywhere (Adjusts x.1 x.2) A)
    (hquiet : ∀ a ∈ A, ¬ SetsFunction a) : R.Kept A where
  inside := hinside
  adjusted := hadjusted
  functions m _ q _ := function_of_quiet hquiet q
  spare m _ i j hs := by rw [after_of_quiet hquiet hs.functionWord]

/-- Where nothing is written, no register is adjusted. -/
theorem adjusts_of_unwritten {r : Register} {bits : UInt32} (h : ∀ a ∈ A, written? a = none) :
    Everywhere (Adjusts r bits) A := by
  apply Everywhere.of_forall_mem
  intro a ha P Q w hw
  have hnone := h a ha
  rw [hw] at hnone
  cases hnone

theorem kept_of_unwritten
    (hinside : ∀ a ∈ A, R.waits = true ∧ Timing a ∨ ∃ o, place? a = some o ∧ R.Contains o)
    (h : ∀ a ∈ A, written? a = none) : R.Kept A := by
  refine kept_of_quiet hinside (fun x _ => adjusts_of_unwritten h) ?_
  intro a ha ⟨o, w, hw, _⟩
  cases (h a ha).symm.trans hw

theorem kept_looked {r : Register} (h : R.Contains r.offset) (v : UInt32) : R.Kept [looked r v] :=
  kept_of_unwritten (List.forall_mem_singleton.2 (.inr ⟨_, rfl, h⟩))
    (List.forall_mem_singleton.2 rfl)

theorem kept_timing (hR : R.waits = true) (h : ∀ a ∈ A, Timing a) : R.Kept A :=
  kept_of_unwritten (fun a ha => .inl ⟨hR, h a ha⟩) fun a ha => written?_of_timing (h a ha)

/-! ## Steps of a register program -/

variable {r : Register} {a : Assignment} {u : Update}

/-- The register is the driver's own. -/
def Owns (R : Remit) (r : Register) : Prop :=
  R.Contains r.offset ∧ ¬ FunctionWord r.offset ∧ ∀ x ∈ R.shared, x.1.offset ≠ r.offset

instance (R : Remit) (r : Register) : Decidable (R.Owns r) := inferInstanceAs (Decidable (_ ∧ _))

/-- The register may be changed so. -/
def Allows (R : Remit) (r : Register) (a : Assignment) : Prop :=
  R.Contains r.offset ∧ ¬ FunctionWord r.offset ∧ ∀ x ∈ R.shared, x.1.offset = r.offset →
    a.mask &&& ~~~x.2 = 0 ∧ a.value &&& ~~~x.2 = 0

instance (R : Remit) (r : Register) (a : Assignment) : Decidable (R.Allows r a) :=
  inferInstanceAs (Decidable (_ ∧ _))

theorem Owns.allows (h : R.Owns r) (a : Assignment) : R.Allows r a :=
  ⟨h.1, h.2.1, fun x hx ho => absurd ho (h.2.2 x hx)⟩

theorem kept_wrote (h : R.Owns r) (w : UInt32) : R.Kept [wrote r w] := by
  obtain ⟨hplace, hword, hshared⟩ := h
  apply kept_of_quiet
  · exact List.forall_mem_singleton.2 (.inr ⟨_, rfl, hplace⟩)
  · intro x hx
    refine everywhere_cons.2 ⟨?_, everywhere_nil⟩
    intro v hv
    exact absurd (offset_eq_of_wrote hv).1.symm (hshared x hx)
  · exact List.forall_mem_singleton.2 (not_setsFunction_wroteAt hword)

theorem kept_modified (h : R.Allows r a) (v : UInt32) :
    R.Kept [looked r v, wrote r (a.applyTo v)] := by
  obtain ⟨hplace, hword, hshared⟩ := h
  have hlooked := kept_looked hplace v
  apply kept_of_quiet
  · exact List.forall_mem_cons.2 ⟨hlooked.inside _ (List.mem_singleton.2 rfl),
      List.forall_mem_singleton.2 (.inr ⟨_, rfl, hplace⟩)⟩
  · intro x hx
    refine everywhere_cons.2 ⟨fun w hw => absurd hw looked_ne_wrote,
      everywhere_cons.2 ⟨?_, everywhere_nil⟩⟩
    intro w hw
    obtain ⟨ho, rfl⟩ := offset_eq_of_wrote hw
    obtain ⟨hmask, hvalue⟩ := hshared x hx ho.symm
    exact ⟨[], v, congrArg (fun o => [lookedAt o v]) ho, Assignment.applyTo_and hmask hvalue v⟩
  · refine List.forall_mem_cons.2 ⟨?_, List.forall_mem_singleton.2 (not_setsFunction_wroteAt hword)⟩
    intro ⟨o, w, hw, _⟩
    cases hw

theorem kept_set (h : R.Owns r) (w : UInt32) : (r.set w).Leaves R.Kept :=
  Update.leaves_program (u := .set r w) fun _ => kept_wrote h w

theorem kept_modify (h : R.Allows r a) : (r.modify a).Leaves R.Kept :=
  Update.leaves_program (u := .modify r a) (kept_modified h)

theorem kept_write (h : R.Owns r) (a : Assignment) : (r.write a).Leaves R.Kept :=
  kept_set h a.value

theorem kept_updates {us : List Update} (h : ∀ u ∈ us, R.Owns u.register) :
    (us.forM Update.program).Leaves R.Kept := by
  apply additive_kept.forM
  intro u hu
  cases u with
  | set r w => exact kept_set (h _ hu) w
  | modify r a => exact kept_modify ((h _ hu).allows a)

theorem kept_isSet (f : Field) (h : R.Contains r.offset) : (r.isSet f).Leaves R.Kept :=
  leaves_isSet r f (kept_looked h)

/-! ## Pins -/

theorem inside_of_amongPins (h : AmongPins A) :
    ∀ a ∈ A, R.waits = true ∧ Timing a ∨ ∃ o, place? a = some o ∧ R.Contains o := by
  intro a ha
  obtain ⟨o, ho, hplace⟩ := h a ha
  exact .inr ⟨o, ho, Layout.gpio, List.mem_cons_self, hplace⟩

/-- Shared registers are none of the pins'. -/
theorem adjusted_of_amongPins (h : AmongPins A) :
    ∀ x ∈ R.shared, Everywhere (Adjusts x.1 x.2) A := by
  intro x hx
  apply Everywhere.of_forall_mem
  intro a ha P Q w hw
  obtain ⟨o, ho, hplace⟩ := h a ha
  rw [hw] at ho
  cases ho
  exact absurd hplace (R.apart x hx)

theorem kept_configure {pin : UInt8} (h : pin.toNat < pinCount) (hmem : pin.toNat ∈ R.pins)
    (f : PinFunction) : (Gpio.configure pin f).Leaves R.Kept := by
  intro limit T s hT
  obtain ⟨-, v, hv⟩ := runs_configure h f hT
  have hamong := amongPins_setting ⟨pin.toNat, h⟩ f v
  rw [hv]
  refine ⟨inside_of_amongPins hamong, adjusted_of_amongPins hamong, ?_, ?_⟩
  · intro m hm q hq
    rw [after_setting hm]
    exact function_assign_of_ne m f fun heq => hq (heq ▸ hmem)
  · intro m hm i j hs
    rw [after_setting hm]
    exact spare_assign m _ f hs

theorem kept_setPull {pin : UInt8} (h : pin.toNat < pinCount) (pull : Pull) :
    (Gpio.setPull pin pull).Leaves R.Kept := by
  intro limit T s hT
  obtain ⟨hA, -⟩ := runs_setPull h hT
  have hamong := amongPins_pulse ⟨pin.toNat, h⟩ pull
  rw [hA]
  exact kept_of_quiet (inside_of_amongPins hamong) (adjusted_of_amongPins hamong)
    (not_setsFunction_of_mem_pulse _ pull)

variable {pins : List UInt8}

theorem kept_configureAll (h : ∀ pin ∈ pins, pin.toNat < pinCount ∧ pin.toNat ∈ R.pins)
    (f : PinFunction) : (pins.forM fun pin => Gpio.configure pin f).Leaves R.Kept :=
  additive_kept.forM fun pin hpin => kept_configure (h pin hpin).1 (h pin hpin).2 f

/-- Each pin gives up its pull and is given a function. -/
theorem kept_attachAll (h : ∀ pin ∈ pins, pin.toNat < pinCount ∧ pin.toNat ∈ R.pins)
    (f : PinFunction) : (pins.forM fun pin => do
      Gpio.setPull pin .off
      Gpio.configure pin f).Leaves R.Kept := by
  apply additive_kept.forM
  intro pin hpin
  obtain ⟨hlt, hmem⟩ := h pin hpin
  apply additive_kept.bind (kept_setPull hlt .off)
  intro _
  exact kept_configure hlt hmem f

end Remit

/-! ## The drivers -/

namespace Uart0

def remit : Remit := { blocks := [Layout.uart0], pins := [14, 15] }

theorem pins_owned : ∀ pin ∈ pins, pin.toNat < pinCount ∧ pin.toNat ∈ remit.pins := by
  simp [pins, remit, pinCount]

theorem configure_kept (budget : Budget) (bitrate : UInt32) :
    (configure budget bitrate).Leaves remit.Kept := by
  have hP := Remit.additive_kept (R := remit)
  apply Leaves.within
  apply hP.bind (Remit.kept_modify (by decide))
  intro _
  apply hP.bind (hP.waitUntil (hP.map _ (Remit.kept_isSet _ (by decide))))
  intro _
  apply hP.bind (Remit.kept_write (by decide) _)
  intro _
  apply hP.bind (Remit.kept_write (by decide) _)
  intro _
  apply hP.bind (hP.ofFaulty _)
  intro _
  apply hP.bind (Remit.kept_write (by decide) _)
  intro _
  apply hP.bind (hP.ofFaulty _)
  intro _
  apply hP.bind (Remit.kept_write (by decide) _)
  intro _
  apply hP.bind (Remit.kept_modify (by decide))
  intro _
  exact Remit.kept_attachAll pins_owned _

end Uart0

namespace Uart1

/-- The devices of the auxiliary block share its first two registers: the bit of this one is the
lowest. -/
def remit : Remit where
  blocks := [Layout.aux, Layout.uart1]
  shared := [(AuxBlock.irq, 1), (AuxBlock.enables, 1)]
  pins := [14, 15]

theorem pins_owned : ∀ pin ∈ pins, pin.toNat < pinCount ∧ pin.toNat ∈ remit.pins := by
  simp [pins, remit, pinCount]

theorem init_kept (budget : Budget) (bitrate : UInt32) :
    (init budget bitrate).Leaves remit.Kept := by
  have hP := Remit.additive_kept (R := remit)
  apply Leaves.within
  apply hP.bind (Remit.kept_attachAll pins_owned _)
  intro _
  apply hP.bind (Remit.kept_modify (by decide))
  intro _
  apply hP.bind (Remit.kept_modify (by decide))
  intro _
  apply hP.bind (Remit.kept_set (by decide) _)
  intro _
  apply hP.bind (hP.waitUntil (Remit.kept_isSet _ (by decide)))
  intro _
  apply hP.bind (Remit.kept_set (by decide) _)
  intro _
  apply hP.bind (Remit.kept_write (by decide) _)
  intro _
  apply hP.bind (hP.ofFaulty _)
  intro _
  apply hP.bind (Remit.kept_write (by decide) _)
  intro _
  apply hP.bind (Remit.kept_write (by decide) _)
  intro _
  exact Remit.kept_modify (by decide)

end Uart1

namespace Spi0

/-- Of its control word the set-up changes the clock mode, CPHA and CPOL. -/
def remit : Remit where
  blocks := [Layout.spi0]
  shared := [(Spi0Block.cs, 0xC)]
  pins := [7, 8, 9, 10, 11]

theorem pins_owned : ∀ pin ∈ pins, pin.toNat < pinCount ∧ pin.toNat ∈ remit.pins := by
  simp [pins, remit, pinCount]

theorem init_kept (speed : UInt32) : (init speed).Leaves remit.Kept := by
  have hP := Remit.additive_kept (R := remit)
  apply hP.bind (hP.ofFaulty _)
  intro _
  apply hP.bind (Remit.kept_write (by decide) _)
  intro _
  apply hP.bind (Remit.kept_modify (by decide))
  intro _
  exact Remit.kept_configureAll pins_owned _

end Spi0

namespace SpiSlave

def remit : Remit where
  blocks := [Layout.pcm, ClockGenerator.pcm.entry]
  pins := [28, 29, 30, 31]
  waits := true

theorem pins_owned : ∀ pin ∈ pins, pin.toNat < pinCount ∧ pin.toNat ∈ remit.pins := by
  simp [pins, remit, pinCount]

variable {pause : UInt32 → Driver Unit}

theorem prepare_kept (hpause : OnlyWaits pause) : (prepare pause).Leaves remit.Kept := by
  have hP := Remit.additive_kept (R := remit)
  have hsync : (PcmBlock.cs.isSet PcmCs.sync).Leaves remit.Kept := Remit.kept_isSet _ (by decide)
  apply hP.bind (hP.drain (Remit.kept_isSet _ (by decide))
    (hP.map _ (leaves_get _ (Remit.kept_looked (by decide)))))
  intro _
  apply hP.bind (Remit.kept_modify (by decide))
  intro _
  apply hP.bind ((hpause _).imp fun _ => Remit.kept_timing rfl)
  intro _
  apply hP.bind (Remit.kept_updates (by decide))
  intro _
  apply hP.bind (hP.waitUntil hsync)
  intro _
  apply hP.bind (Remit.kept_modify (by decide))
  intro _
  apply hP.bind (hP.waitUntil (hP.map _ hsync))
  intro _
  exact Remit.kept_modify (by decide)

theorem init_kept (budget : Budget) (hpause : OnlyWaits pause) :
    (init budget pause).Leaves remit.Kept := by
  have hP := Remit.additive_kept (R := remit)
  rw [init_eq]
  apply Leaves.within
  apply hP.bind (Remit.kept_configureAll pins_owned _)
  intro _
  apply hP.bind (prepare_kept hpause)
  intro _
  apply hP.bind (Remit.kept_write (by decide) _)
  intro _
  apply hP.bind (Remit.kept_configureAll pins_owned _)
  intro _
  apply hP.bind (Remit.kept_modify (by decide))
  intro _
  exact hP.report _

end SpiSlave

/-- A driver that sets itself up keeps to its remit, however that ends. -/
theorem set_up_keeps_to_remit (budget : Budget) (bitrate speed : UInt32)
    {pause : UInt32 → Driver Unit} (hpause : OnlyWaits pause) :
    (Uart0.configure budget bitrate).Leaves Uart0.remit.Kept ∧
      (Uart1.init budget bitrate).Leaves Uart1.remit.Kept ∧
      (Spi0.init speed).Leaves Spi0.remit.Kept ∧
      (SpiSlave.init budget pause).Leaves SpiSlave.remit.Kept :=
  ⟨Uart0.configure_kept budget bitrate, Uart1.init_kept budget bitrate, Spi0.init_kept speed,
    SpiSlave.init_kept budget hpause⟩

/-- The pin next to those of the interface keeps its function when the interface is attached, and
when there is always a byte to drain. -/
theorem set_up_keeps_to_remit_delay :
    (((SpiSlave.init (.bounded 1) SystemTimer.delay).record
        (Contents.hardware fun _ => 0xE00000) 2).outcome = .ok () ∧
      function (Contents.after (fun _ => 0xE00000) ((SpiSlave.init (.bounded 1)
        SystemTimer.delay).record (Contents.hardware fun _ => 0xE00000) 2).transcript.accesses) 27 =
          7) ∧
    ((SpiSlave.init (.bounded 1) SystemTimer.delay).record
      (Contents.hardware fun _ => 0xF00000) 2).outcome = .error .timeout ∧
    function (Contents.after (fun _ => 0xF00000) ((SpiSlave.init (.bounded 1)
      SystemTimer.delay).record (Contents.hardware fun _ => 0xF00000) 2).transcript.accesses) 27 =
        7 := by
  obtain ⟨-, -, -, hslave⟩ :=
    set_up_keeps_to_remit (.bounded 1) 9600 100000 SystemTimer.delay_onlyWaits
  have hneighbour (m : Contents) := (hslave (Tree.runs_record m.hardware
    (SpiSlave.init (.bounded 1) SystemTimer.delay 2) [])).functions m
    (Contents.keeps_record (by decide) m (SpiSlave.init (.bounded 1) SystemTimer.delay) 2)
    ⟨27, by decide⟩ (by decide)
  exact ⟨⟨by decide +kernel, (hneighbour _).trans (by decide)⟩, by decide +kernel,
    (hneighbour _).trans (by decide)⟩

end Bcm2835
