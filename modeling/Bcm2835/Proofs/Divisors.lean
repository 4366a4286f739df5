import Bcm2835.Proofs.UartSetUp

/-! The divisors that ports are set up with. Each comes from the rate that is asked for by divisions
that round down, and is cut to the width of its register. So the SPI master rounds a speed up to one
that it has (`Spi0.never_faster_iff`), the mini UART is programmed with its divisor from 477
baud on (`Uart1.programs_divisor_iff`), and the two registers of the full UART hold one divisor in
64ths (`Uart0.divisors_fit_together`). -/

namespace Bcm2835

open Program Board Gpio Register

/-! ## The SPI master -/

namespace Spi0

variable {speed d : UInt32} {limit : Nat} {T : Transcript Board}

/-- What a word in the clock register divides the core clock by. -/
def division (w : UInt32) : Nat := if w = 0 then 65536 else w.toNat

theorem toNat_max (v w : UInt32) : (max v w).toNat = max v.toNat w.toNat := by
  show (if v ≤ w then w else v).toNat = if v.toNat ≤ w.toNat then w.toNat else v.toNat
  exact apply_ite ..

/-- Where the slowest division is slow enough, the divisor is the quotient, or 2 if that is less. -/
theorem exists_clockDivisor (h : coreClock.toNat ≤ speed.toNat * 65536) :
    ∃ d, clockDivisor speed = .ok d ∧ d.toNat = max (coreClock.toNat / speed.toNat) 2 ∧
      d.toNat < 65536 := by
  have hcore : coreClock.toNat = 250000000 := rfl
  have hpos : 0 < speed.toNat := by omega
  have hzero : speed ≠ 0 := UInt32.pos_iff_ne_zero.1 hpos
  have hlt : coreClock.toNat / speed.toNat < 65536 := by
    -- the core clock is not a multiple of the slowest division
    rw [Nat.div_lt_iff_lt_mul hpos]
    omega
  have hle : ¬ 0xFFFF < coreClock / speed := by
    rw [UInt32.lt_iff_toNat_lt, UInt32.toNat_div]
    exact Nat.not_lt.2 (Nat.le_of_lt_succ hlt)
  have hd : (max (coreClock / speed) 2).toNat = max (coreClock.toNat / speed.toNat) 2 := by
    rw [toNat_max, UInt32.toNat_div]
    rfl
  refine ⟨max (coreClock / speed) 2, ?_, hd, by omega⟩
  rw [clockDivisor, Fault.quotient, if_neg hzero]
  show Except.ok (if 0xFFFF < coreClock / speed then 0 else max (coreClock / speed) 2) = _
  rw [if_neg hle]

theorem runs_init {s : Stop Unit} (hd : clockDivisor speed = .ok d)
    (hT : (init speed limit).Runs T s) :
    s = .ended (.ok ()) ∧ writes Spi0Block.clk T.accesses = [(Spi0Clk.cdiv.val d).value] := by
  have hpins : ∀ pin ∈ pins, pin.toNat < pinCount := fun pin h => (pins_owned pin h).1
  rw [init, hd] at hT
  obtain ⟨_, U, hclk, hU⟩ :=
    Update.runs_program_bind (u := .set Spi0Block.clk (Spi0Clk.cdiv.val d).value) hT
  obtain ⟨v, V, hcs, hV⟩ := Update.runs_program_bind
    (u := .modify Spi0Block.cs (Spi0Cs.cpol.clear + Spi0Cs.cpha.set)) hU
  obtain ⟨rfl, -⟩ := runs_configureAll hpins _ hV
  have hrest : writes Spi0Block.clk V.accesses = [] := by
    apply writes_eq_nil
    intro a ha hplace
    obtain ⟨o, ho, hword⟩ := configureAll_leaves hpins _ hV a ha
    cases hplace.symm.trans ho
    exact absurd hword (by decide)
  refine ⟨rfl, ?_⟩
  simp (disch := decide) [hclk, hcs, hrest, Update.accesses, writes_wrote_of_ne]

/-- A quotient is one too small for its divisor, unless there is no remainder. -/
theorem le_div_mul_iff (n s : Nat) : n ≤ n / s * s ↔ s ∣ n := by
  constructor
  · intro h
    exact Nat.dvd_iff_div_mul_eq n s |>.2 (Nat.le_antisymm (Nat.div_mul_le_self n s) h)
  · intro h
    exact Nat.le_of_eq (Nat.div_mul_cancel h).symm

theorem le_max_div_mul_iff {n s : Nat} (hs : 0 < s) :
    n ≤ max (n / s) 2 * s ↔ s ∣ n ∨ n < 2 * s := by
  rcases Nat.lt_or_ge n (2 * s) with h | h
  · have hmax : max (n / s) 2 = 2 :=
      Nat.max_eq_right (Nat.le_of_lt ((Nat.div_lt_iff_lt_mul hs).2 h))
    rw [hmax]
    exact ⟨fun _ => .inr h, fun _ => Nat.le_of_lt h⟩
  · have hmax : max (n / s) 2 = n / s := Nat.max_eq_left ((Nat.le_div_iff_mul_le hs).2 h)
    rw [hmax, le_div_mul_iff, or_iff_left (Nat.not_lt.2 h)]

/-- The divisor is the quotient, so the bus runs at the speed that is asked for or faster, by less
than one step of the divisor; only the fastest setting may be slower than what is asked for. It is
not faster if the speed divides the core clock or is more than half of it. -/
theorem never_faster_iff (speed : UInt32) (h : coreClock.toNat ≤ speed.toNat * 65536) :
    ∃ w, clockDivisor speed = .ok w ∧
      (∀ limit T s, (init speed limit).Runs T s →
        s = .ended (.ok ()) ∧ writes Spi0Block.clk T.accesses = [w]) ∧
      division w = max (coreClock.toNat / speed.toNat) 2 ∧
      coreClock.toNat < (division w + 1) * speed.toNat ∧
      (2 * speed.toNat ≤ coreClock.toNat → division w * speed.toNat ≤ coreClock.toNat) ∧
      (coreClock.toNat ≤ division w * speed.toNat ↔
        speed.toNat ∣ coreClock.toNat ∨ coreClock.toNat < 2 * speed.toNat) := by
  have hpos : 0 < speed.toNat :=
    Nat.pos_of_mul_pos_right (Nat.lt_of_lt_of_le (by decide) h)
  obtain ⟨d, hd, hquotient, hlt⟩ := exists_clockDivisor h
  have hword : (Spi0Clk.cdiv.val d).value = d := by
    apply UInt32.toNat_inj.1
    rw [Field.toNat_value_of_offset_zero rfl]
    exact Nat.mod_eq_of_lt hlt
  have hdivision : division d = max (coreClock.toNat / speed.toNat) 2 := by
    have hzero : d ≠ 0 := by
      rintro rfl
      exact absurd (hquotient ▸ Nat.le_max_right _ 2) (by decide)
    rw [division, if_neg hzero, hquotient]
  refine ⟨d, hd, ?_, hdivision, ?_, ?_, ?_⟩
  · intro limit T s hT
    exact hword ▸ runs_init hd hT
  · rw [hdivision]
    exact (Nat.div_lt_iff_lt_mul hpos).1 (Nat.lt_succ_of_le (Nat.le_max_left ..))
  · intro hfast
    rw [hdivision, Nat.max_eq_left ((Nat.le_div_iff_mul_le hpos).2 hfast)]
    exact Nat.div_mul_le_self ..
  · rw [hdivision]
    exact le_max_div_mul_iff hpos

theorem never_faster_at_one_megahertz :
    writes Spi0Block.clk ((init 1000000).record
      (Contents.hardware fun _ => 0) 0).transcript.accesses = [250] ∧
    coreClock.toNat ≤ division 250 * 1000000 := by
  obtain ⟨w, hw, hruns, -, -, -, hiff⟩ := never_faster_iff 1000000 (by decide)
  have hdivisor : clockDivisor 1000000 = .ok 250 := rfl
  cases hdivisor.symm.trans hw
  exact ⟨(hruns _ _ _ (Tree.runs_record _ _ [])).2, hiff.2 (.inl (by decide))⟩

theorem faster_at_three_megahertz :
    coreClock.toNat ≤ (3000000 : UInt32).toNat * 65536 ∧
    writes Spi0Block.clk ((init 3000000).record
      (Contents.hardware fun _ => 0) 0).transcript.accesses = [83] ∧
    division 83 * 3000000 < coreClock.toNat := by
  decide +kernel

end Spi0

/-! ## The mini UART -/

namespace Uart1

variable {budget : Budget} {bitrate d w : UInt32} {limit : Nat} {T : Transcript Board}

/-- What the baud register takes of the divisor. -/
def baudWord (bitrate : UInt32) : Except Fault UInt32 := do
  return (MuBaud.baud.val (← baudDivisor bitrate)).value

theorem writes_init (hT : (init budget bitrate limit).Runs T (.ended (.ok ()))) :
    ∃ w, baudWord bitrate = .ok w ∧ writes Uart1Block.baud T.accesses = [w] := by
  rw [init_eq] at hT
  obtain ⟨U, looks, v, V, hU, -, hV, hA⟩ := runs_within_wait_ok (asks_isSet _ _) hT
  obtain ⟨F, hF, hoff⟩ := runs_switchOff hU
  obtain ⟨d, x, hd, hrest⟩ := runs_reprogram_ok hV
  have hfront : writes Uart1Block.baud F = [] := hF.writes_eq_nil (by decide)
  have hwait : writes Uart1Block.baud (looks.map (looked Uart1Block.stat)) = [] :=
    writes_map_looked ..
  refine ⟨(MuBaud.baud.val d).value, by rw [baudWord, hd]; rfl, ?_⟩
  simp (disch := decide) [hA, hoff, hrest, hfront, hwait, writes_wrote_of_ne]

theorem exists_baudDivisor (h : bitrate ≠ 0) :
    ∃ d, baudDivisor bitrate = .ok d ∧ d.toNat = coreClock.toNat / 8 / bitrate.toNat - 1 := by
  have hunits : (coreClock / 8 / bitrate).toNat = coreClock.toNat / 8 / bitrate.toNat := by
    rw [UInt32.toNat_div, UInt32.toNat_div]
    rfl
  refine ⟨if coreClock / 8 / bitrate = 0 then 0 else coreClock / 8 / bitrate - 1, ?_, ?_⟩
  · rw [baudDivisor, Fault.quotient, if_neg h]
    rfl
  · split
    · next hzero =>
      rw [hzero] at hunits
      rw [← hunits]
      rfl
    · next hzero =>
      have hle : 1 ≤ coreClock / 8 / bitrate := by
        rw [UInt32.le_iff_toNat_le]
        exact UInt32.pos_iff_ne_zero.2 hzero
      rw [UInt32.toNat_sub_of_le _ _ hle, hunits]
      rfl

theorem toNat_baudWord (hw : baudWord bitrate = .ok w) :
    bitrate ≠ 0 ∧ w.toNat = (coreClock.toNat / 8 / bitrate.toNat - 1) % 65536 := by
  have hzero : bitrate ≠ 0 := by
    rintro rfl
    cases hw
  obtain ⟨d, hd, hquotient⟩ := exists_baudDivisor hzero
  rw [baudWord, hd] at hw
  cases hw
  refine ⟨hzero, ?_⟩
  rw [Field.toNat_value_of_offset_zero rfl, hquotient]
  rfl

/-- From 477 baud on the divisor fits into its register. -/
theorem fits_iff (h : 0 < bitrate.toNat) :
    coreClock.toNat / 8 / bitrate.toNat - 1 < 65536 ↔ 477 ≤ bitrate.toNat := by
  have hcore : coreClock.toNat / 8 = 31250000 := rfl
  have hpred (n : Nat) : n - 1 < 65536 ↔ n < 65537 := by omega
  rw [hcore, hpred, Nat.div_lt_iff_lt_mul h]
  omega

/-- What is left of a divisor that does not fit is less than the divisor at 477 baud. -/
theorem cut_lt_first_fit {n : Nat} (hpos : 0 < n) (hn : n < 477) :
    (31250000 / n - 1) % 65536 < 31250000 / 477 - 1 := by
  by_contra hge
  have hquotient : 0 < 31250000 / n := Nat.div_pos (by omega) hpos
  -- otherwise the quotient ends less than 24 below a multiple of 65536
  obtain ⟨k, j, hj, hnear⟩ : ∃ k j, j < 24 ∧ 31250000 / n + j = 65536 * (k + 1) :=
    ⟨(31250000 / n - 1) / 65536, 65535 - (31250000 / n - 1) % 65536, by omega, by omega⟩
  have hdiv := Nat.div_add_mod 31250000 n
  have hmod := Nat.mod_lt 31250000 hpos
  have hproduct : n * (31250000 / n) + n * j = 65536 * (n * (k + 1)) := by
    rw [← Nat.mul_add, hnear, Nat.mul_left_comm]
  have hgap : n * j ≤ n * 23 := Nat.mul_le_mul_left n (Nat.le_of_lt_succ hj)
  -- and the one multiple of 65536 that is so close to 31250000 is 477 times as much
  have hmultiple : n * (k + 1) = 477 := by omega
  have hlarge : 464 ≤ n := by omega
  cases k with
  | zero => omega
  | succ k =>
    have htwice : n * 2 ≤ n * (k + 1 + 1) := Nat.mul_le_mul_left n (Nat.le_add_left 2 k)
    omega

theorem baudWord_le_iff (hw : baudWord bitrate = .ok w) :
    (∀ faster w', bitrate ≤ faster → baudWord faster = .ok w' → w' ≤ w) ↔
      477 ≤ bitrate.toNat := by
  obtain ⟨hzero, hword⟩ := toNat_baudWord hw
  have hpos : 0 < bitrate.toNat := UInt32.pos_iff_ne_zero.2 hzero
  constructor
  · intro h
    by_contra hslow
    have hlt := cut_lt_first_fit hpos (Nat.lt_of_not_le hslow)
    have hle : 65512 ≤ w := h 477 65512 (UInt32.le_iff_toNat_le.2 (Nat.le_of_not_le hslow)) rfl
    rw [UInt32.le_iff_toNat_le, hword] at hle
    exact Nat.not_lt.2 hle hlt
  · intro h faster w' hle hw'
    obtain ⟨-, hword'⟩ := toNat_baudWord hw'
    have hfit := (fits_iff hpos).2 h
    have hquotient := Nat.sub_le_sub_right
      (Nat.div_le_div_left (a := coreClock.toNat / 8) (UInt32.le_iff_toNat_le.1 hle) hpos) 1
    rw [UInt32.le_iff_toNat_le, hword, hword', Nat.mod_eq_of_lt hfit,
      Nat.mod_eq_of_lt (Nat.lt_of_le_of_lt hquotient hfit)]
    exact hquotient

/-- The word that is written is the divisor modulo 65536. It is the divisor from 477 baud on, and a
slower rate has a smaller word than some faster one. -/
theorem programs_divisor_iff (bitrate : UInt32) (h : bitrate ≠ 0) :
    ∃ d w, baudDivisor bitrate = .ok d ∧ baudWord bitrate = .ok w ∧
      (∀ budget limit T, (init budget bitrate limit).Runs T (.ended (.ok ())) →
        writes Uart1Block.baud T.accesses = [w]) ∧
      w.toNat = d.toNat % 65536 ∧ (w = d ↔ 477 ≤ bitrate.toNat) ∧
      ((∀ faster w', bitrate ≤ faster → baudWord faster = .ok w' → w' ≤ w) ↔
        477 ≤ bitrate.toNat) := by
  have hpos : 0 < bitrate.toNat := UInt32.pos_iff_ne_zero.2 h
  obtain ⟨d, hd, hquotient⟩ := exists_baudDivisor h
  have hw : baudWord bitrate = .ok (MuBaud.baud.val d).value := by
    rw [baudWord, hd]
    rfl
  have hcut : (MuBaud.baud.val d).value.toNat = d.toNat % 65536 :=
    Field.toNat_value_of_offset_zero rfl d
  refine ⟨d, _, hd, hw, ?_, hcut, ?_, baudWord_le_iff hw⟩
  · intro budget limit T hT
    obtain ⟨w, hw', hwrites⟩ := writes_init hT
    cases hw.symm.trans hw'
    exact hwrites
  · rw [← UInt32.toNat_inj, hcut, Nat.mod_eq_iff_lt (by decide), hquotient]
    exact fits_iff hpos

theorem programs_divisor_at_115200 :
    writes Uart1Block.baud ((init (.bounded 2) 115200).record
      (Contents.hardware fun _ => 4) 4).transcript.accesses = [270] ∧
    ∀ faster w', 115200 ≤ faster → baudWord faster = .ok w' → w' ≤ 270 := by
  obtain ⟨d, w, -, hw, hruns, -, -, hanti⟩ := programs_divisor_iff 115200 (by decide)
  have hword : baudWord 115200 = .ok 270 := rfl
  cases hword.symm.trans hw
  have houtcome : ((init (.bounded 2) 115200).record (Contents.hardware fun _ => 4) 4).outcome =
      .ok () := by decide +kernel
  exact ⟨hruns _ _ _ (houtcome ▸ Tree.runs_record _ _ []), hanti.2 (by decide)⟩

/-- The slowest rate that fits, and the one below. -/
theorem cut_at_476 :
    baudDivisor 477 = .ok 65512 ∧ writes Uart1Block.baud ((init (.bounded 2) 477).record
      (Contents.hardware fun _ => 4) 4).transcript.accesses = [65512] ∧
    baudDivisor 476 = .ok 65650 ∧ writes Uart1Block.baud ((init (.bounded 2) 476).record
      (Contents.hardware fun _ => 4) 4).transcript.accesses = [114] := by
  decide +kernel

end Uart1

/-! ## The full UART -/

namespace Uart0

variable {budget : Budget} {bitrate : UInt32} {limit : Nat} {T : Transcript Board}

theorem succeeds_reprogram (h : bitrate ≠ 0) : (reprogram bitrate).Succeeds := by
  apply (succeeds_set _ _).bind
  intro _
  apply (succeeds_set _ _).bind
  intro _
  rw [integerDivisor, fractionalDivisor, Fault.quotient, Fault.quotient, if_neg h, if_neg h]
  apply (succeeds_set Uart0Block.ibrd _).bind
  intro _
  apply (succeeds_set Uart0Block.fbrd _).bind
  intro _
  apply (succeeds_modify _ _).bind
  intro _
  exact succeeds_attachAll pins_lt _

theorem faultless_configure (h : bitrate ≠ 0) : (configure budget bitrate).Faultless := by
  rw [configure_eq]
  apply Program.Faultless.within
  apply (succeeds_modify _ _).faultless.bind
  intro _
  apply (Program.Faultless.waitUntil (asks_not_isSet _ _)).bind
  intro _
  exact (succeeds_reprogram h).faultless

theorem writes_configure (hT : (configure budget bitrate limit).Runs T (.ended (.ok ()))) :
    ∃ i f, integerDivisor bitrate = .ok i ∧ fractionalDivisor bitrate = .ok f ∧
      writes Uart0Block.ibrd T.accesses = [(Uart0Ibrd.ibrd.val i).value] ∧
      writes Uart0Block.fbrd T.accesses = [(Uart0Fbrd.fbrd.val f).value] := by
  rw [configure_eq] at hT
  obtain ⟨U, looks, w, V, hU, -, hV, hA⟩ := runs_within_wait_ok (asks_not_isSet _ _) hT
  obtain ⟨⟨v, hv⟩, -⟩ :=
    Update.runs_program (u := .modify Uart0Block.cr Uart0Cr.uarten.clear) hU
  obtain ⟨i, f, x, G, hi, hf, hG, hrest⟩ := runs_reprogram_ok hV
  have hwait (r : Register) : writes r (looks.map (looked Uart0Block.fr)) = [] :=
    writes_map_looked ..
  have hpins {r : Register} (hr : Layout.uart0.Contains r.offset) : writes r G = [] :=
    (hG.avoids (g := Layout.uart0) (by decide)).writes_eq_nil hr
  refine ⟨i, f, hi, hf, ?_, ?_⟩
  · simp (disch := decide) [hA, hv, hrest, hwait, hpins, Update.accesses, writes_wrote_of_ne]
  · simp (disch := decide) [hA, hv, hrest, hwait, hpins, Update.accesses, writes_wrote_of_ne]

/-- The quotient by a sixteenth as much is the integer part, the remainder the 64ths. -/
theorem fits_together (n b : Nat) :
    64 * (n / b / 16 % 65536) + n * 4 / b % 64 % 64 = n * 4 / b % 2 ^ 22 := by
  have hinteger : n / b / 16 = n * 4 / b / 64 := by
    rw [Nat.div_div_eq_div_mul, Nat.div_div_eq_div_mul,
      ← Nat.mul_div_mul_right n (b * 16) (by decide : 0 < 4), Nat.mul_assoc]
  rw [hinteger, Nat.mod_mod, Nat.add_comm]
  exact (Nat.mod_mul (x := n * 4 / b) (a := 64) (b := 65536)).symm

/-- The divisor of the reference clock in 64ths. -/
def divisor (i f : UInt32) : Nat := 64 * i.toNat + f.toNat

theorem divisors_fit_together (budget : Budget) (bitrate : UInt32) (h : bitrate ≠ 0) (limit : Nat)
    (T : Transcript Board) :
    (referenceClock * 4).toNat = referenceClock.toNat * 4 ∧
    (∀ x, ¬ (configure budget bitrate limit).Runs T (.ended (.fault x))) ∧
    ((configure budget bitrate limit).Runs T (.ended (.ok ())) →
      ∃ i f, writes Uart0Block.ibrd T.accesses = [i] ∧ writes Uart0Block.fbrd T.accesses = [f] ∧
        divisor i f = referenceClock.toNat * 4 / bitrate.toNat % 2 ^ 22 ∧
        (divisor i f = referenceClock.toNat * 4 / bitrate.toNat ↔ 3 ≤ bitrate.toNat) ∧
        (3 ≤ bitrate.toNat → divisor i f ≠ 0 →
          bitrate.toNat ≤ referenceClock.toNat * 4 / divisor i f)) := by
  have hpos : 0 < bitrate.toNat := UInt32.pos_iff_ne_zero.2 h
  refine ⟨rfl, fun x hT => faultless_configure h hT, ?_⟩
  intro hT
  obtain ⟨i, f, hi, hf, hibrd, hfbrd⟩ := writes_configure hT
  rw [integerDivisor, Fault.quotient, if_neg h] at hi
  rw [fractionalDivisor, Fault.quotient, if_neg h] at hf
  cases hi
  cases hf
  have hdivisor : divisor (Uart0Ibrd.ibrd.val (referenceClock / bitrate / 16)).value
      (Uart0Fbrd.fbrd.val (referenceClock * 4 / bitrate % 64)).value =
      referenceClock.toNat * 4 / bitrate.toNat % 2 ^ 22 := by
    rw [← fits_together, divisor, Field.toNat_value_of_offset_zero rfl,
      Field.toNat_value_of_offset_zero rfl, UInt32.toNat_div, UInt32.toNat_div, UInt32.toNat_mod,
      UInt32.toNat_div]
    rfl
  have hexact : referenceClock.toNat * 4 / bitrate.toNat < 2 ^ 22 ↔ 3 ≤ bitrate.toNat := by
    have hclock : referenceClock.toNat * 4 = 12000000 := rfl
    rw [hclock, Nat.div_lt_iff_lt_mul hpos]
    omega
  refine ⟨_, _, hibrd, hfbrd, hdivisor, ?_, ?_⟩
  · rw [hdivisor, Nat.mod_eq_iff_lt (by decide)]
    exact hexact
  · intro hb hne
    rw [hdivisor, Nat.mod_eq_of_lt (hexact.2 hb)] at hne ⊢
    rw [Nat.le_div_iff_mul_le (Nat.pos_of_ne_zero hne), Nat.mul_comm]
    exact Nat.div_mul_le_self ..

theorem divisors_fit_together_at_115200 :
    ∃ T i f, (configure (.bounded 2) 115200 4).Runs T (.ended (.ok ())) ∧
      writes Uart0Block.ibrd T.accesses = [i] ∧ writes Uart0Block.fbrd T.accesses = [f] ∧
      divisor i f = 104 ∧ 115200 ≤ referenceClock.toNat * 4 / divisor i f := by
  have houtcome : ((configure (.bounded 2) 115200).record
      (Contents.hardware fun _ => 0) 4).outcome = .ok () := by decide +kernel
  have hrun := Tree.runs_record (Contents.hardware fun _ => 0) (configure (.bounded 2) 115200 4) []
  obtain ⟨-, -, hok⟩ := divisors_fit_together (.bounded 2) 115200 (by decide) 4
    ((configure (.bounded 2) 115200).record (Contents.hardware fun _ => 0) 4).transcript
  obtain ⟨i, f, hi, hf, hdivisor, -, hrate⟩ := hok (houtcome ▸ hrun)
  have h104 : divisor i f = 104 := hdivisor.trans (by decide)
  have hne : divisor i f ≠ 0 := h104 ▸ by decide
  exact ⟨_, i, f, houtcome ▸ hrun, hi, hf, h104, hrate (by decide) hne⟩

end Uart0

end Bcm2835
