import Bcm2835.Proofs.Gpio.Waveform
import Bcm2835.Proofs.Machine

/-! The command that lets a pin blink. A cycle is two half waves: the pin is driven to a level, and
then comes a wait of half a period (`blinkCycles_eq`). Once the peripherals are mapped the command
does to the board of the machine what its cycles do to a board (`record_blink`), and that is the
waveform that was asked for (`blink_drives_waveform`). -/

namespace Bcm2835

open Program Board

/-! ## The counter of the machine -/

namespace SystemTimer.Counter

/-- The low register on the board of the machine shows the counter. -/
def OnMachine (c : Counter) (hw : Behaviour Machine) : Prop :=
  ∀ past, (hw past (.board (.read StBlock.clo.offset)) : UInt32) = c.low past.length

variable {c : Counter} {hw : Behaviour Machine}

theorem OnMachine.onLow (h : c.OnMachine hw) (past : List (Access Machine)) :
    (c.since past.length).OnLow (Machine.boardOf hw past) := by
  intro A
  refine (h _).trans (congrArg c.low ?_)
  rw [List.length_append, List.length_map]

end SystemTimer.Counter

/-! ## The command -/

namespace CommandLine

open Gpio SystemTimer

/-- The levels of so many cycles. -/
def levels (n : Nat) : List Bool := (List.replicate n [true, false]).flatten

theorem levels_succ (n : Nat) : levels (n + 1) = true :: false :: levels n := rfl

theorem length_levels (n : Nat) : (levels n).length = 2 * n := by
  induction n with
  | zero => rfl
  | succ n ih => rw [levels_succ, List.length_cons, List.length_cons, ih, Nat.mul_succ]

theorem getLast?_levels {n : Nat} (h : 0 < n) : (levels n).getLast? = some false := by
  obtain ⟨n, rfl⟩ := Nat.exists_eq_add_of_le' h
  rw [levels, List.replicate_succ', List.flatten_append]
  simp

/-- Each level is driven to, and kept for half of the period. -/
theorem blinkCycles_eq (pin : UInt8) (half : Duration) (n : Nat) :
    blinkCycles pin half n = (levels n).forM fun up => drive pin up >>= fun _ => waitFor half := by
  induction n with
  | zero => rfl
  | succ n ih =>
    change _ = (drive pin true >>= fun _ => waitFor half) >>= fun _ =>
      (drive pin false >>= fun _ => waitFor half) >>= fun _ => (levels n).forM _
    rw [blinkCycles, ih, blinkCycle]
    simp only [bind_assoc]
    rfl

theorem microseconds_half (ms : Nat) :
    (Duration.ofMilliseconds ms).half.microseconds = 500 * ms := by
  change ms * 1000000 / 2 / 1000 = _
  omega

/-- The delays that the waits of half a period are made of. -/
def halfPeriod (ms : Nat) : List UInt32 := pieces longestDelay (500 * ms)

theorem waitFor_half (ms : Nat) :
    waitFor (Duration.ofMilliseconds ms).half = (halfPeriod ms).forM delay := by
  rw [waitFor, microseconds_half]
  exact waitMicroseconds_eq _

theorem blinkCycles_of_lt {pin : UInt8} (h : pin.toNat < pinCount) (ms n : Nat) :
    blinkCycles pin (Duration.ofMilliseconds ms).half n =
      (levels n).forM (halfWave ⟨pin.toNat, h⟩ (halfPeriod ms)) := by
  rw [blinkCycles_eq, waitFor_half]
  refine congrArg (List.forM (levels n)) (funext fun up => ?_)
  rw [drive_of_lt h]
  rfl

theorem sum_flatMap_const {γ : Type} (l : List γ) (xs : List UInt32) :
    ((l.flatMap fun _ => xs).map UInt32.toNat).sum = l.length * (xs.map UInt32.toNat).sum := by
  induction l with
  | nil => simp
  | cons a l ih =>
    rw [List.flatMap_cons, List.map_append, List.sum_append, ih, List.length_cons, Nat.succ_mul,
      Nat.add_comm]

/-- All waits together. -/
theorem sum_halfPeriods (ms n : Nat) :
    (((levels n).flatMap fun _ => halfPeriod ms).map UInt32.toNat).sum = n * ms * 1000 := by
  rw [sum_flatMap_const, length_levels, halfPeriod, sum_pieces longestDelay_pos (by decide)]
  exact (Nat.mul_mul_mul_comm 2 n 500 ms).trans (Nat.mul_comm ..)

section
variable {o : MapOptions} {pin : UInt8} {ms n limit : Nat} {hw : Behaviour Machine}
  {past : List (Access Machine)}

theorem blink_of_lt (h : pin.toNat < pinCount) :
    blink o pin ms (some n) = mapPeripherals o >>= fun _ =>
      Action.onBoard .ofError (configure pin .output) >>= fun _ =>
      Action.report (.blinking pin ms) >>= fun _ =>
      Action.onBoard .ofError (blinkCycles pin (Duration.ofMilliseconds ms).half n) := by
  rw [blink, if_neg (Nat.not_le.2 h)]

/-- The failure for a pin that does not exist. -/
def noSuchPin (pin : UInt8) : Failure :=
  ⟨"GPIO " ++ Numeral.decimal pin.toNat ++ " does not exist, the last one is 53", []⟩

/-- A pin that does not exist is refused before anything else. -/
theorem record_blink_of_le (h : pinCount ≤ pin.toNat) (count : Option Nat) :
    (blink o pin ms count).record hw limit = ⟨[], .ok (.error (noSuchPin pin))⟩ := by
  have hlast : Numeral.decimal (pinCount - 1) = "53" := by decide +kernel
  have htext : " does not exist, " ++ ("the last one is " ++ Numeral.decimal (pinCount - 1)) =
      " does not exist, the last one is 53" := by
    rw [hlast]
    decide
  rw [noSuchPin, ← htext, ← String.append_assoc, blink, if_pos h]
  rfl

theorem record_configure (h : pin.toNat < pinCount) (f : PinFunction) (hw : Behaviour Board) :
    ∃ v, ∀ limit, (configure pin f limit).record hw [] =
      ⟨(setting ⟨pin.toNat, h⟩ f v).map .access, .ok ()⟩ := by
  refine ⟨hw [] (.read (GpioBlock.fsel.slot (pin.toNat / 10))), fun limit => ?_⟩
  rw [configure, check_apply_of_lt h]
  rfl

/-- What happens once the peripherals are mapped: the pin becomes an output, and then it blinks. -/
def blinking (mapping : Transcript Machine) (pin : Pin) (v : UInt32) (notice : Notice)
    (T : Transcript Board) : Transcript Machine :=
  mapping ++ (((setting pin .output v).map Entry.access).map Machine.boardEntry ++
    .report notice :: T.map Machine.boardEntry)

/-- Once the peripherals are mapped the command is what its cycles do to the board. -/
theorem record_blink (h : pin.toNat < pinCount) (ms n : Nat) {mapping : Transcript Machine}
    (hmap : ∀ limit, (mapPeripherals o).record hw limit = ⟨mapping, .ok (.ok ())⟩) :
    ∃ v, ∃ past : List (Access Machine), past.length = mapping.accesses.length + 2 ∧
      ∀ limit, (blink o pin ms (some n)).record hw limit =
        let R := (blinkCycles pin (Duration.ofMilliseconds ms).half n).record
          (Machine.boardOf hw past) limit
        ⟨blinking mapping ⟨pin.toNat, h⟩ v (.blinking pin ms) R.transcript,
          R.outcome.wrapped Failure.ofError⟩ := by
  obtain ⟨v, hv⟩ := record_configure h .output (Machine.boardOf hw mapping.accesses)
  have hconfigure (limit : Nat) :
      (Action.onBoard .ofError (configure pin .output) limit).record hw mapping.accesses =
        ⟨((setting ⟨pin.toNat, h⟩ .output v).map Entry.access).map Machine.boardEntry,
          .ok (.ok ())⟩ := by
    rw [Action.record_onBoard, hv]
    rfl
  refine ⟨v, mapping.accesses ++ (setting ⟨pin.toNat, h⟩ .output v).map Machine.boardAccess, ?_, ?_⟩
  · rw [List.length_append]
    rfl
  intro limit
  have hreport (past : List (Access Machine)) (p : Driver Unit) :
      ((Action.report (.blinking pin ms) >>= fun _ => Action.onBoard .ofError p) limit).record hw
        past = (((Action.onBoard .ofError p) limit).record hw past).after
          (.report (.blinking pin ms)) := rfl
  rw [record, blink_of_lt h, Action.record_bind_of_ok (hmap limit), List.nil_append,
    Action.record_bind_of_ok (hconfigure limit), hreport, Action.record_onBoard,
    Machine.accesses_map_boardEntry, Transcript.accesses_map_access]
  rfl

/-- The accesses of a pin that is an output and goes up and down `n` times in `n` periods, where the
timer shows the counter. -/
structure Waveform (c : Counter) (pin : Pin) (ms n : Nat) (A : List (Access Board)) : Prop where
  first : ∀ a ∈ A.head?, ∃ up, a = driven pin up
  /-- Nothing but these writes is done to the pins. -/
  drives : A.filter visitsPins = (levels n).map (driven pin)
  /-- Behind each come the looks of one wait for half of the period. -/
  waits : Everywhere (fun P a Q => ∀ up, a = driven pin up →
    Waited c pin (halfPeriod ms) (P.length + 1) Q) A
  /-- The counter gets through half of the period between the first and the last of them. -/
  lasts : 0 < ms → Everywhere (fun P a Q => ∀ up, a = driven pin up →
    ∃ m B, Q = c.lows (P.length + 1) (m + 1) ++ B ∧ (∀ b ∈ B.head?, ∃ up, b = driven pin up) ∧
      P.length + 1 < m ∧ c.ticks (P.length + 1) + 500 * ms ≤ c.ticks m) A
  low : 0 < n → ∀ before, levelAfter pin before A = false

theorem waveform_of_wave {c : Counter} {pin : Pin} {A : List (Access Board)} {k : Nat}
    (h : Wave c pin (halfPeriod ms) 0 (levels n) A k) : Waveform c pin ms n A := by
  have hwaited : Everywhere (fun P a Q => ∀ up, a = driven pin up →
      Waited c pin (halfPeriod ms) (P.length + 1) Q) A := by
    intro P a Q hA up hup
    have hplace := h.waited P a Q hA up hup
    rwa [Nat.zero_add] at hplace
  refine ⟨h.head, h.filter_visitsPins, hwaited, ?_, ?_⟩
  · intro hms P a Q hA up hup
    obtain ⟨m, B, rfl, hturn, hnext⟩ := hwaited P a Q hA up hup
    obtain ⟨m, rfl, hlt, hpassed⟩ := passed_of_pieces hturn (Nat.mul_pos (by decide) hms)
    exact ⟨m, B, rfl, hnext, hlt, hpassed⟩
  · intro hn before
    rw [levelAfter, h.filterMap_drive?, getLast?_levels hn]
    rfl

/-- What the cycles of a blink are made of. -/
structure HalfPeriods (pin : UInt8) (ms n : Nat) : Prop where
  cycles : blinkCycles pin (Duration.ofMilliseconds ms).half n = (levels n).forM fun up =>
    drive pin up >>= fun _ => waitFor (Duration.ofMilliseconds ms).half
  waits : waitFor (Duration.ofMilliseconds ms).half = (halfPeriod ms).forM delay
  half : (Duration.ofMilliseconds ms).half.microseconds = 500 * ms
  total : (((levels n).flatMap fun _ => halfPeriod ms).map UInt32.toNat).sum = n * ms * 1000

theorem halfPeriods (pin : UInt8) (ms n : Nat) : HalfPeriods pin ms n :=
  ⟨blinkCycles_eq .., waitFor_half ms, microseconds_half ms, sum_halfPeriods ms n⟩

/-- What the command does once the peripherals are mapped, where the word of the functions holds
`v`. The counters see the mapping and the two accesses that make the pin an output go by first. -/
structure Blinks (o : MapOptions) (pin : UInt8) (hpin : pin.toNat < pinCount) (ms n : Nat)
    (hw : Behaviour Machine) (mapping : Transcript Machine) (v : UInt32) : Prop where
  /-- The pin becomes an output, and no other pin is touched. -/
  output : ∀ j, (assigned ⟨pin.toNat, hpin⟩ .output v).toNat.testBit j =
    if pin.toNat % 10 * 3 ≤ j ∧ j < pin.toNat % 10 * 3 + 3 then decide (j = pin.toNat % 10 * 3)
    else v.toNat.testBit j
  /-- A run is over or still waiting, and the levels it got to are the first ones. -/
  runs : ∀ limit, ∃ T r, (blink o pin ms (some n)).record hw limit =
      ⟨blinking mapping ⟨pin.toNat, hpin⟩ v (.blinking pin ms) T, r⟩ ∧
    (r = .ok (.ok ()) ∨ r = .stalled) ∧
    T.accesses.filter visitsPins <+: (levels n).map (driven ⟨pin.toNat, hpin⟩)
  /-- Each level of a run that is over was kept for half of the period. -/
  keeps : ∀ c : Counter, c.OnMachine hw → ∀ limit,
    ((blink o pin ms (some n)).record hw limit).outcome = .ok (.ok ()) →
      ∃ A, Waveform (c.since (mapping.accesses.length + 2)) ⟨pin.toNat, hpin⟩ ms n A ∧
        (blink o pin ms (some n)).record hw limit =
          ⟨blinking mapping ⟨pin.toNat, hpin⟩ v (.blinking pin ms) (A.map .access), .ok (.ok ())⟩
  /-- A counter that keeps advancing lets the run get to its end. -/
  ends : ∀ c : Counter, c.OnMachine hw → c.KeepsAdvancing →
    ∃ A k, Waveform (c.since (mapping.accesses.length + 2)) ⟨pin.toNat, hpin⟩ ms n A ∧
      ∀ limit ≥ k, (blink o pin ms (some n)).record hw limit =
        ⟨blinking mapping ⟨pin.toNat, hpin⟩ v (.blinking pin ms) (A.map .access), .ok (.ok ())⟩

theorem exists_blinks {mapping : Transcript Machine} (hpin : pin.toNat < pinCount) (ms n : Nat)
    (hmap : ∀ limit, (mapPeripherals o).record hw limit = ⟨mapping, .ok (.ok ())⟩) :
    ∃ v, Blinks o pin hpin ms n hw mapping v := by
  obtain ⟨v, past, hpast, hrecord⟩ := record_blink hpin ms n hmap
  rw [blinkCycles_of_lt hpin] at hrecord
  have hplayed {limit : Nat} {A : List (Access Board)}
      (hA : ((levels n).forM (halfWave ⟨pin.toNat, hpin⟩ (halfPeriod ms)) limit).record
        (Machine.boardOf hw past) [] = ⟨A.map .access, .ok ()⟩) :
      (blink o pin ms (some n)).record hw limit = ⟨blinking mapping ⟨pin.toNat, hpin⟩ v
        (.blinking pin ms) (A.map .access), .ok (.ok ())⟩ :=
    (hrecord limit).trans (congrArg (fun R : Record Board Unit =>
      Record.mk (blinking mapping _ v _ R.transcript) (R.outcome.wrapped Failure.ofError)) hA)
  have hlow {c : Counter} (hc : c.OnMachine hw) :
      (c.since (mapping.accesses.length + 2)).OnLow (Machine.boardOf hw past) :=
    hpast ▸ hc.onLow past
  refine ⟨v, testBit_assigned_output ⟨pin.toNat, hpin⟩ v, fun limit => ?_, ?_, ?_⟩
  · have hruns := Tree.runs_record (Machine.boardOf hw past)
      ((levels n).forM (halfWave ⟨pin.toNat, hpin⟩ (halfPeriod ms)) limit) []
    refine ⟨_, _, hrecord limit, ?_, runs_halfWaves hruns⟩
    rcases unfailing_forM (unfailing_halfWave _ _) _ hruns with hend | hend
    · exact .inl (congrArg (Outcome.wrapped _) (Stop.ended.inj hend))
    · exact .inr (congrArg (Outcome.wrapped _) (Stop.ended.inj hend))
  · intro c hc limit hok
    rw [hrecord] at hok
    obtain ⟨A, k, hwave, hA⟩ := exists_wave_of_forM (hlow hc) (Outcome.wrapped_eq_ok.1 hok)
    exact ⟨A, waveform_of_wave hwave, hplayed hA⟩
  · intro c hc hon
    have hpieces : ∀ x ∈ halfPeriod ms, x.toNat ≤ longestDelay :=
      fun x hx => (mem_pieces longestDelay_pos (by decide) hx).2
    obtain ⟨A, k, hwave⟩ := exists_wave (hon.since _) hpieces ⟨pin.toNat, hpin⟩ 0 (levels n)
    refine ⟨A, k, waveform_of_wave hwave, fun limit hlimit => hplayed ?_⟩
    exact record_wave (hlow hc) hwave (Nat.le_trans hlimit (Nat.le_add_left ..))

/-- Blinking is refused for a pin that does not exist, before anything is asked for. For one that
exists the peripherals are mapped first, without a look at the board, and a failure to do so is the
end. Then the pin becomes an output, in one look at its word and one write, and goes up and down,
and nothing else is done to the pins. A run is over or still waiting; in one that is over each level
was kept for half of the period, and it gets there if the counter of the timer keeps advancing. -/
theorem blink_drives_waveform (o : MapOptions) (pin : UInt8) (ms n : Nat) (hw : Behaviour Machine) :
    (pinCount ≤ pin.toNat → ∀ count limit,
      (blink o pin ms count).record hw limit = ⟨[], .ok (.error (noSuchPin pin))⟩) ∧
    HalfPeriods pin ms n ∧
    ∀ hpin : pin.toNat < pinCount,
      ∃ (mapping : Transcript Machine) (result : Except Failure Unit),
        (∀ limit, (mapPeripherals o).record hw limit = ⟨mapping, .ok result⟩) ∧
        OffBoard mapping.accesses ∧
        (∀ failure, result = .error failure → ∀ limit,
          (blink o pin ms (some n)).record hw limit = ⟨mapping, .ok (.error failure)⟩) ∧
        (result = .ok () → ∃ v, Blinks o pin hpin ms n hw mapping v) := by
  refine ⟨fun h count limit => record_blink_of_le h count, halfPeriods pin ms n, fun hpin => ?_⟩
  obtain ⟨mapping, result, hmap, hoff⟩ := mapPeripherals_ends o hw
  refine ⟨mapping, result, hmap, hoff, ?_, ?_⟩
  · rintro failure rfl limit
    rw [blink_of_lt hpin]
    exact Action.record_bind_of_error (hmap limit)
  · rintro rfl
    exact exists_blinks hpin ms n hmap

end

/-- A machine that finds no record of its ranges, maps the peripherals, and shows the counter. -/
def countingMachine (c : Counter) : Behaviour Machine
  | past, .board r => c.board (List.replicate past.length (c.lowAt 0)) r
  | _, .readFile _ => (.error .notFound : Except FileError (List UInt8))
  | _, .openDevice _ => (.ok () : Except FileError Unit)
  | _, .mapDevice .. => (.ok 0x1000 : Except FileError Nat)
  | _, .print _ => ()

theorem onMachine_countingMachine (c : Counter) : c.OnMachine (countingMachine c) :=
  fun _ => congrArg c.low List.length_replicate

theorem keepsAdvancing_striding : Counter.striding.KeepsAdvancing where
  unbounded t := by
    refine ⟨t, ?_⟩
    change t ≤ 0xFFFFFFFF + 2 ^ 30 * t
    omega
  close n := by
    change 0xFFFFFFFF + 2 ^ 30 * (n + 1) ≤ 0xFFFFFFFF + 2 ^ 30 * n + (2 ^ 31 + 1)
    omega

/-- A cycle of three milliseconds on a pin in the upper bank, behind a mapping of three accesses. -/
theorem blink_drives_waveform_striding :
    (blink {} 54 3 (some 1)).record (countingMachine Counter.striding) 0 =
      ⟨[], .ok (.error (noSuchPin 54))⟩ ∧
    ∃ mapping v A k, Waveform (Counter.striding.since 5) ⟨47, by decide⟩ 3 1 A ∧
      ∀ limit ≥ k, (blink {} 47 3 (some 1)).record (countingMachine Counter.striding) limit =
        ⟨blinking mapping ⟨47, by decide⟩ v (.blinking 47 3) (A.map .access), .ok (.ok ())⟩ := by
  refine ⟨(blink_drives_waveform {} 54 3 1 _).1 (by decide) (some 1) 0, ?_⟩
  have hpin : (47 : UInt8).toNat < pinCount := by decide
  obtain ⟨mapping, result, hmap, -, -, hblink⟩ :=
    (blink_drives_waveform {} 47 3 1 (countingMachine Counter.striding)).2.2 hpin
  have hresult : result = .ok () := (Outcome.ok.inj (congrArg Record.outcome (hmap 0))).symm
  have hlength : mapping.accesses.length = 3 :=
    (congrArg (fun R => (Transcript.accesses (Record.transcript R)).length) (hmap 0)).symm
  obtain ⟨v, hv⟩ := hblink hresult
  obtain ⟨A, k, hwave, hplayed⟩ :=
    hv.ends Counter.striding (onMachine_countingMachine _) keepsAdvancing_striding
  rw [hlength] at hwave
  exact ⟨mapping, v, A, k, hwave, hplayed⟩

end CommandLine

end Bcm2835
