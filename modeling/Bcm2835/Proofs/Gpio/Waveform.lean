import Bcm2835.Proofs.Remit
import Bcm2835.Proofs.SystemTimer.Wait

/-! A pin that is driven up and down, with a wait behind each drive. Where the low word of the timer
shows a counter, what such a program does is a `Wave` of the levels it was given, as far as it gets;
and what is said about the pin and about the time is read off the wave. -/

namespace Bcm2835

open Program Board

/-! ## Waits -/

namespace SystemTimer

namespace Counter

/-- The counter goes on for ever, by little more than half a turn of the low word at the most from
one access to the next. -/
structure KeepsAdvancing (c : Counter) : Prop where
  unbounded : ∀ t, ∃ m, t ≤ c.ticks m
  close : ∀ n, c.ticks (n + 1) ≤ c.ticks n + (2 ^ 31 + 1)

/-- The counter, numbered from this access on. -/
def since (c : Counter) (k : Nat) : Counter where
  ticks n := c.ticks (k + n)
  mono _ _ h := c.mono (Nat.add_le_add_left h k)

theorem KeepsAdvancing.since {c : Counter} (h : c.KeepsAdvancing) (k : Nat) :
    (c.since k).KeepsAdvancing where
  unbounded t := by
    obtain ⟨m, hm⟩ := h.unbounded t
    exact ⟨m, hm.trans (c.mono (Nat.le_add_left m k))⟩
  close n := h.close (k + n)

end Counter

variable {c : Counter} {k n : Nat} {xs : List UInt32}

theorem timing_lows (c : Counter) (k n : Nat) : ∀ a ∈ c.lows k n, Timing a := by
  intro a ha
  obtain ⟨i, -, rfl⟩ := List.mem_map.1 ha
  exact .inl rfl

theorem le_of_inTurn (h : InTurn c.Stops k xs n) : k ≤ n := h.le fun _ _ _ => Counter.Stops.le

/-- By the last look of a wait its time has passed since the first. -/
theorem passed_of_pieces {ticks : Nat} (h : InTurn c.Stops k (pieces longestDelay ticks) n)
    (hpos : 0 < ticks) : ∃ m, n = m + 1 ∧ k < m ∧ c.ticks k + ticks ≤ c.ticks m := by
  have hsum := sum_pieces longestDelay_pos (by decide) ticks
  cases hpieces : pieces longestDelay ticks with
  | nil =>
    rw [hpieces] at hsum
    exact absurd hsum (Nat.ne_of_lt hpos)
  | cons x xs =>
    rw [hpieces] at h hsum
    rw [← hsum]
    exact Counter.passed_of_inTurn h

/-- A counter that keeps advancing comes to the ends of all delays. -/
theorem exists_inTurn_stops (hc : c.KeepsAdvancing) (hxs : ∀ x ∈ xs, x.toNat ≤ longestDelay)
    (k : Nat) : ∃ n, InTurn c.Stops k xs n := by
  obtain ⟨n, hreaches⟩ := Counter.exists_inTurn_reaches hc.unbounded k xs
  exact ⟨n, Counter.inTurn_stops hreaches hxs fun i _ _ => hc.close i⟩

end SystemTimer

namespace Gpio

open SystemTimer

/-! ## Driving a pin -/

/-- The write that drives a pin to a level. -/
def driven (pin : Pin) (up : Bool) : Access Board :=
  wroteAt (bank (if up then GpioBlock.set else GpioBlock.clr) pin) (bit pin)

/-- The access is to the block of the pins. -/
def visitsPins (a : Access Board) : Bool := (place? a).any fun o => decide (Layout.gpio.Contains o)

/-- The level that an access drives the pin to, if it does. A bit that is not set in the word drives
nothing. -/
def drive? (pin : Pin) (a : Access Board) : Option Bool :=
  (written? a).bind fun x =>
    if x.2.toNat.testBit (pin % 32) then
      if x.1 = bank GpioBlock.set pin then some true
      else if x.1 = bank GpioBlock.clr pin then some false
      else none
    else none

/-- The level of an output behind these accesses. It is the one it was driven to last. -/
def levelAfter (pin : Pin) (before : Bool) (A : List (Access Board)) : Bool :=
  (A.filterMap (drive? pin)).getLast?.getD before

/-- Drives a pin to a level. -/
def drive (pin : UInt8) (up : Bool) : Driver Unit := if up then set pin else clear pin

theorem drive_of_lt {pin : UInt8} (h : pin.toNat < pinCount) (up : Bool) :
    drive pin up = Register.setAt
      (bank (if up then GpioBlock.set else GpioBlock.clr) ⟨pin.toNat, h⟩) (bit ⟨pin.toNat, h⟩) := by
  cases up with
  | true =>
    change set pin = _
    rw [set, check_apply_of_lt h]
    rfl
  | false =>
    change clear pin = _
    rw [clear, check_apply_of_lt h]
    rfl

theorem visitsPins_driven (pin : Pin) (up : Bool) : visitsPins (driven pin up) = true := by
  have hbank : pin.val / 32 < 2 := Nat.div_lt_of_lt_mul (Nat.lt_trans pin.isLt (by decide))
  have hcontains :
      Layout.gpio.Contains (bank (if up then GpioBlock.set else GpioBlock.clr) pin) := by
    cases up with
    | true => exact GpioBlock.block.contains_slot (r := GpioBlock.set) (by decide) hbank
    | false => exact GpioBlock.block.contains_slot (r := GpioBlock.clr) (by decide) hbank
  exact decide_eq_true hcontains

theorem drive?_driven (pin : Pin) (up : Bool) : drive? pin (driven pin up) = some up := by
  have hne : bank GpioBlock.clr pin ≠ bank GpioBlock.set pin := by
    simp only [bank, Register.slot, GpioBlock.clr, GpioBlock.set]
    omega
  have hbit : (bit pin).toNat.testBit (pin % 32) = true := by
    rw [testBit_bit, decide_eq_true rfl]
  cases up with
  | true => simp [drive?, driven, written?, hbit]
  | false => simp [drive?, driven, written?, hbit, hne]

theorem visitsPins_of_timing {a : Access Board} (h : Timing a) : visitsPins a = false := by
  obtain ⟨r, x⟩ := a
  cases r with
  | read o =>
    obtain rfl | rfl := h
    · rfl
    · rfl
  | pause => rfl
  | write | locate | post | collect => cases h

theorem filter_visitsPins_of_timing {A : List (Access Board)} (h : ∀ a ∈ A, Timing a) :
    A.filter visitsPins = [] := by
  apply List.filter_eq_nil_iff.2
  intro a ha
  rw [visitsPins_of_timing (h a ha)]
  exact Bool.false_ne_true

theorem filterMap_drive?_of_timing {A : List (Access Board)} (h : ∀ a ∈ A, Timing a) (pin : Pin) :
    A.filterMap (drive? pin) = [] := by
  apply List.filterMap_eq_nil_iff.2
  intro a ha
  rw [drive?, written?_of_timing (h a ha)]
  rfl

/-- What a pin that is configured as an output gets into its field; all other bits stay. -/
theorem testBit_assigned_output (pin : Pin) (v : UInt32) (j : Nat) :
    (assigned pin .output v).toNat.testBit j =
      if pin % 10 * 3 ≤ j ∧ j < pin % 10 * 3 + 3 then decide (j = pin % 10 * 3)
      else v.toNat.testBit j := by
  have hcode (i : Nat) : PinFunction.output.code.toNat.testBit i = decide (0 = i) :=
    Nat.testBit_two_pow (n := 0)
  have hfield : (functionField pin).Covers j ↔ pin % 10 * 3 ≤ j ∧ j < pin % 10 * 3 + 3 := Iff.rfl
  rw [assigned, Field.testBit_applyTo]
  by_cases h : (functionField pin).Covers j
  · rw [if_pos h, if_pos (hfield.1 h), hcode, decide_eq_decide]
    change 0 = j - pin % 10 * 3 ↔ _
    have hle := (hfield.1 h).1
    omega
  · rw [if_neg h, if_neg (hfield.not.1 h)]

/-! ## Half waves -/

/-- The accesses of half waves in a row from one access of the board to another. Each drives the
pin, and then comes one wait that is made up of these delays. -/
inductive Wave (c : Counter) (pin : Pin) (xs : List UInt32) :
    Nat → List Bool → List (Access Board) → Nat → Prop
  | nil {k : Nat} : Wave c pin xs k [] [] k
  | cons {k m n : Nat} {up : Bool} {ups : List Bool} {A : List (Access Board)} :
    InTurn c.Stops (k + 1) xs m → Wave c pin xs m ups A n →
    Wave c pin xs k (up :: ups) (driven pin up :: (c.lows (k + 1) m ++ A)) n

/-- The looks of one wait come next, and then another drive, if anything. -/
def Waited (c : Counter) (pin : Pin) (xs : List UInt32) (k : Nat) (A : List (Access Board)) :
    Prop :=
  ∃ m B, A = c.lows k m ++ B ∧ InTurn c.Stops k xs m ∧ ∀ b ∈ B.head?, ∃ up, b = driven pin up

variable {c : Counter} {pin : Pin} {xs : List UInt32} {k m n limit : Nat} {up : Bool}
  {ups : List Bool} {A : List (Access Board)} {hw : Behaviour Board} {past : List (Access Board)}

namespace Wave

theorem le (h : Wave c pin xs k ups A n) : k ≤ n := by
  induction h with
  | nil => exact Nat.le_refl _
  | cons hturn _ ih => exact Nat.le_trans (Nat.le_trans (Nat.le_succ _) (le_of_inTurn hturn)) ih

theorem head (h : Wave c pin xs k ups A n) : ∀ a ∈ A.head?, ∃ up, a = driven pin up := by
  cases h with
  | nil => exact fun a ha => nomatch ha
  | @cons k m n up ups A =>
    rintro a ⟨⟩
    exact ⟨up, rfl⟩

/-- The pin is driven, and nothing else is done to pins. -/
theorem filter_visitsPins (h : Wave c pin xs k ups A n) :
    A.filter visitsPins = ups.map (driven pin) := by
  induction h with
  | nil => rfl
  | @cons k m _ up ups A _ _ ih =>
    rw [List.filter_cons_of_pos (visitsPins_driven pin up), List.filter_append,
      filter_visitsPins_of_timing (timing_lows c (k + 1) m), ih]
    rfl

theorem filterMap_drive? (h : Wave c pin xs k ups A n) : A.filterMap (drive? pin) = ups := by
  induction h with
  | nil => rfl
  | @cons k m _ up ups A _ _ ih =>
    rw [List.filterMap_cons_some (drive?_driven pin up), List.filterMap_append,
      filterMap_drive?_of_timing (timing_lows c (k + 1) m) pin, ih]
    rfl

/-- Behind each drive comes a wait. -/
theorem waited (h : Wave c pin xs k ups A n) :
    Everywhere (fun P a Q => ∀ up, a = driven pin up → Waited c pin xs (k + P.length + 1) Q) A := by
  induction h with
  | nil => exact everywhere_nil
  | @cons k m n up ups A hturn hrest ih =>
    refine everywhere_cons.2 ⟨?_, everywhere_append.2 ⟨?_, ?_⟩⟩
    · intro _ _
      exact ⟨m, A, rfl, hturn, hrest.head⟩
    · refine Everywhere.of_forall_mem fun a ha P Q up' hup => ?_
      have hquiet := visitsPins_of_timing (timing_lows c (k + 1) m a ha)
      rw [hup, visitsPins_driven] at hquiet
      cases hquiet
    · intro P a Q hA up' hup
      have hplace :
          k + (driven pin up :: (c.lows (k + 1) m ++ P)).length + 1 = m + P.length + 1 := by
        have hle := le_of_inTurn hturn
        rw [List.length_cons, List.length_append, Counter.length_lows]
        omega
      rw [hplace]
      exact ih P a Q hA up' hup

end Wave

/-! ## Programs for half waves -/

/-- One half wave. -/
def halfWave (pin : Pin) (xs : List UInt32) (up : Bool) : Driver Unit :=
  Register.setAt (bank (if up then GpioBlock.set else GpioBlock.clr) pin) (bit pin) >>= fun _ =>
    xs.forM delay

theorem record_halfWave (pin : Pin) (xs : List UInt32) (up : Bool) :
    (halfWave pin xs up limit).record hw past =
      ((xs.forM delay limit).record hw (past ++ [driven pin up])).after (.access (driven pin up)) :=
  rfl

theorem record_halfWave_of_inTurn (hlow : c.OnLow hw)
    (h : InTurn c.Stops (past.length + 1) xs n) (hlimit : n ≤ past.length + limit) :
    (halfWave pin xs up limit).record hw past =
      ⟨(driven pin up :: c.lows (past.length + 1) n).map .access, .ok ()⟩ := by
  have hlength : (past ++ [driven pin up]).length = past.length + 1 := List.length_append
  rw [record_halfWave, Counter.record_forM hlow (hlength.symm ▸ h) (by omega), hlength]
  rfl

theorem exists_inTurn_of_halfWave (hlow : c.OnLow hw)
    (h : ((halfWave pin xs up limit).record hw past).outcome = .ok ()) :
    ∃ n, InTurn c.Stops (past.length + 1) xs n ∧ (halfWave pin xs up limit).record hw past =
      ⟨(driven pin up :: c.lows (past.length + 1) n).map .access, .ok ()⟩ := by
  have hlength : (past ++ [driven pin up]).length = past.length + 1 := List.length_append
  have hok : ((xs.forM delay limit).record hw (past ++ [driven pin up])).outcome = .ok () := h
  obtain ⟨n, hturn, hrecord⟩ := Counter.exists_inTurn_of_forM hlow hok
  rw [hlength] at hturn hrecord
  refine ⟨n, hturn, ?_⟩
  rw [record_halfWave, hrecord]
  rfl

/-- Behind a half wave the next begins where its wait ended. -/
theorem length_halfWave (pin : Pin) (up : Bool) (h : InTurn c.Stops (past.length + 1) xs m) :
    (past ++ driven pin up :: c.lows (past.length + 1) m).length = m := by
  have hle := le_of_inTurn h
  rw [List.length_append, List.length_cons, Counter.length_lows]
  omega

theorem record_cons (hfirst : (halfWave pin xs up limit).record hw past =
      ⟨(driven pin up :: c.lows (past.length + 1) m).map .access, .ok ()⟩)
    (hrest : (ups.forM (halfWave pin xs) limit).record hw
      (past ++ driven pin up :: c.lows (past.length + 1) m) = ⟨A.map .access, .ok ()⟩) :
    ((up :: ups).forM (halfWave pin xs) limit).record hw past =
      ⟨(driven pin up :: (c.lows (past.length + 1) m ++ A)).map .access, .ok ()⟩ := by
  refine (Tree.record_bind_of_ok hfirst).trans ?_
  rw [Transcript.accesses_map_access]
  refine (congrArg (Record.behind _) hrest).trans ?_
  rw [Record.behind, ← List.map_append]
  rfl

/-- Half waves in a row are played as the counter goes. -/
theorem record_wave (hlow : c.OnLow hw) (h : Wave c pin xs past.length ups A n)
    (hlimit : n ≤ past.length + limit) :
    (ups.forM (halfWave pin xs) limit).record hw past = ⟨A.map .access, .ok ()⟩ := by
  induction ups generalizing past A with
  | nil =>
    cases h
    rfl
  | cons up ups ih =>
    obtain - | ⟨hturn, hrest⟩ := h
    next m A =>
    have hlength := length_halfWave pin up hturn
    have hle := le_of_inTurn hturn
    have hend := hrest.le
    apply record_cons (record_halfWave_of_inTurn hlow hturn (by omega))
    exact ih (hlength.symm ▸ hrest) (by omega)

/-- Half waves that come to their end were such a row. -/
theorem exists_wave_of_forM (hlow : c.OnLow hw)
    (h : ((ups.forM (halfWave pin xs) limit).record hw past).outcome = .ok ()) :
    ∃ A n, Wave c pin xs past.length ups A n ∧
      (ups.forM (halfWave pin xs) limit).record hw past = ⟨A.map .access, .ok ()⟩ := by
  induction ups generalizing past with
  | nil => exact ⟨[], past.length, .nil, rfl⟩
  | cons up ups ih =>
    obtain ⟨T, _, hT⟩ := Tree.exists_record_of_bind_ok h
    obtain ⟨m, hturn, hfirst⟩ := exists_inTurn_of_halfWave hlow (congrArg Record.outcome hT)
    have hbehind : ((ups.forM (halfWave pin xs) limit).record hw
        (past ++ driven pin up :: c.lows (past.length + 1) m)).outcome = .ok () := by
      have hbind := congrArg Record.outcome (Tree.record_bind_of_ok
        (f := fun _ => ups.forM (halfWave pin xs) limit) hfirst)
      rw [Transcript.accesses_map_access] at hbind
      exact hbind.symm.trans h
    obtain ⟨A, n, hwave, hrest⟩ := ih hbehind
    rw [length_halfWave pin up hturn] at hwave
    exact ⟨_, n, .cons hturn hwave, record_cons hfirst hrest⟩

/-- A counter that goes on leaves room for every row. -/
theorem exists_wave (hc : c.KeepsAdvancing) (hxs : ∀ x ∈ xs, x.toNat ≤ longestDelay) (pin : Pin)
    (k : Nat) (ups : List Bool) : ∃ A n, Wave c pin xs k ups A n := by
  induction ups generalizing k with
  | nil => exact ⟨[], k, .nil⟩
  | cons up ups ih =>
    obtain ⟨m, hturn⟩ := exists_inTurn_stops hc hxs (k + 1)
    obtain ⟨A, n, hwave⟩ := ih m
    exact ⟨_, n, .cons hturn hwave⟩

/-- The program hands on a value, or is given up while it waits. -/
def Unfailing (p : Driver Unit) : Prop :=
  ∀ ⦃limit : Nat⦄ ⦃T : Transcript Board⦄ ⦃s : Stop Unit⦄, (p limit).Runs T s →
    s = .ended (.ok ()) ∨ s = .ended .stalled

theorem Unfailing.bind {p q : Driver Unit} (hp : Unfailing p) (hq : Unfailing q) :
    Unfailing (p >>= fun _ => q) := by
  intro limit T s hT
  rcases Tree.runs_bind.1 hT with ⟨U, V, _, -, -, hV⟩ | ⟨s₀, hU, hs⟩
  · exact hq hV
  · rcases hp hU with rfl | rfl
    · cases hs
    · exact .inr (Option.some.inj hs).symm

theorem unfailing_forM {γ : Type} {f : γ → Driver Unit} (h : ∀ x, Unfailing (f x)) (l : List γ) :
    Unfailing (l.forM f) := by
  induction l with
  | nil => exact fun _ _ _ hT => .inl (Tree.runs_halt.1 hT).2
  | cons x l ih => exact (h x).bind ih

theorem unfailing_delay (ticks : UInt32) : Unfailing (delay ticks) := by
  intro limit T s hT
  rw [delay_eq] at hT
  obtain ⟨start, U, -, hU⟩ := Tree.runs_request.1 hT
  -- every round looks once, and then there is another or there is none
  have hround {V : Transcript Board} {s₀ : Stop (Step Unit Unit)}
      (hV : (delayRound start ticks limit).Runs V s₀) : ∃ y, s₀ = .ended (.ok y) := by
    obtain ⟨w, W, -, hW⟩ := Tree.runs_request.1 hV
    change ((if elapsed start w ticks then pure (.done ()) else pure (.again ()) :
      Driver (Step Unit Unit)) limit).Runs W s₀ at hW
    split at hW
    · exact ⟨_, (Tree.runs_halt.1 hW).2⟩
    · exact ⟨_, (Tree.runs_halt.1 hW).2⟩
  have hlast := @Tree.Runs.last_round _ _ _ _ _ _ (fun _ _ _ => True) _ _ [] hU trivial
    fun _ _ => trivial
  rcases hlast with ⟨-, -, rfl⟩ | ⟨_, _, _, V, -, -, ⟨a, -, rfl⟩ | ⟨s₀, hV, hs⟩⟩
  · exact .inr rfl
  · exact .inl rfl
  · obtain ⟨y, rfl⟩ := hround hV
    cases hs

theorem unfailing_halfWave (pin : Pin) (xs : List UInt32) (up : Bool) :
    Unfailing (halfWave pin xs up) := by
  have hset : Unfailing (Register.setAt
      (bank (if up then GpioBlock.set else GpioBlock.clr) pin) (bit pin)) := by
    intro limit T s hT
    obtain ⟨_, U, -, hU⟩ := Tree.runs_request.1 hT
    exact .inl (Tree.runs_halt.1 hU).2
  exact hset.bind (unfailing_forM unfailing_delay xs)

theorem runs_halfWave {T : Transcript Board} {s : Stop Unit}
    (hT : (halfWave pin xs up limit).Runs T s) :
    T.accesses.filter visitsPins = [driven pin up] := by
  obtain ⟨_, U, rfl, hU⟩ := Tree.runs_request.1 hT
  have htiming : ∀ a ∈ Transcript.accesses U, Timing a :=
    (additive_forall Timing).forM (fun x _ => delay_onlyWaits x) hU
  refine (List.filter_cons_of_pos (visitsPins_driven pin up)).trans ?_
  rw [filter_visitsPins_of_timing htiming]

/-- Wherever a row of half waves is left, the pin was driven to the first of the levels. -/
theorem runs_halfWaves {T : Transcript Board} {s : Stop Unit}
    (hT : (ups.forM (halfWave pin xs) limit).Runs T s) :
    T.accesses.filter visitsPins <+: ups.map (driven pin) := by
  induction ups generalizing T with
  | nil =>
    obtain ⟨rfl, -⟩ := Tree.runs_halt.1 hT
    exact List.nil_prefix
  | cons up ups ih =>
    rcases Tree.runs_bind.1 hT with ⟨U, V, _, rfl, hU, hV⟩ | ⟨s₀, hU, -⟩
    · rw [Transcript.accesses_append, List.filter_append, runs_halfWave hU]
      exact List.prefix_cons_inj _ |>.2 (ih hV)
    · rw [runs_halfWave hU]
      exact List.prefix_cons_inj _ |>.2 List.nil_prefix

end Gpio

end Bcm2835
