import Mathlib.Order.Bounds.Basic
import Bcm2835.Proofs.Board
import Bcm2835.Proofs.Sampling
import Bcm2835.Proofs.SystemTimer.Counter

/-! Waiting by looks at the low word alone. A delay is over at the first look at which the words say
so (`Counter.Stops`), and that is never too early, however often the counter has wrapped. It is the
first look at which the time has really passed (`Counter.Reaches`) unless two looks are so far apart
that the words of the end are jumped over (`Reaches.stops`). -/

namespace Bcm2835.SystemTimer

open Program

namespace Counter

/-- The looks from this access on, up to that one. -/
def lows (c : Counter) (k n : Nat) : List (Access Board) := (List.range' k (n - k)).map c.lowAt

/-- A call that has looked at the low word in all these accesses, and did nothing else. -/
def watch (c : Counter) (k n : Nat) : Record Board Unit := ⟨(c.lows k n).map .access, .ok ()⟩

/-- The first look at which the words say that the ticks have passed since look `k`. -/
def Stops (c : Counter) (k : Nat) (ticks : UInt32) (m : Nat) : Prop :=
  IsLeast {m | k < m ∧ elapsed (c.low k) (c.low m) ticks} m

/-- The first look at which the ticks have passed since look `k`. -/
def Reaches (c : Counter) (k : Nat) (ticks : UInt32) (m : Nat) : Prop :=
  IsLeast {m | k < m ∧ c.ticks k + ticks.toNat ≤ c.ticks m} m

/-- Looks from `k` to `m` that are no more than `gap` ticks apart. -/
def Close (c : Counter) (gap k m : Nat) : Prop :=
  ∀ n, k ≤ n → n < m → c.ticks (n + 1) ≤ c.ticks n + gap

variable {c : Counter} {k m n : Nat} {ticks : UInt32}

theorem lows_append (hkm : k ≤ m) (hmn : m ≤ n) : c.lows k m ++ c.lows m n = c.lows k n := by
  obtain ⟨i, rfl⟩ := Nat.exists_eq_add_of_le hkm
  obtain ⟨j, rfl⟩ := Nat.exists_eq_add_of_le hmn
  rw [lows, lows, lows, ← List.map_append, Nat.add_sub_cancel_left, Nat.add_sub_cancel_left,
    List.range'_append_1, Nat.add_assoc, Nat.add_sub_cancel_left]

theorem length_lows (c : Counter) (k n : Nat) : (c.lows k n).length = n - k := by
  rw [lows, List.length_map, List.length_range']

theorem lows_succ (h : k < n) : c.lows k n = c.lowAt k :: c.lows (k + 1) n := by
  rw [← lows_append (Nat.le_add_right k 1) h, lows, Nat.add_sub_cancel_left]
  rfl

/-- The words tell the time that has passed, up to whole turns. -/
theorem elapsed_low (h : k ≤ m) :
    elapsed (c.low k) (c.low m) ticks ↔ ticks.toNat ≤ (c.ticks m - c.ticks k) % 2 ^ 32 := by
  rw [elapsed, decide_eq_true_iff, UInt32.le_iff_toNat_le, toNat_low_sub h]

/-- What the words say has passed has passed. -/
theorem passed_of_elapsed (hkm : k ≤ m) (h : elapsed (c.low k) (c.low m) ticks) :
    c.ticks k + ticks.toNat ≤ c.ticks m := by
  have hmono : c.ticks k ≤ c.ticks m := c.mono hkm
  have hdistance : ticks.toNat ≤ c.ticks m - c.ticks k :=
    Nat.le_trans ((elapsed_low hkm).1 h) (Nat.mod_le ..)
  omega

/-- Before the time has passed the counter has not made a whole turn, if the looks are close. -/
theorem Reaches.elapsed (h : c.Reaches k ticks m) (hclose : c.Close (2 ^ 32 - ticks.toNat) k m) :
    elapsed (c.low k) (c.low m) ticks := by
  obtain ⟨hkm, hpassed⟩ := h.1
  rw [elapsed_low hkm.le]
  obtain hzero | hpos := Nat.eq_zero_or_pos ticks.toNat
  · rw [hzero]
    exact Nat.zero_le _
  obtain ⟨n, rfl⟩ := Nat.exists_eq_add_of_lt hkm
  have hbefore : c.ticks (k + n) < c.ticks k + ticks.toNat := by
    by_contra hover
    obtain rfl | hn := Nat.eq_zero_or_pos n
    · exact hover (Nat.lt_add_of_pos_right hpos)
    · have hfirst : k + n + 1 ≤ k + n := h.2 ⟨Nat.lt_add_of_pos_right hn, Nat.le_of_not_lt hover⟩
      exact Nat.not_succ_le_self _ hfirst
  have hgap := hclose (k + n) (Nat.le_add_right ..) (Nat.lt_succ_self _)
  have hturn : c.ticks (k + n + 1) - c.ticks k < 2 ^ 32 := by
    have := ticks.toNat_lt
    omega
  rw [Nat.mod_eq_of_lt hturn]
  exact Nat.le_sub_of_add_le' hpassed

/-- Looks that are close enough do not miss the end. -/
theorem Reaches.stops (h : c.Reaches k ticks m) (hclose : c.Close (2 ^ 32 - ticks.toNat) k m) :
    c.Stops k ticks m :=
  ⟨⟨h.1.1, h.elapsed hclose⟩, fun _ hn => h.2 ⟨hn.1, passed_of_elapsed hn.1.le hn.2⟩⟩

end Counter

/-- One more look. -/
def delayRound (start ticks : UInt32) : Driver (Step Unit Unit) := do
  if elapsed start (← now) ticks then return .done ()
  return .again ()

theorem delay_eq (ticks : UInt32) :
    delay ticks = StBlock.clo.get >>= fun start => loop (fun _ => delayRound start ticks) () := rfl

namespace Counter

variable {c : Counter} {hw : Behaviour Board} {k m n limit : Nat} {ticks : UInt32}
  {xs : List UInt32} {past : List (Access Board)}

theorem record_delayRound (hlow : c.OnLow hw) (start : UInt32) :
    (delayRound start ticks limit).record hw past = ⟨[.access (c.lowAt past.length)],
      .ok (if elapsed start (c.low past.length) ticks then .done () else .again ())⟩ := by
  rw [delayRound, now, Register.record_get (hlow _)]
  by_cases h : elapsed start (c.low past.length) ticks
  · rw [if_pos h, if_pos h]
    rfl
  · rw [if_neg h, if_neg h]
    rfl

/-- The looks of one delay that began with this word. -/
def delaySampling (hlow : c.OnLow hw) (start ticks : UInt32) (limit : Nat) :
    Sampling hw (delayRound start ticks limit) where
  looks n := [c.lowAt n]
  width := 1
  Hit n := elapsed start (c.low n) ticks
  value _ := ()
  length_looks _ := rfl
  record_round _ := record_delayRound hlow start

theorem rounds_delaySampling (hlow : c.OnLow hw) (start : UInt32) (k n : Nat) :
    (delaySampling hlow start ticks limit).rounds k n = c.lows k (k + n) := by
  induction n generalizing k with
  | zero => rw [Nat.add_zero, lows, Nat.sub_self]; rfl
  | succ n ih =>
    have hplace : k + (n + 1) = k + 1 + n := Nat.add_right_comm k n 1
    rw [Sampling.rounds_succ, ih, lows_succ (Nat.lt_add_of_pos_right (Nat.succ_pos n)), hplace]
    rfl

theorem hit_delaySampling (hlow : c.OnLow hw) (start : UInt32) (k j : Nat) :
    let S := delaySampling hlow start ticks limit
    S.Hit (k + S.width * j) ↔ elapsed start (c.low (k + j)) ticks := by
  change elapsed start (c.low (k + 1 * j)) ticks ↔ _
  rw [Nat.one_mul]

theorem record_rounds (hlow : c.OnLow hw) (hk : past.length = k) {start : UInt32} {i : Nat}
    (hmiss : ∀ j < i, ¬ elapsed start (c.low (k + j)) ticks)
    (hhit : elapsed start (c.low (k + i)) ticks) (hi : i < limit) :
    (loop (fun _ => delayRound start ticks) () limit).record hw past =
      c.watch k (k + (i + 1)) := by
  subst hk
  have hrun := (delaySampling hlow start ticks limit).record_of_first
    (fun j hj => (hit_delaySampling ..).not.2 (hmiss j hj)) ((hit_delaySampling ..).2 hhit) hi
  rw [rounds_delaySampling] at hrun
  exact hrun

theorem exists_first_of_rounds (hlow : c.OnLow hw) (hk : past.length = k) {start : UInt32}
    (h : ((loop (fun _ => delayRound start ticks) () limit).record hw past).outcome = .ok ()) :
    ∃ i < limit, (∀ j < i, ¬ elapsed start (c.low (k + j)) ticks) ∧
      elapsed start (c.low (k + i)) ticks := by
  subst hk
  obtain ⟨i, hi, hmiss, hhit, -⟩ := (delaySampling hlow start ticks limit).exists_first_of_ok h
  exact ⟨i, hi, fun j hj => (hit_delaySampling ..).not.1 (hmiss j hj),
    (hit_delaySampling ..).1 hhit⟩

theorem length_behind (past : List (Access Board)) :
    (past ++ [c.lowAt past.length]).length = past.length + 1 := List.length_append

/-- A delay goes on until the words say that it is over. -/
theorem record_delay (hlow : c.OnLow hw) (h : c.Stops past.length ticks m)
    (hlimit : m ≤ past.length + limit) :
    (delay ticks limit).record hw past = c.watch past.length (m + 1) := by
  obtain ⟨i, rfl⟩ := Nat.exists_eq_add_of_le (Nat.succ_le_of_lt h.1.1)
  have hmiss : ∀ j < i, ¬ elapsed (c.low past.length) (c.low (past.length + 1 + j)) ticks := by
    intro j hj hsays
    have hfirst : past.length + 1 + i ≤ past.length + 1 + j := h.2 ⟨by omega, hsays⟩
    omega
  have hloop : (loop (fun _ => delayRound (c.low past.length) ticks) () limit).record hw
      (past ++ [c.lowAt past.length]) = c.watch (past.length + 1) (past.length + 1 + (i + 1)) :=
    record_rounds hlow (length_behind past) hmiss h.1.2 (by omega)
  rw [delay_eq, Register.record_get (hlow _)]
  refine (congrArg (Record.after _) hloop).trans ?_
  rw [watch, watch, lows_succ (k := past.length) (by omega)]
  rfl

/-- A delay that returns has come to such an end. -/
theorem exists_stops_of_delay (hlow : c.OnLow hw)
    (h : ((delay ticks limit).record hw past).outcome = .ok ()) :
    ∃ m ≤ past.length + limit, c.Stops past.length ticks m := by
  rw [delay_eq, Register.record_get (hlow _)] at h
  obtain ⟨i, hi, hmiss, hsays⟩ := exists_first_of_rounds hlow (length_behind past) h
  refine ⟨past.length + 1 + i, by omega, ⟨by omega, hsays⟩, fun n hn => ?_⟩
  obtain ⟨hlt, hn⟩ := hn
  by_contra hbefore
  obtain ⟨j, rfl⟩ := Nat.exists_eq_add_of_le (Nat.succ_le_of_lt hlt)
  exact hmiss j (by omega) hn

end Counter

/-- A delay looks at the low word of the counter, and at nothing else. -/
theorem delay_onlyWaits : Board.OnlyWaits delay := by
  intro ticks
  have hP := additive_forall Board.Timing
  have hnow : now.Leaves fun A => ∀ a ∈ A, Board.Timing a :=
    StBlock.clo.leaves_get fun _ => List.forall_mem_singleton.2 (.inl rfl)
  apply hP.bind hnow
  intro _
  apply hP.loop
  intro _
  apply hP.bind hnow
  intro _
  split
  · exact hP.pure _
  · exact hP.pure _

end Bcm2835.SystemTimer
