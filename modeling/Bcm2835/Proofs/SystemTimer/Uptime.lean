import Mathlib.Data.Nat.Find
import Bcm2835.Proofs.Sampling
import Bcm2835.Proofs.SystemTimer.Counter

/-! The whole counter out of its two words. The low word may wrap between the looks at them, and
then the words belong to different turns; the high word has moved in that case, and the words are
read again. What comes out in the end is where the counter stood at one look at the low word
(`uptime_never_torn`). -/

namespace Bcm2835.SystemTimer

open Program

/-- One attempt to read both words of the same turn. -/
def uptimeRound : Driver (Step Unit UInt64) := do
  let high ← StBlock.chi.get
  let low ← StBlock.clo.get
  if (← StBlock.chi.get) = high then
    return .done (high.toUInt64 <<< 32 ||| low.toUInt64)
  return .again ()

theorem uptime_eq : uptime = loop (fun _ => uptimeRound) () := rfl

namespace Counter

/-- The high word is the same on both sides of the low word. -/
def Settled (c : Counter) (n : Nat) : Prop := c.high n = c.high (n + 2)

instance (c : Counter) (n : Nat) : Decidable (c.Settled n) := inferInstanceAs (Decidable (_ = _))

/-- The accesses of one attempt. -/
def wordsAt (c : Counter) (n : Nat) : List (Access Board) :=
  [c.highAt n, c.lowAt (n + 1), c.highAt (n + 2)]

/-- What comes out of an attempt that succeeds. -/
def reading (c : Counter) (n : Nat) : UInt64 :=
  (c.high n).toUInt64 <<< 32 ||| (c.low (n + 1)).toUInt64

variable {c : Counter} {hw : Behaviour Board} {i k n : Nat} {past : List (Access Board)}

theorem record_uptimeRound (hlow : c.OnLow hw) (hhigh : c.OnHigh hw) (limit : Nat) :
    (uptimeRound limit).record hw past = ⟨(c.wordsAt past.length).map .access,
      .ok (if c.Settled past.length then .done (c.reading past.length) else .again ())⟩ := by
  rw [uptimeRound, Register.record_get (hhigh _), Register.record_get (hlow _),
    Register.record_get (hhigh _)]
  simp only [List.length_append, List.length_cons, List.length_nil]
  by_cases h : c.Settled past.length
  · rw [if_pos h, if_pos h.symm]
    rfl
  · rw [if_neg h, if_neg (Ne.symm h)]
    rfl

/-- The attempts of one call. -/
def uptimeSampling (hlow : c.OnLow hw) (hhigh : c.OnHigh hw) (limit : Nat) :
    Sampling hw (uptimeRound limit) where
  looks := c.wordsAt
  width := 3
  Hit := c.Settled
  value := c.reading
  length_looks _ := rfl
  record_round _ := record_uptimeRound hlow hhigh limit

/-- If the high word did not move, the words are those of the look at the low one. -/
theorem toNat_reading (hlt : ∀ n, c.ticks n < 2 ^ 64) (h : c.Settled n) :
    (c.reading n).toNat = c.ticks (n + 1) := by
  have hturn : c.ticks n / 2 ^ 32 = c.ticks (n + 2) / 2 ^ 32 := by
    rw [← toNat_high (hlt n), ← toNat_high (hlt (n + 2))]
    exact congrArg UInt32.toNat h
  have hbefore : c.ticks n / 2 ^ 32 ≤ c.ticks (n + 1) / 2 ^ 32 :=
    Nat.div_le_div_right (c.mono (Nat.le_succ n))
  have hafter : c.ticks (n + 1) / 2 ^ 32 ≤ c.ticks (n + 2) / 2 ^ 32 :=
    Nat.div_le_div_right (c.mono (Nat.le_succ (n + 1)))
  rw [reading, toNat_join, toNat_high (hlt n), toNat_low]
  omega

/-- Each attempt that fails takes the counter into another turn. -/
theorem le_turns (h : ∀ j < i, ¬ c.Settled (k + 3 * j)) : i ≤ c.ticks (k + 3 * i) / 2 ^ 32 := by
  induction i with
  | zero => exact Nat.zero_le _
  | succ i ih =>
    have hturns := ih fun j hj => h j (Nat.lt_succ_of_lt hj)
    have hmoved : c.ticks (k + 3 * i) / 2 ^ 32 ≠ c.ticks (k + 3 * i + 2) / 2 ^ 32 :=
      fun heq => h i (Nat.lt_succ_self i) (congrArg UInt32.ofNat heq)
    have hduring : c.ticks (k + 3 * i) / 2 ^ 32 ≤ c.ticks (k + 3 * i + 2) / 2 ^ 32 :=
      Nat.div_le_div_right (c.mono (Nat.le_add_right _ 2))
    have hafter : c.ticks (k + 3 * i + 2) / 2 ^ 32 ≤ c.ticks (k + 3 * (i + 1)) / 2 ^ 32 :=
      Nat.div_le_div_right (c.mono (Nat.le_succ _))
    omega

/-- A counter of 64 bits has too few turns for every attempt to fail. -/
theorem exists_first_settled (hlt : ∀ n, c.ticks n < 2 ^ 64) (k : Nat) :
    ∃ i, (∀ j < i, ¬ c.Settled (k + 3 * j)) ∧ c.Settled (k + 3 * i) := by
  have hexists : ∃ i, c.Settled (k + 3 * i) := by
    by_contra hnone
    have hturns : 2 ^ 32 ≤ c.ticks (k + 3 * 2 ^ 32) / 2 ^ 32 :=
      le_turns fun j _ hj => hnone ⟨j, hj⟩
    have hbound := hlt (k + 3 * 2 ^ 32)
    omega
  exact ⟨Nat.find hexists, fun j hj => Nat.find_min hexists hj, Nat.find_spec hexists⟩

theorem record_uptime (hlow : c.OnLow hw) (hhigh : c.OnHigh hw) {limit : Nat}
    (hmoved : ∀ j < i, ¬ c.Settled (past.length + 3 * j)) (hi : c.Settled (past.length + 3 * i))
    (hlimit : i < limit) :
    (uptime limit).record hw past =
      ⟨((List.range (i + 1)).flatMap fun j => c.wordsAt (past.length + 3 * j)).map .access,
        .ok (c.reading (past.length + 3 * i))⟩ := by
  rw [uptime_eq]
  exact (uptimeSampling hlow hhigh limit).record_of_first hmoved hi hlimit

/-- A call that returns was settled in some attempt, and returns what it read in it. -/
theorem exists_settled_of_uptime (hlow : c.OnLow hw) (hhigh : c.OnHigh hw) {limit : Nat}
    {v : UInt64} (h : ((uptime limit).record hw past).outcome = .ok v) :
    ∃ i, c.Settled (past.length + 3 * i) ∧ v = c.reading (past.length + 3 * i) := by
  obtain ⟨i, -, -, hi, hvalue⟩ := (uptimeSampling hlow hhigh limit).exists_first_of_ok h
  exact ⟨i, hi, hvalue⟩

end Counter

/-- Stands right before a turn once. -/
def Counter.turning : Counter where
  ticks n := 0xFFFFFFFF + min n 1
  mono _ _ _ := by
    dsimp only
    omega

/-- On a counter of 64 bits the first attempt with the same high word on both sides of the low word
ends the call, and there is one. What comes out is where the counter stood at the last look at the
low word. So it lies between where the counter stood at the first and at the last look of the call,
and no later call gives less. -/
theorem uptime_never_torn (c : Counter) (hlt : ∀ n, c.ticks n < 2 ^ 64) {hw : Behaviour Board}
    (hlow : c.OnLow hw) (hhigh : c.OnHigh hw) (past : List (Access Board)) :
    ∃ (i : Nat) (v : UInt64) (A : List (Access Board)),
      (∀ j < i, ¬ c.Settled (past.length + 3 * j)) ∧ c.Settled (past.length + 3 * i) ∧
      A = (List.range (i + 1)).flatMap (fun j => c.wordsAt (past.length + 3 * j)) ∧
      v.toNat = c.ticks (past.length + 3 * i + 1) ∧
      c.ticks past.length ≤ v.toNat ∧ v.toNat ≤ c.ticks (past.length + 3 * i + 2) ∧
      (∀ limit > i, (uptime limit).record hw past = ⟨A.map .access, .ok v⟩) ∧
      (∀ limit ≤ i, ((uptime limit).record hw past).outcome = .stalled) ∧
      ∀ later limit w, past ++ A <+: later →
        ((uptime limit).record hw later).outcome = .ok w → v ≤ w := by
  obtain ⟨i, hmoved, hi⟩ := c.exists_first_settled hlt past.length
  have hv := Counter.toNat_reading hlt hi
  refine ⟨i, _, _, hmoved, hi, rfl, hv, ?_, ?_, ?_, ?_, ?_⟩
  · rw [hv]
    exact c.mono (by omega)
  · rw [hv]
    exact c.mono (Nat.le_succ _)
  · exact fun limit hlimit => Counter.record_uptime hlow hhigh hmoved hi hlimit
  · intro limit hlimit
    apply (Counter.uptimeSampling hlow hhigh limit).outcome_stalled
    exact fun j hj => hmoved j (Nat.lt_of_lt_of_le hj hlimit)
  · intro later limit w hlater hw
    obtain ⟨i', hi', rfl⟩ := Counter.exists_settled_of_uptime hlow hhigh hw
    rw [UInt64.le_iff_toNat_le, hv, Counter.toNat_reading hlt hi']
    have hlength : (past ++ (List.range (i + 1)).flatMap fun j =>
        c.wordsAt (past.length + 3 * j)).length = past.length + 3 * (i + 1) := by
      rw [List.length_append]
      exact congrArg (past.length + ·) ((Counter.uptimeSampling hlow hhigh limit).length_rounds ..)
    have hle : past.length + 3 * (i + 1) ≤ later.length := hlength ▸ hlater.length_le
    apply c.mono
    omega

/-- The low word wraps right behind the first look at the high one, and the second attempt says so.
-/
theorem uptime_never_torn_turning :
    ∃ v : UInt64, v.toNat = 0x100000000 ∧
      (uptime 5).record Counter.turning.board [] =
        ⟨((Counter.turning.wordsAt 0) ++ (Counter.turning.wordsAt 3)).map .access, .ok v⟩ := by
  obtain ⟨i, v, A, hmoved, hi, hA, hv, -, -, hreturns, -, -⟩ :=
    uptime_never_torn Counter.turning (fun n => by simp only [Counter.turning]; omega)
      (Counter.onLow_board _) (Counter.onHigh_board _) []
  have hsecond : i = 1 := by
    match i with
    | 0 => exact absurd hi (by decide)
    | 1 => rfl
    | i + 2 => exact absurd (by decide : Counter.turning.Settled 3) (hmoved 1 (by omega))
  subst hsecond
  refine ⟨v, hv, ?_⟩
  rw [hreturns 5 (by decide), hA]
  rfl

end Bcm2835.SystemTimer
