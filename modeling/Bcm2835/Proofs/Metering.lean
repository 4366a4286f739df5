import Bcm2835.Budget
import Bcm2835.Proofs.Behaviour

/-! A budget pays for the units of waiting of a run, and cuts it short at the first one it cannot
pay for. `Tree.runs_metered` and `Program.runs_within` say so for the relation, and reduce every
question about a bounded run to the runs of the operation without its budget.
`Program.record_within_of_le` and `Program.record_within_of_lt` say so for the one run on hardware
of a given behaviour. -/

namespace Bcm2835

variable {I : Interface} {α : Type}

namespace Budget

/-- What is left after that many units, if there were so many. -/
def spend? : Budget → Nat → Option Budget
  | unlimited, _ => some unlimited
  | bounded n, k => if k ≤ n then some (bounded (n - k)) else none

@[simp] theorem spend?_zero (b : Budget) : b.spend? 0 = some b := by
  cases b <;> simp [spend?]

@[simp] theorem spend?_unlimited (k : Nat) : unlimited.spend? k = some unlimited := rfl

theorem spend?_bounded {n k : Nat} {b : Budget} :
    (bounded n).spend? k = some b ↔ k ≤ n ∧ b = bounded (n - k) := by
  by_cases h : k ≤ n <;> simp [spend?, h, eq_comm]

theorem spend?_succ {b b' : Budget} (h : b.take? = some b') (k : Nat) :
    b.spend? (k + 1) = b'.spend? k := by
  match b, h with
  | unlimited, rfl => rfl
  | bounded (n + 1), rfl => simp [spend?]

theorem spend?_succ_of_none {b : Budget} (h : b.take? = none) (k : Nat) :
    b.spend? (k + 1) = none := by
  match b, h with
  | bounded 0, _ => rfl

theorem spend?_add (b : Budget) (k m : Nat) :
    b.spend? (k + m) = (b.spend? k).bind fun b => b.spend? m := by
  cases b with
  | unlimited => rfl
  | bounded n =>
    by_cases hk : k ≤ n
    · by_cases hm : k + m ≤ n
      · have hm' : m ≤ n - k := by omega
        simp [spend?, hk, hm, hm', Nat.sub_sub]
      · have hm' : ¬ m ≤ n - k := by omega
        simp [spend?, hk, hm, hm']
    · have hm : ¬ k + m ≤ n := by omega
      simp [spend?, hk, hm]

@[simp] theorem take?_bounded_eq_none {n : Nat} : (bounded n).take? = none ↔ n = 0 := by
  cases n <;> simp [take?]

/-- A budget that is spent after so many units was one of so many. -/
theorem eq_bounded_of_spent {b b' : Budget} {k : Nat} (h : b.spend? k = some b')
    (hspent : b'.take? = none) : b = bounded k := by
  cases b with
  | unlimited =>
    cases h
    cases hspent
  | bounded n =>
    obtain ⟨hle, rfl⟩ := spend?_bounded.1 h
    have hzero : n - k = 0 := take?_bounded_eq_none.1 hspent
    rw [Nat.le_antisymm hle (Nat.le_of_sub_eq_zero hzero)]

end Budget

namespace Stop

/-- The stop of a metered run, with the budget that is left there. -/
def settle (b : Budget) : Stop α → Stop (Except Error α × Budget)
  | ended (.ok a) => ended (.ok (.ok a, b))
  | ended (.error e) => ended (.ok (.error e, b))
  | ended (.fault f) => ended (.fault f)
  | ended .stalled => ended .stalled
  | waiting => if b.take? = none then ended (.ok (.error .timeout, b)) else waiting

/-- A stop at a unit that cannot be paid for is a timeout. -/
def cut (b : Budget) : Stop α → Stop α
  | ended o => ended o
  | waiting => if b.take? = none then ended (.error .timeout) else waiting

theorem cut_eq_ok {b : Budget} {s : Stop α} {a : α} :
    s.cut b = .ended (.ok a) ↔ s = .ended (.ok a) := by
  match s with
  | ended o => exact Iff.rfl
  | waiting =>
    rw [cut]
    split
    · simp
    · simp

theorem cut_eq_fault {b : Budget} {s : Stop α} {f : Fault} :
    s.cut b = .ended (.fault f) ↔ s = .ended (.fault f) := by
  match s with
  | ended o => exact Iff.rfl
  | waiting =>
    rw [cut]
    split
    · simp
    · simp

end Stop

namespace Tree

variable {T : Transcript I}

/-- The runs of a metered tree are the runs of the tree that the budget pays for, cut short where
the next unit is one too many. -/
theorem runs_metered {t : Tree I α} {b : Budget} {s : Stop (Except Error α × Budget)} :
    (t.metered b).Runs T s ↔
      ∃ s₀ b', t.Runs T s₀ ∧ b.spend? T.ticks = some b' ∧ s = s₀.settle b' := by
  induction t generalizing b T with
  | halt o =>
    constructor
    · intro h
      cases o <;> obtain ⟨rfl, rfl⟩ := runs_halt.1 h <;> exact ⟨_, b, .halt _, by simp, rfl⟩
    · rintro ⟨s₀, b', h, hb, rfl⟩
      obtain ⟨rfl, rfl⟩ := runs_halt.1 h
      obtain rfl : b = b' := by simpa using hb
      cases o <;> exact .halt _
  | tick next ih =>
    cases hb : b.take? with
    | none =>
      simp only [metered, hb, runs_halt]
      constructor
      · rintro ⟨rfl, rfl⟩
        exact ⟨_, b, .waiting _, by simp, by simp [Stop.settle, hb]⟩
      · rintro ⟨s₀, b', h, h', rfl⟩
        rcases runs_tick.1 h with ⟨rfl, rfl⟩ | ⟨U, rfl, -⟩
        · obtain rfl : b = b' := by simpa using h'
          simp [Stop.settle, hb]
        · simp [Budget.spend?_succ_of_none hb] at h'
    | some c =>
      simp only [metered, hb, runs_tick, ih]
      constructor
      · rintro (⟨rfl, rfl⟩ | ⟨U, rfl, s₀, b', h, h', rfl⟩)
        · exact ⟨_, b, .inl ⟨rfl, rfl⟩, by simp, by simp [Stop.settle, hb]⟩
        · exact ⟨s₀, b', .inr ⟨U, rfl, h⟩, by simpa [Budget.spend?_succ hb] using h', rfl⟩
      · rintro ⟨s₀, b', ⟨rfl, rfl⟩ | ⟨U, rfl, h⟩, h', rfl⟩
        · obtain rfl : b = b' := by simpa using h'
          exact .inl ⟨rfl, by simp [Stop.settle, hb]⟩
        · exact .inr ⟨U, rfl, s₀, b', h, by simpa [Budget.spend?_succ hb] using h', rfl⟩
  | report n next ih =>
    simp only [metered, runs_report, ih]
    constructor
    · rintro ⟨U, rfl, s₀, b', h, h', rfl⟩
      exact ⟨s₀, b', ⟨U, rfl, h⟩, h', rfl⟩
    · rintro ⟨s₀, b', ⟨U, rfl, h⟩, h', rfl⟩
      exact ⟨U, rfl, s₀, b', h, h', rfl⟩
  | request r next ih =>
    simp only [metered, runs_request, ih]
    constructor
    · rintro ⟨a, U, rfl, s₀, b', h, h', rfl⟩
      exact ⟨s₀, b', ⟨a, U, rfl, h⟩, h', rfl⟩
    · rintro ⟨s₀, b', ⟨a, U, rfl, h⟩, h', rfl⟩
      exact ⟨a, U, rfl, s₀, b', h, h', rfl⟩

/-- Before each of its units of waiting a run can be looked at. -/
theorem Runs.before_tick {t : Tree I α} {U : Transcript I} {s : Stop α}
    (h : t.Runs (T ++ .tick :: U) s) : t.Runs T .waiting := by
  induction T generalizing t with
  | nil =>
    cases h with
    | tick h => exact .waiting _
  | cons e T ih =>
    cases h with
    | tick h => exact .tick (ih h)
    | report n h => exact .report n (ih h)
    | request a h => exact .request a (ih h)

end Tree

/-- A transcript with more than `n` units of waiting up to the unit with number `n + 1`. -/
theorem Transcript.exists_eq_append_tick {T : Transcript I} {n : Nat} (h : n < T.ticks) :
    ∃ U V : Transcript I, T = U ++ .tick :: V ∧ U.ticks = n := by
  induction T generalizing n with
  | nil => simp at h
  | cons e T ih =>
    cases e with
    | tick =>
      cases n with
      | zero => exact ⟨[], T, rfl, rfl⟩
      | succ n =>
        obtain ⟨U, V, rfl, rfl⟩ := ih (by simpa using h)
        exact ⟨.tick :: U, V, rfl, rfl⟩
    | access a =>
      obtain ⟨U, V, rfl, rfl⟩ := ih h
      exact ⟨.access a :: U, V, rfl, rfl⟩
    | report m =>
      obtain ⟨U, V, rfl, rfl⟩ := ih h
      exact ⟨.report m :: U, V, rfl, rfl⟩

namespace Program

variable {p : Program I α} {limit n : Nat} {T : Transcript I} {s : Stop α} {o : Outcome α}

/-- What is done with the result of a metered run. -/
private theorem runs_conclude {b : Budget} {s₀ : Stop α} {t : Tree I (Except Error α × Budget)}
    (h : t.Runs T (s₀.settle b)) :
    (t.bind fun x => ofExcept x.1 limit).Runs T (s₀.cut b) := by
  have hand {x : Except Error α × Budget} {s : Stop α} (h : t.Runs T (.ended (.ok x)))
      (hx : (ofExcept x.1 limit : Tree I α).Runs [] s) :
      (t.bind fun x => ofExcept x.1 limit).Runs T s := by
    simpa using h.bind (f := fun x => ofExcept x.1 limit) hx
  match s₀ with
  | .ended (.ok a) => exact hand h (.halt _)
  | .ended (.error e) => exact hand h (.halt _)
  | .ended (.fault f) => exact h.bind_early rfl
  | .ended .stalled => exact h.bind_early rfl
  | .waiting =>
    by_cases hb : b.take? = none
    · simp only [Stop.settle, Stop.cut, hb, if_true] at h ⊢
      exact hand h (.halt _)
    · simp only [Stop.settle, Stop.cut, hb, if_false] at h ⊢
      exact h.bind_early rfl

/-- The runs of an operation under a budget are the runs that the budget pays for, cut short by a
timeout where the next unit is one too many. -/
theorem runs_within {b : Budget} :
    (within b p limit).Runs T s ↔
      ∃ s₀ b', (p limit).Runs T s₀ ∧ b.spend? T.ticks = some b' ∧ s = s₀.cut b' := by
  have hw : within b p limit = ((p limit).metered b).bind fun x => ofExcept x.1 limit := rfl
  rw [hw]
  constructor
  · intro h
    rcases Tree.runs_bind.1 h with ⟨U, V, x, rfl, hU, hV⟩ | ⟨s₁, hm, hs⟩
    · obtain ⟨s₀, b', hU, hb, hx⟩ := Tree.runs_metered.1 hU
      obtain ⟨rfl, rfl⟩ : V = [] ∧ s = s₀.cut b' := by
        match s₀ with
        | .ended (.ok a) => cases hx; exact Tree.runs_halt.1 hV
        | .ended (.error e) => cases hx; exact Tree.runs_halt.1 hV
        | .ended (.fault f) => cases hx
        | .ended .stalled => cases hx
        | .waiting =>
          by_cases hb' : b'.take? = none
          · simp only [Stop.settle, Stop.cut, hb', if_true] at hx ⊢
            cases hx; exact Tree.runs_halt.1 hV
          · simp [Stop.settle, hb'] at hx
      exact ⟨s₀, b', by simpa using hU, by simpa using hb, rfl⟩
    · obtain ⟨s₀, b', hT, hb, rfl⟩ := Tree.runs_metered.1 hm
      refine ⟨s₀, b', hT, hb, ?_⟩
      match s₀ with
      | .ended (.ok a) => cases hs
      | .ended (.error e) => cases hs
      | .ended (.fault f) => cases hs; rfl
      | .ended .stalled => cases hs; rfl
      | .waiting =>
        by_cases hb' : b'.take? = none
        · simp [Stop.settle, Stop.early?, hb'] at hs
        · simp only [Stop.settle, Stop.cut, hb', if_false] at hs ⊢
          cases hs; rfl
  · rintro ⟨s₀, b', h, hb, rfl⟩
    exact runs_conclude (Tree.runs_metered.2 ⟨s₀, b', h, hb, rfl⟩)

@[simp] theorem runs_within_unlimited :
    (within .unlimited p limit).Runs T s ↔ (p limit).Runs T s := by
  rw [runs_within]
  constructor
  · rintro ⟨s₀, b', h, hb, rfl⟩
    obtain rfl : b' = .unlimited := by simpa [eq_comm] using hb
    cases s₀ <;> exact h
  · intro h
    exact ⟨s, .unlimited, h, rfl, by cases s <;> rfl⟩

/-- A success under a budget is a success without it that the budget pays for. -/
theorem runs_within_ok {b : Budget} {a : α} :
    (within b p limit).Runs T (.ended (.ok a)) ↔
      (p limit).Runs T (.ended (.ok a)) ∧ ∃ b', b.spend? T.ticks = some b' := by
  rw [runs_within]
  constructor
  · rintro ⟨s₀ | -, b', h, hb, ho⟩
    · cases ho
      exact ⟨h, b', hb⟩
    · rw [Stop.cut] at ho
      split at ho <;> cases ho
  · rintro ⟨h, b', hb⟩
    exact ⟨_, b', h, hb, rfl⟩

/-- A bounded run to the end: the run itself, if it makes do with the budget, or the part of a run
before the first unit too many. -/
theorem runs_within_bounded :
    (within (.bounded n) p limit).Runs T (.ended o) ↔
      ((p limit).Runs T (.ended o) ∧ T.ticks ≤ n) ∨
        ((p limit).Runs T .waiting ∧ T.ticks = n ∧ o = .error .timeout) := by
  simp only [runs_within, Budget.spend?_bounded]
  constructor
  · rintro ⟨s₀ | -, b', h, ⟨hn, rfl⟩, ho⟩
    · cases ho; exact .inl ⟨h, hn⟩
    · by_cases hk : n - T.ticks = 0
      · simp only [Stop.cut, Budget.take?_bounded_eq_none, hk, if_true] at ho
        cases ho; exact .inr ⟨h, by omega, rfl⟩
      · simp [Stop.cut, hk] at ho
  · rintro (⟨h, hn⟩ | ⟨h, rfl, rfl⟩)
    · exact ⟨_, _, h, ⟨hn, rfl⟩, rfl⟩
    · exact ⟨_, _, h, ⟨Nat.le_refl _, rfl⟩, by simp [Stop.cut]⟩

variable {hw : Behaviour I}

theorem record_within_unlimited : (within .unlimited p).record hw limit = p.record hw limit :=
  Tree.record_eq_of_runs (runs_within_unlimited.2 (Tree.runs_record ..)) (Tree.answers_record ..)

theorem record_within_of_le (h : (p.record hw limit).ticks ≤ n) :
    (within (.bounded n) p).record hw limit = p.record hw limit :=
  Tree.record_eq_of_runs (runs_within_bounded.2 (.inl ⟨Tree.runs_record .., h⟩))
    (Tree.answers_record ..)

/-- The bounded run on the same hardware, where the budget does not do. -/
theorem record_within_of_lt (h : n < (p.record hw limit).ticks) :
    ∃ U V : Transcript I, (p.record hw limit).transcript = U ++ .tick :: V ∧ U.ticks = n ∧
      (within (.bounded n) p).record hw limit = ⟨U, .error .timeout⟩ := by
  obtain ⟨U, V, hU, rfl⟩ := Transcript.exists_eq_append_tick h
  refine ⟨U, V, hU, rfl, Tree.record_eq_of_runs (runs_within_bounded.2 (.inr ⟨?_, rfl, rfl⟩)) ?_⟩
  · have hr := Tree.runs_record hw (p limit) []
    exact (hU ▸ hr).before_tick
  · have ha := Tree.answers_record hw (p limit) []
    rw [show (Tree.record hw (p limit) []).transcript = _ from hU, Transcript.accesses_append] at ha
    exact (Behaviour.answers_append.1 ha).1

end Program

end Bcm2835
