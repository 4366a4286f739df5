import Bcm2835.Proofs.Transcript

/-! Runs of programs and of their loops. A wait on one request is determined by its answers: some
that were not good enough, each followed by a unit of waiting, and then one that is looked at
(`Tree.runs_poll`); a drain by what it took out (`Tree.runs_sweep`). A run of any other loop goes
through some rounds, and what each of them keeps holds in front of the round the run ends in
(`Tree.Runs.last_round`). -/

namespace Bcm2835

variable {I : Interface} {α β σ : Type}

namespace Transcript

/-- Answers to `r` that were not good enough, each followed by a unit of waiting. -/
def missed {r : I.Request} (misses : List (I.Answer r)) : Transcript I :=
  misses.flatMap fun a => [.access ⟨r, a⟩, .tick]

variable {r : I.Request}

@[simp] theorem missed_nil : missed ([] : List (I.Answer r)) = [] := rfl

@[simp] theorem missed_cons (a : I.Answer r) (misses : List (I.Answer r)) :
    missed (a :: misses) = .access ⟨r, a⟩ :: .tick :: missed misses := rfl

@[simp] theorem ticks_missed (misses : List (I.Answer r)) :
    ticks (missed misses) = misses.length := by
  induction misses with
  | nil => rfl
  | cons a misses ih => simp [ih]

@[simp] theorem accesses_missed (misses : List (I.Answer r)) :
    accesses (missed misses) = misses.map fun a => ⟨r, a⟩ := by
  induction misses with
  | nil => rfl
  | cons a misses ih => simp [ih]

@[simp] theorem reports_missed (misses : List (I.Answer r)) : reports (missed misses) = [] := by
  induction misses with
  | nil => rfl
  | cons a misses ih => simp [ih]

/-- Things that were there and were taken out, each with a unit of waiting behind it. -/
def swept {q : I.Request} (things : List (I.Answer r × I.Answer q)) : Transcript I :=
  things.flatMap fun x => [.access ⟨r, x.1⟩, .access ⟨q, x.2⟩, .tick]

end Transcript

open Transcript

namespace Tree

variable {step : σ → Tree I (Step σ α)} {T : Transcript I} {s : Stop α}

@[simp] theorem runs_rounds_zero {x : σ} :
    (rounds step 0 x).Runs T s ↔ T = [] ∧ s = .ended .stalled := runs_halt

/-- A round hands on a result, or a state to the rounds behind it, or the run ends in it. -/
theorem runs_rounds_succ {n : Nat} {x : σ} :
    (rounds step (n + 1) x).Runs T s ↔
      (∃ a, (step x).Runs T (.ended (.ok (.done a))) ∧ s = .ended (.ok a)) ∨
        (∃ U V y, T = U ++ V ∧ (step x).Runs U (.ended (.ok (.again y))) ∧
          (rounds step n y).Runs V s) ∨
        ∃ s₀ : Stop (Step σ α), (step x).Runs T s₀ ∧ s₀.early? = some s := by
  rw [rounds, runs_bind]
  constructor
  · rintro (⟨U, V, y | a, rfl, h1, h2⟩ | h)
    · exact .inr (.inl ⟨U, V, y, rfl, h1, h2⟩)
    · obtain ⟨rfl, rfl⟩ := runs_halt.1 h2
      exact .inl ⟨a, by simpa using h1, rfl⟩
    · exact .inr (.inr h)
  · rintro (⟨a, h, rfl⟩ | ⟨U, V, y, rfl, h1, h2⟩ | h)
    · exact .inl ⟨T, [], .done a, by simp, h, .halt _⟩
    · exact .inl ⟨U, V, .again y, rfl, h1, h2⟩
    · exact .inr h

theorem Runs.done {n : Nat} {x : σ} {a : α} (h : (step x).Runs T (.ended (.ok (.done a)))) :
    (rounds step (n + 1) x).Runs T (.ended (.ok a)) :=
  runs_rounds_succ.2 (.inl ⟨a, h, rfl⟩)

theorem Runs.again {n : Nat} {x y : σ} {U : Transcript I}
    (h : (step x).Runs T (.ended (.ok (.again y)))) (h' : (rounds step n y).Runs U s) :
    (rounds step (n + 1) x).Runs (T ++ U) s :=
  runs_rounds_succ.2 (.inr (.inl ⟨T, U, y, rfl, h, h'⟩))

/-- A run of rounds goes through some of them, and ends or is looked at in the next, if the limit
leaves one. What the rounds keep holds in front of that last round. -/
theorem Runs.last_round {Inv : Nat → σ → Transcript I → Prop} {n : Nat} {x : σ}
    {past : Transcript I} (h : (rounds step n x).Runs T s) (hx : Inv n x past)
    (keep : ∀ {n x past U y}, Inv (n + 1) x past → (step x).Runs U (.ended (.ok (.again y))) →
      Inv n y (past ++ U)) :
    (∃ y, Inv 0 y (past ++ T) ∧ s = .ended .stalled) ∨
      ∃ m y U V, T = U ++ V ∧ Inv (m + 1) y (past ++ U) ∧
        ((∃ a, (step y).Runs V (.ended (.ok (.done a))) ∧ s = .ended (.ok a)) ∨
          ∃ s₀, (step y).Runs V s₀ ∧ s₀.early? = some s) := by
  induction n generalizing x past T with
  | zero =>
    obtain ⟨rfl, rfl⟩ := runs_rounds_zero.1 h
    exact .inl ⟨x, by simpa using hx, rfl⟩
  | succ n ih =>
    rcases runs_rounds_succ.1 h with ⟨a, hT, rfl⟩ | ⟨U, V, y, rfl, hU, hV⟩ | h
    · exact .inr ⟨n, x, [], T, rfl, by simpa using hx, .inl ⟨a, hT, rfl⟩⟩
    · rcases ih hV (keep hx hU) with ⟨z, hz, rfl⟩ | ⟨m, z, U', V', rfl, hz, h⟩
      · exact .inl ⟨z, by simpa using hz, rfl⟩
      · exact .inr ⟨m, z, U ++ U', V', by simp, by simpa using hz, h⟩
    · exact .inr ⟨n, x, [], T, rfl, by simpa using hx, .inr h⟩

/-- A wait on one request, with that many rounds. -/
def poll (r : I.Request) (good : I.Answer r → Bool) : Nat → Tree I Unit
  | 0 => .halt .stalled
  | n + 1 => .request r fun a => if good a then .halt (.ok ()) else .tick (poll r good n)

/-- The answers that were not good enough come first, each followed by a unit of waiting. Then one
ends the wait, or is followed by a unit of waiting too; with no round left the wait stalls. -/
theorem runs_poll {r : I.Request} {good : I.Answer r → Bool} {n : Nat} {s : Stop Unit} :
    (poll r good n).Runs T s ↔
      ∃ misses : List (I.Answer r), (∀ a ∈ misses, good a = false) ∧
        ((misses.length = n ∧ T = missed misses ∧ s = .ended .stalled) ∨
          (misses.length < n ∧ ∃ a, T = missed misses ++ [.access ⟨r, a⟩] ∧
            s = if good a then .ended (.ok ()) else .waiting)) := by
  induction n generalizing T with
  | zero =>
    rw [poll, runs_halt]
    constructor
    · rintro ⟨rfl, rfl⟩
      exact ⟨[], by simp, .inl ⟨rfl, rfl, rfl⟩⟩
    · rintro ⟨misses, -, ⟨h, rfl, rfl⟩ | ⟨h, -⟩⟩
      · rw [List.length_eq_zero_iff.1 h]; exact ⟨rfl, rfl⟩
      · omega
  | succ n ih =>
    rw [poll, runs_request]
    constructor
    · rintro ⟨a, U, rfl, h⟩
      cases ha : good a with
      | true =>
        obtain ⟨rfl, rfl⟩ := runs_halt.1 (by simpa [ha] using h)
        exact ⟨[], by simp, .inr ⟨by simp, a, by simp, by simp [ha]⟩⟩
      | false =>
        rw [if_neg (by simp [ha]), runs_tick] at h
        rcases h with ⟨rfl, rfl⟩ | ⟨V, rfl, h⟩
        · exact ⟨[], by simp, .inr ⟨by simp, a, by simp, by simp [ha]⟩⟩
        obtain ⟨misses, hm, h⟩ := ih.1 h
        refine ⟨a :: misses, by simpa [ha] using hm, ?_⟩
        rcases h with ⟨hl, rfl, rfl⟩ | ⟨hl, b, rfl, rfl⟩
        · exact .inl ⟨by simp [hl], rfl, rfl⟩
        · exact .inr ⟨by simpa using hl, b, rfl, rfl⟩
    · rintro ⟨_ | ⟨a, misses⟩, hm, h⟩
      · rcases h with ⟨h, -⟩ | ⟨-, a, rfl, rfl⟩
        · simp at h
        refine ⟨a, [], rfl, ?_⟩
        cases good a <;> simp
      · have ha : good a = false := hm a (by simp)
        have hm' : ∀ b ∈ misses, good b = false := fun b hb => hm b (by simp [hb])
        refine ⟨a, ?_⟩
        simp only [ha, Bool.false_eq_true, if_false, runs_tick]
        rcases h with ⟨hl, rfl, rfl⟩ | ⟨hl, b, rfl, rfl⟩
        · exact ⟨_, rfl, .inr ⟨_, rfl, ih.2 ⟨misses, hm', .inl ⟨by simpa using hl, rfl, rfl⟩⟩⟩⟩
        · exact ⟨_, rfl, .inr ⟨_, rfl,
            ih.2 ⟨misses, hm', .inr ⟨by simpa using hl, b, rfl, rfl⟩⟩⟩⟩

/-- Taking things out as long as there are any, with that many rounds. -/
def sweep (r : I.Request) (there : I.Answer r → Bool) (q : I.Request) : Nat → Tree I Unit
  | 0 => .halt .stalled
  | n + 1 => .request r fun a =>
    if there a then .request q fun _ => .tick (sweep r there q n) else .halt (.ok ())

/-- The things that are there come out, each with a unit of waiting behind it, up to the first look
that finds none. -/
theorem runs_sweep {r q : I.Request} {there : I.Answer r → Bool} {n : Nat} {T : Transcript I}
    {s : Stop Unit} :
    (sweep r there q n).Runs T s ↔
      ∃ things : List (I.Answer r × I.Answer q), (∀ x ∈ things, there x.1 = true) ∧
        ((things.length = n ∧ T = swept things ∧ s = .ended .stalled) ∨
          (things.length < n ∧ ∃ a,
            (there a = false ∧ T = swept things ++ [.access ⟨r, a⟩] ∧ s = .ended (.ok ())) ∨
            (there a = true ∧ ∃ b, T = swept things ++ [.access ⟨r, a⟩, .access ⟨q, b⟩] ∧
              s = .waiting))) := by
  induction n generalizing T with
  | zero =>
    constructor
    · intro h
      obtain ⟨rfl, rfl⟩ := runs_halt.1 h
      exact ⟨[], by simp, .inl ⟨rfl, rfl, rfl⟩⟩
    · rintro ⟨things, -, ⟨h, rfl, rfl⟩ | ⟨h, -⟩⟩
      · rw [List.length_eq_zero_iff.1 h]
        exact .halt _
      · omega
  | succ n ih =>
    rw [sweep, runs_request]
    constructor
    · rintro ⟨a, U, rfl, h⟩
      cases ha : there a with
      | false =>
        obtain ⟨rfl, rfl⟩ := runs_halt.1 (by simpa [ha] using h)
        exact ⟨[], by simp, .inr ⟨by simp, a, .inl ⟨ha, rfl, rfl⟩⟩⟩
      | true =>
        rw [if_pos ha] at h
        obtain ⟨b, V, rfl, hV⟩ := runs_request.1 h
        rcases runs_tick.1 hV with ⟨rfl, rfl⟩ | ⟨W, rfl, hW⟩
        · exact ⟨[], by simp, .inr ⟨by simp, a, .inr ⟨ha, b, rfl, rfl⟩⟩⟩
        obtain ⟨things, ht, h⟩ := ih.1 hW
        refine ⟨(a, b) :: things, by simpa [ha] using ht, ?_⟩
        rcases h with ⟨hl, rfl, rfl⟩ | ⟨hl, c, ⟨hc, rfl, rfl⟩ | ⟨hc, d, rfl, rfl⟩⟩
        · exact .inl ⟨by simp [hl], rfl, rfl⟩
        · exact .inr ⟨by simpa using hl, c, .inl ⟨hc, rfl, rfl⟩⟩
        · exact .inr ⟨by simpa using hl, c, .inr ⟨hc, d, rfl, rfl⟩⟩
    · rintro ⟨_ | ⟨⟨a, b⟩, things⟩, ht, h⟩
      · rcases h with ⟨h, -⟩ | ⟨-, a, ⟨ha, rfl, rfl⟩ | ⟨ha, b, rfl, rfl⟩⟩
        · simp at h
        · exact ⟨a, [], rfl, by simp [ha]⟩
        · exact ⟨a, _, rfl, by rw [if_pos ha]; exact .request b (.waiting _)⟩
      · have ha : there a = true := ht (a, b) (by simp)
        have ht' : ∀ x ∈ things, there x.1 = true := fun x hx => ht x (by simp [hx])
        refine ⟨a, .access ⟨q, b⟩ :: .tick :: (T.drop 3), ?_, ?_⟩
        · rcases h with ⟨-, rfl, -⟩ | ⟨-, c, ⟨-, rfl, -⟩ | ⟨-, d, rfl, -⟩⟩ <;> rfl
        · rw [if_pos ha]
          refine .request b (.tick (ih.2 ⟨things, ht', ?_⟩))
          rcases h with ⟨hl, rfl, rfl⟩ | ⟨hl, c, ⟨hc, rfl, rfl⟩ | ⟨hc, d, rfl, rfl⟩⟩
          · exact .inl ⟨by simpa using hl, rfl, rfl⟩
          · exact .inr ⟨by simpa using hl, c, .inl ⟨hc, rfl, rfl⟩⟩
          · exact .inr ⟨by simpa using hl, c, .inr ⟨hc, d, rfl, rfl⟩⟩

end Tree

namespace Program

@[simp] theorem pure_apply (a : α) (limit : Nat) :
    (pure a : Program I α) limit = .halt (.ok a) := rfl

@[simp] theorem bind_apply (p : Program I α) (f : α → Program I β) (limit : Nat) :
    (p >>= f) limit = (p limit).bind fun a => f a limit := rfl

@[simp] theorem map_apply (f : α → β) (p : Program I α) (limit : Nat) :
    (f <$> p) limit = (p limit).bind fun a => .halt (.ok (f a)) := rfl

@[simp] theorem request_apply (r : I.Request) (limit : Nat) :
    (request r : Program I (I.Answer r)) limit = .request r fun a => .halt (.ok a) := rfl

@[simp] theorem tick_apply (limit : Nat) : (tick : Program I Unit) limit = .tick (.halt (.ok ())) :=
  rfl

@[simp] theorem report_apply (n : Notice) (limit : Nat) :
    (report n : Program I Unit) limit = .report n (.halt (.ok ())) := rfl

/-- Asks once and judges the answer. -/
def Asks (p : Program I Bool) (r : I.Request) (good : I.Answer r → Bool) : Prop :=
  ∀ limit, p limit = .request r fun a => .halt (.ok (good a))

/-- A wait on a program that asks once is a wait on its request. -/
theorem Asks.waitUntil_apply {ready : Program I Bool} {r : I.Request} {good : I.Answer r → Bool}
    (h : ready.Asks r good) (limit : Nat) : waitUntil ready limit = .poll r good limit := by
  obtain rfl : ready = fun _ => .request r fun a => .halt (.ok (good a)) := funext h
  -- each round keeps the whole limit for loops of its own, so only the number of rounds goes down
  suffices H : ∀ n, Tree.rounds (fun _ : Unit => (do
      if ← (fun _ => .request r fun a => .halt (.ok (good a)) : Program I Bool) then
        return .done ()
      tick
      return .again () : Program I (Step Unit Unit)) limit) n () = .poll r good n from H limit
  intro n
  induction n with
  | zero => rfl
  | succ n ih =>
    rw [Tree.rounds, Tree.poll, ← ih]
    refine congrArg (Tree.request r) (funext fun a => ?_)
    dsimp only
    cases good a <;> rfl

/-- One round of a wait: a no costs a unit of waiting. -/
def waitRound (ready : Program I Bool) : Program I (Step Unit Unit) := do
  if ← ready then return .done ()
  tick
  return .again ()

section
variable {ready : Program I Bool} {limit : Nat} {T : Transcript I}

theorem runs_waitRound_done {a : Unit}
    (h : (waitRound ready limit).Runs T (.ended (.ok (.done a)))) :
    (ready limit).Runs T (.ended (.ok true)) := by
  obtain ⟨U, V, yes, rfl, hU, hV⟩ := Tree.runs_bind_ok.1 h
  cases yes with
  | true =>
    obtain ⟨rfl, -⟩ := Tree.runs_halt.1 hV
    simpa using hU
  | false =>
    rcases Tree.runs_tick.1 hV with ⟨-, hs⟩ | ⟨W, -, hW⟩
    · cases hs
    · cases (Tree.runs_halt.1 hW).2

/-- A wait is over when the answer was yes. -/
theorem runs_waitUntil_ok (h : (waitUntil ready limit).Runs T (.ended (.ok ()))) :
    ∃ U V, T = U ++ V ∧ (ready limit).Runs V (.ended (.ok true)) := by
  suffices H : ∀ n T, (Tree.rounds (fun _ => waitRound ready limit) n ()).Runs T
      (.ended (.ok ())) → ∃ U V, T = U ++ V ∧ (ready limit).Runs V (.ended (.ok true)) from
    H limit T h
  intro n
  induction n with
  | zero =>
    intro T h
    cases (Tree.runs_rounds_zero.1 h).2
  | succ n ih =>
    intro T h
    rcases Tree.runs_rounds_succ.1 h with ⟨a, hT, -⟩ | ⟨U, V, x, rfl, -, hV⟩ | ⟨s₀, -, hs⟩
    · exact ⟨[], T, rfl, runs_waitRound_done hT⟩
    · obtain ⟨P, Q, rfl, hQ⟩ := ih V hV
      exact ⟨U ++ P, Q, (List.append_assoc ..).symm, hQ⟩
    · exact absurd hs (s₀.early?_ne_ok ())

end

/-- A wait is over with the first answer that is good enough. -/
theorem Asks.runs_waitUntil {ready : Program I Bool} {r : I.Request} {good : I.Answer r → Bool}
    (h : ready.Asks r good) {limit : Nat} {T : Transcript I} {s : Stop Unit}
    (hT : (waitUntil ready limit).Runs T s) :
    ∃ misses : List (I.Answer r), (∀ a ∈ misses, good a = false) ∧
      ((∃ a, good a = true ∧ T.accesses = misses.map (⟨r, ·⟩) ++ [⟨r, a⟩] ∧ s = .ended (.ok ())) ∨
        T.accesses = misses.map (⟨r, ·⟩) ∧ (s = .waiting ∨ s = .ended .stalled)) := by
  rw [h.waitUntil_apply] at hT
  obtain ⟨misses, hm, ⟨-, rfl, rfl⟩ | ⟨-, a, rfl, rfl⟩⟩ := Tree.runs_poll.1 hT
  · exact ⟨misses, hm, .inr ⟨accesses_missed misses, .inr rfl⟩⟩
  · cases ha : good a with
    | true => exact ⟨misses, hm, .inl ⟨a, ha, by simp, by simp⟩⟩
    | false =>
      have hmisses : ∀ b ∈ misses ++ [a], good b = false := by
        simpa [or_imp, forall_and] using ⟨hm, ha⟩
      exact ⟨misses ++ [a], hmisses, .inr ⟨by simp, .inl (by simp)⟩⟩

/-- A wait that is over got a good answer behind answers that were not. -/
theorem Asks.runs_waitUntil_ok {ready : Program I Bool} {r : I.Request} {good : I.Answer r → Bool}
    (h : ready.Asks r good) {limit : Nat} {T : Transcript I}
    (hT : (waitUntil ready limit).Runs T (.ended (.ok ()))) :
    ∃ (misses : List (I.Answer r)) (a : I.Answer r), (∀ b ∈ misses, good b = false) ∧
      good a = true ∧ T.accesses = misses.map (⟨r, ·⟩) ++ [⟨r, a⟩] := by
  obtain ⟨misses, hm, ⟨a, ha, hA, -⟩ | ⟨-, hs | hs⟩⟩ := h.runs_waitUntil hT
  · exact ⟨misses, a, hm, ha, hA⟩
  · cases hs
  · cases hs

/-- A drain that asks with one request and takes out with another. -/
theorem Asks.drain_apply {ready : Program I Bool} {r q : I.Request} {there : I.Answer r → Bool}
    {out : Program I Unit} (h : ready.Asks r there)
    (hout : ∀ limit, out limit = .request q fun _ => .halt (.ok ())) (limit : Nat) :
    drain ready out limit = .sweep r there q limit := by
  obtain rfl : ready = fun _ => .request r fun a => .halt (.ok (there a)) := funext h
  obtain rfl : out = fun _ => .request q fun _ => .halt (.ok ()) := funext hout
  suffices H : ∀ n, Tree.rounds (fun _ : Unit => (do
      if ← (fun _ => .request r fun a => .halt (.ok (there a)) : Program I Bool) then
        (fun _ => .request q fun _ => .halt (.ok ()) : Program I Unit)
        tick
        return .again ()
      return .done () : Program I (Step Unit Unit)) limit) n () = .sweep r there q n from H limit
  intro n
  induction n with
  | zero => rfl
  | succ n ih =>
    rw [Tree.rounds, Tree.sweep, ← ih]
    refine congrArg (Tree.request r) (funext fun a => ?_)
    dsimp only
    cases there a <;> rfl

/-- A drain that only the answer `yes` prolongs: the things taken out, each behind that answer and
with a unit of waiting behind it, up to the first look that was answered otherwise. -/
theorem Asks.runs_drain {ready : Program I Bool} {r q : I.Request} {there : I.Answer r → Bool}
    {out : Program I Unit} {yes : I.Answer r} (h : ready.Asks r there)
    (hyes : ∀ a, there a = true ↔ a = yes)
    (hout : ∀ limit, out limit = .request q fun _ => .halt (.ok ())) {limit : Nat}
    {T : Transcript I} {s : Stop Unit} :
    (drain ready out limit).Runs T s ↔
      ∃ things : List (I.Answer q),
        (things.length = limit ∧
          T = things.flatMap (fun b => [.access ⟨r, yes⟩, .access ⟨q, b⟩, .tick]) ∧
          s = .ended .stalled) ∨
        things.length < limit ∧
          ((∃ a, a ≠ yes ∧
              T = things.flatMap (fun b => [.access ⟨r, yes⟩, .access ⟨q, b⟩, .tick]) ++
                [.access ⟨r, a⟩] ∧ s = .ended (.ok ())) ∨
            ∃ b, T = things.flatMap (fun b => [.access ⟨r, yes⟩, .access ⟨q, b⟩, .tick]) ++
              [.access ⟨r, yes⟩, .access ⟨q, b⟩] ∧ s = .waiting) := by
  have hswept (things : List (I.Answer q)) : swept (things.map fun b => (yes, b)) =
      things.flatMap fun b => [.access ⟨r, yes⟩, .access ⟨q, b⟩, .tick] := List.flatMap_map ..
  have hne {a : I.Answer r} : there a = false ↔ a ≠ yes := by
    rw [← Bool.not_eq_true, hyes]
  rw [h.drain_apply hout, Tree.runs_sweep]
  constructor
  · rintro ⟨pairs, hp, h⟩
    obtain ⟨things, rfl⟩ : ∃ things : List (I.Answer q), pairs = things.map fun b => (yes, b) := by
      refine ⟨pairs.map Prod.snd, ?_⟩
      rw [List.map_map]
      exact (List.map_id pairs).symm.trans
        (List.map_congr_left fun x hx => Prod.ext ((hyes _).1 (hp x hx)) rfl)
    rw [List.length_map, hswept] at h
    refine ⟨things, ?_⟩
    rcases h with h | ⟨hl, a, ⟨ha, rfl, rfl⟩ | ⟨ha, b, rfl, rfl⟩⟩
    · exact .inl h
    · exact .inr ⟨hl, .inl ⟨a, hne.1 ha, rfl, rfl⟩⟩
    · obtain rfl := (hyes a).1 ha
      exact .inr ⟨hl, .inr ⟨b, rfl, rfl⟩⟩
  · rintro ⟨things, h⟩
    refine ⟨things.map fun b => (yes, b), ?_, ?_⟩
    · intro x hx
      obtain ⟨b, -, rfl⟩ := List.mem_map.1 hx
      exact (hyes yes).2 rfl
    · rw [List.length_map, hswept]
      rcases h with h | ⟨hl, ⟨a, ha, rfl, rfl⟩ | ⟨b, rfl, rfl⟩⟩
      · exact .inl h
      · exact .inr ⟨hl, a, .inl ⟨hne.2 ha, rfl, rfl⟩⟩
      · exact .inr ⟨hl, yes, .inr ⟨(hyes yes).2 rfl, b, rfl, rfl⟩⟩

/-- A wait can take any number of units. -/
theorem Asks.exists_runs_waitUntil {ready : Program I Bool} {r : I.Request}
    {good : I.Answer r → Bool} (h : ready.Asks r good) (no yes : I.Answer r)
    (hno : good no = false) (hyes : good yes = true) {k limit : Nat} (hk : k < limit) :
    ∃ T, (waitUntil ready limit).Runs T (.ended (.ok ())) ∧ T.ticks = k := by
  refine ⟨missed (List.replicate k no) ++ [.access ⟨r, yes⟩], ?_, by simp⟩
  rw [h.waitUntil_apply, Tree.runs_poll]
  refine ⟨List.replicate k no, fun a ha => ?_, .inr ⟨by simpa, yes, rfl, by simp [hyes]⟩⟩
  rw [List.eq_of_mem_replicate ha]
  exact hno

/-- A wait that only the answer `bad` prolongs, with what follows it: some polls that were answered
so, each with a unit of waiting behind it, and then one that was answered otherwise. -/
theorem Asks.runs_waitUntil_bind {ready : Program I Bool} {r : I.Request} {good : I.Answer r → Bool}
    {bad : I.Answer r} (h : ready.Asks r good) (hbad : ∀ a, good a = false ↔ a = bad)
    {f : Unit → Program I α} {limit : Nat} {T : Transcript I} {s : Stop α} :
    ((waitUntil ready >>= f) limit).Runs T s ↔
      ∃ k, (k = limit ∧ T = missed (List.replicate k bad) ∧ s = .ended .stalled) ∨
        k < limit ∧
          ((T = missed (List.replicate k bad) ++ [.access ⟨r, bad⟩] ∧ s = .waiting) ∨
            ∃ a U, a ≠ bad ∧ T = missed (List.replicate k bad) ++ .access ⟨r, a⟩ :: U ∧
              (f () limit).Runs U s) := by
  have hgood {a : I.Answer r} (ha : a ≠ bad) : good a = true := by
    simpa using mt (hbad a).1 ha
  rw [bind_apply, h.waitUntil_apply, Tree.runs_bind]
  constructor
  · rintro (⟨U, V, x, rfl, hU, hV⟩ | ⟨s₀, hT, hs⟩)
    · obtain ⟨misses, hm, ⟨-, -, hs⟩ | ⟨hl, a, rfl, hs⟩⟩ := Tree.runs_poll.1 hU
      · cases hs
      obtain ⟨k, rfl⟩ : ∃ k, misses = List.replicate k bad :=
        ⟨_, List.eq_replicate_iff.2 ⟨rfl, fun a ha => (hbad a).1 (hm a ha)⟩⟩
      cases ha : good a with
      | false => simp [ha] at hs
      | true =>
        refine ⟨k, .inr ⟨by simpa using hl, .inr ⟨a, V, ?_, by simp, hV⟩⟩⟩
        rintro rfl
        simp [(hbad a).2 rfl] at ha
    · obtain ⟨misses, hm, h⟩ := Tree.runs_poll.1 hT
      obtain ⟨k, rfl⟩ : ∃ k, misses = List.replicate k bad :=
        ⟨_, List.eq_replicate_iff.2 ⟨rfl, fun a ha => (hbad a).1 (hm a ha)⟩⟩
      rw [List.length_replicate] at h
      rcases h with ⟨rfl, rfl, rfl⟩ | ⟨hl, a, rfl, rfl⟩
      · cases hs
        exact ⟨k, .inl ⟨rfl, rfl, rfl⟩⟩
      · cases ha : good a with
        | true => simp [ha, Stop.early?] at hs
        | false =>
          obtain rfl := (hbad a).1 ha
          rw [ha] at hs
          cases hs
          exact ⟨k, .inr ⟨hl, .inl ⟨rfl, rfl⟩⟩⟩
  · have hm (k : Nat) : ∀ a ∈ List.replicate k bad, good a = false :=
      fun a ha => (hbad a).2 (List.eq_of_mem_replicate ha)
    rintro ⟨k, ⟨rfl, rfl, rfl⟩ | ⟨hk, ⟨rfl, rfl⟩ | ⟨a, U, ha, rfl, hU⟩⟩⟩
    · exact .inr ⟨_, Tree.runs_poll.2 ⟨_, hm k, .inl ⟨by simp, rfl, rfl⟩⟩, rfl⟩
    · refine .inr ⟨.waiting, Tree.runs_poll.2 ⟨_, hm k, .inr ⟨by simpa, bad, rfl, ?_⟩⟩, rfl⟩
      simp [(hbad bad).2 rfl]
    · refine .inl ⟨missed (List.replicate k bad) ++ [.access ⟨r, a⟩], U, (), by simp, ?_, hU⟩
      exact Tree.runs_poll.2 ⟨_, hm k, .inr ⟨by simpa, a, rfl, by simp [hgood ha]⟩⟩

end Program

end Bcm2835
