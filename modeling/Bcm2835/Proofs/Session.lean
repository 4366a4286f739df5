import Mathlib.Data.List.Basic
import Bcm2835.Proofs.Metering
import Bcm2835.Proofs.Waiting

/-! Operations one after another, for a caller who goes on whatever each of them ends with. A run of
such a session is made up of runs of its operations, its episodes (`Program.runs_session`). What
every run of an operation does to the hardware adds up to what the session does. -/

namespace Bcm2835

variable {I : Interface} {α β γ : Type}

namespace Transcript

theorem accesses_flatMap (l : List γ) (f : γ → Transcript I) :
    accesses (l.flatMap f) = l.flatMap fun a => accesses (f a) := by
  induction l with
  | nil => rfl
  | cons a l ih => rw [List.flatMap_cons, accesses_append, ih, List.flatMap_cons]

theorem reports_flatMap (l : List γ) (f : γ → Transcript I) :
    reports (l.flatMap f) = l.flatMap fun a => reports (f a) := by
  induction l with
  | nil => rfl
  | cons a l ih => rw [List.flatMap_cons, reports_append, ih, List.flatMap_cons]

end Transcript

namespace Stop

/-- Nothing was handed on: the budget ran out, or the run did not come to its end. -/
def Fruitless (s : Stop α) : Prop := s.result? = none ∨ s.result? = some (.error .timeout)

variable {s : Stop α}

theorem Fruitless.map (h : s.Fruitless) (f : α → β) : (s.map f).Fruitless := by
  rw [Fruitless, result?_map]
  rcases h with h | h
  · exact .inl (by rw [h]; rfl)
  · exact .inr (by rw [h]; rfl)

theorem Fruitless.result?_ne_ok (h : s.Fruitless) (a : α) : s.result? ≠ some (.ok a) := by
  intro ha
  rcases h with h | h
  · cases h.symm.trans ha
  · cases h.symm.trans ha

theorem result?_of_unfinished (h : s = .waiting ∨ s = .ended .stalled) : s.result? = none := by
  rcases h with rfl | rfl <;> rfl

/-- A budget does not make an unfinished run a success. -/
theorem fruitless_cut (h : s.result? = none) (b : Budget) : (s.cut b).Fruitless := by
  match s with
  | ended (.ok a) | ended (.error e) => cases h
  | ended (.fault x) | ended .stalled => exact .inl rfl
  | waiting =>
    rw [cut]
    split
    · exact .inr rfl
    · exact .inl rfl

end Stop

/-- What operations on words or bytes answer. -/
inductive Reply (ω : Type) where
  | done
  | flag (up : Bool)
  | word (w : ω)
  deriving DecidableEq, Repr

namespace Program

variable {limit : Nat} {T : Transcript I}

theorem runs_map {p : Program I α} {f : α → β} {s : Stop β} :
    ((f <$> p) limit).Runs T s ↔ ∃ s₀, (p limit).Runs T s₀ ∧ s = s₀.map f := by
  rw [map_apply, Tree.runs_bind]
  constructor
  · rintro (⟨U, V, a, rfl, hU, hV⟩ | ⟨s₀, hT, hs⟩)
    · obtain ⟨rfl, rfl⟩ := Tree.runs_halt.1 hV
      exact ⟨_, by simpa using hU, rfl⟩
    · refine ⟨s₀, hT, ?_⟩
      match s₀ with
      | .ended (.ok _) => cases hs
      | .ended (.error _) | .ended (.fault _) | .ended .stalled | .waiting => cases hs; rfl
  · rintro ⟨s₀, hT, rfl⟩
    match s₀ with
    | .ended (.ok a) => exact .inl ⟨T, [], a, by simp, hT, .halt _⟩
    | .ended (.error _) | .ended (.fault _) | .ended .stalled | .waiting =>
      exact .inr ⟨_, hT, rfl⟩

/-- An operation that waits for an answer and then goes on. If it does not get there, it has asked
and nothing else, and hands nothing on. -/
theorem Asks.runs_within_bind {ready : Program I Bool} {r : I.Request} {good : I.Answer r → Bool}
    (h : ready.Asks r good) {budget : Budget} {f : Unit → Program I α} {s : Stop α}
    (hT : (within budget (waitUntil ready >>= f) limit).Runs T s) :
    ∃ answers : List (I.Answer r),
      (T.accesses = answers.map (⟨r, ·⟩) ∧ s.Fruitless) ∨
        ∃ a U s₀ b, good a = true ∧
          T.accesses = answers.map (⟨r, ·⟩) ++ ⟨r, a⟩ :: Transcript.accesses U ∧
          (f () limit).Runs U s₀ ∧ s = s₀.cut b := by
  obtain ⟨s₀, b, hrun, -, rfl⟩ := runs_within.1 hT
  rcases Tree.runs_bind.1 hrun with ⟨U, V, u, rfl, hU, hV⟩ | ⟨s₁, hU, hs⟩
  · obtain ⟨misses, -, ⟨a, ha, hA, -⟩ | ⟨-, hs⟩⟩ := h.runs_waitUntil hU
    · refine ⟨misses, .inr ⟨a, V, s₀, b, ha, ?_, hV, rfl⟩⟩
      rw [Transcript.accesses_append, hA, List.append_assoc, List.singleton_append]
    · rcases hs with hs | hs
      · cases hs
      · cases hs
  · obtain ⟨misses, -, ⟨a, -, -, rfl⟩ | ⟨hA, hs₁⟩⟩ := h.runs_waitUntil hU
    · cases hs
    · refine ⟨misses, .inl ⟨hA, Stop.fruitless_cut (Stop.result?_of_unfinished ?_) b⟩⟩
      rcases hs₁ with rfl | rfl
      · cases hs
        exact .inl rfl
      · cases hs
        exact .inr rfl

/-! ## A row of operations up to the first that fails -/

section
variable {f : γ → Program I Unit} {l : List γ} {s : Stop Unit}

/-- The row is through, or it is left in one of its operations, behind others that succeeded. -/
theorem runs_forM (h : (l.forM f limit).Runs T s) :
    s = .ended (.ok ()) ∨ ∃ done a rest U V, l = done ++ a :: rest ∧ T = U ++ V ∧
      (done.forM f limit).Runs U (.ended (.ok ())) ∧ (f a limit).Runs V s := by
  induction l generalizing T with
  | nil => exact .inl (Tree.runs_halt.1 h).2
  | cons a l ih =>
    rcases Tree.runs_bind.1 h with ⟨U, V, u, rfl, hU, hV⟩ | ⟨s₀, hT, hs⟩
    · rcases ih hV with hs | ⟨done, b, rest, V, W, rfl, rfl, hdone, hb⟩
      · exact .inl hs
      · exact .inr ⟨a :: done, b, rest, U ++ V, W, rfl, (List.append_assoc ..).symm,
          hU.bind hdone, hb⟩
    · refine .inr ⟨[], a, l, [], T, rfl, rfl, .halt _, ?_⟩
      match s₀ with
      | .ended (.ok _) => cases hs
      | .ended (.error _) | .ended (.fault _) | .ended .stalled | .waiting => cases hs; exact hT

end

/-! ## Operations whatever each of them ends with -/

/-- Operations one after another, whatever each of them ends with. -/
def session (op : γ → Program I α) (actions : List γ) : Program I (List (Except Error α)) :=
  actions.mapM fun a => (op a).attempt

/-- One operation of a session: what was done, and what happened. -/
structure Episode (op : γ → Program I α) (limit : Nat) where
  action : γ
  transcript : Transcript I
  stop : Stop α
  runs : (op action limit).Runs transcript stop

/-- What the caller got, if the operation came to its end. -/
def Episode.result? {op : γ → Program I α} (e : Episode op limit) : Option (Except Error α) :=
  e.stop.result?

/-- The run is these episodes in a row. Only the last one may be unfinished; if all the operations
came to their ends, they are the ones that were asked for, with the results that were handed on. -/
structure Divides {op : γ → Program I α} (actions : List γ) (T : Transcript I)
    (s : Stop (List (Except Error α))) (episodes : List (Episode op limit)) : Prop where
  transcript_eq : T = episodes.flatMap Episode.transcript
  actions_prefix : episodes.map Episode.action <+: actions
  finished : ∀ e ∈ episodes.dropLast, e.result?.isSome
  complete : ∀ results, s = .ended (.ok results) →
    episodes.map Episode.action = actions ∧ episodes.map Episode.result? = results.map some

variable {op : γ → Program I α} {actions : List γ} {s : Stop (List (Except Error α))}

/-- An operation that came to its end, in front of the episodes behind it. -/
theorem Divides.cons {U : Transcript I} {s' : Stop (List (Except Error α))}
    {episodes : List (Episode op limit)} {e : Episode op limit} {r : Except Error α}
    (h : Divides actions U s' episodes) (he : e.result? = some r)
    (hs : ∀ results, s = .ended (.ok results) →
      ∃ rest, s' = .ended (.ok rest) ∧ results = r :: rest) :
    Divides (e.action :: actions) (e.transcript ++ U) s (e :: episodes) where
  transcript_eq := by rw [List.flatMap_cons, ← h.transcript_eq]
  actions_prefix := by simpa using h.actions_prefix
  finished := by
    intro d hd
    cases episodes with
    | nil => simp at hd
    | cons first episodes =>
      rw [List.dropLast_cons_cons] at hd
      rcases List.mem_cons.1 hd with rfl | hd
      · simp [he]
      · exact h.finished d hd
  complete := by
    intro results hresults
    obtain ⟨rest, hrest, rfl⟩ := hs results hresults
    obtain ⟨hactions, hdone⟩ := h.complete rest hrest
    simp [hactions, hdone, he]

/-- Every run of a session is its episodes in a row. -/
theorem runs_session (h : (session op actions limit).Runs T s) :
    ∃ episodes : List (Episode op limit), Divides actions T s episodes := by
  induction actions generalizing T s with
  | nil =>
    obtain ⟨rfl, rfl⟩ := Tree.runs_halt.1 h
    refine ⟨[], rfl, List.nil_prefix, by simp, ?_⟩
    intro results hresults
    cases hresults
    exact ⟨rfl, rfl⟩
  | cons a actions ih =>
    rw [session, List.mapM_cons] at h
    rcases Tree.runs_bind.1 h with ⟨U, V, r, rfl, hU, hV⟩ | ⟨s₁, hT, hs⟩
    · obtain ⟨s₀, hrun, hr⟩ := Tree.Runs.of_attempt hU
      let first : Episode op limit := ⟨a, U, s₀, hrun⟩
      have hfirst : first.result? = some r := Stop.caught_eq_ok.1 hr.symm
      rcases Tree.runs_bind.1 hV with ⟨V, W, rest, rfl, hrest, hW⟩ | ⟨s₁, hrest, hs⟩
      · obtain ⟨rfl, rfl⟩ := Tree.runs_halt.1 hW
        obtain ⟨episodes, hdivides⟩ := ih hrest
        rw [List.append_nil]
        refine ⟨first :: episodes, hdivides.cons hfirst ?_⟩
        intro results hresults
        cases hresults
        exact ⟨rest, rfl, rfl⟩
      · obtain ⟨episodes, hdivides⟩ := ih hrest
        refine ⟨first :: episodes, hdivides.cons hfirst ?_⟩
        rintro results rfl
        exact absurd hs (s₁.early?_ne_ok results)
    · -- the session is left in its first operation
      obtain ⟨s₀, hrun, rfl⟩ := Tree.Runs.of_attempt hT
      refine ⟨[⟨a, T, s₀, hrun⟩], by simp, by simp, by simp, ?_⟩
      rintro results rfl
      exact absurd hs (s₀.caught.early?_ne_ok results)

/-- If every operation comes to its end, the session does. -/
theorem session_ends (hop : ∀ a T s, (op a limit).Runs T s → s.result?.isSome)
    (h : (session op actions limit).Runs T s) : ∃ results, s = .ended (.ok results) := by
  induction actions generalizing T s with
  | nil => exact ⟨[], (Tree.runs_halt.1 h).2⟩
  | cons a actions ih =>
    rw [session, List.mapM_cons] at h
    rcases Tree.runs_bind.1 h with ⟨U, V, r, rfl, -, hV⟩ | ⟨s₁, hT, hs⟩
    · rcases Tree.runs_bind.1 hV with ⟨V, W, rest, rfl, -, hW⟩ | ⟨s₁, hV, hs⟩
      · exact ⟨r :: rest, (Tree.runs_halt.1 hW).2⟩
      · obtain ⟨rest, rfl⟩ := ih hV
        cases hs
    · obtain ⟨s₀, hrun, rfl⟩ := Tree.Runs.of_attempt hT
      obtain ⟨r, hr⟩ := Option.isSome_iff_exists.1 (hop a T s₀ hrun)
      rw [Stop.caught_eq_ok.2 hr] at hs
      cases hs

/-- If every run of an operation has an account of some kind, a run of a session has them in a row.
An account belongs to an episode, and may say more than the episode does. -/
theorem exists_accounts {A : Type} {episode : A → Episode op limit} {Good : A → Prop}
    (hall : ∀ e, ∃ a, episode a = e ∧ Good a) (h : (session op actions limit).Runs T s) :
    ∃ accounts : List A, Divides actions T s (accounts.map episode) ∧ ∀ a ∈ accounts, Good a := by
  have hrow (episodes : List (Episode op limit)) :
      ∃ accounts : List A, accounts.map episode = episodes ∧ ∀ a ∈ accounts, Good a := by
    induction episodes with
    | nil => exact ⟨[], rfl, List.forall_mem_nil _⟩
    | cons e episodes ih =>
      obtain ⟨a, rfl, ha⟩ := hall e
      obtain ⟨accounts, rfl, hgood⟩ := ih
      exact ⟨a :: accounts, rfl, List.forall_mem_cons.2 ⟨ha, hgood⟩⟩
  obtain ⟨episodes, hdivides⟩ := runs_session h
  obtain ⟨accounts, rfl, hgood⟩ := hrow episodes
  exact ⟨accounts, hdivides, hgood⟩

theorem Divides.accesses_eq {episodes : List (Episode op limit)}
    (h : Divides actions T s episodes) :
    T.accesses = episodes.flatMap fun e => e.transcript.accesses := by
  rw [h.transcript_eq, Transcript.accesses_flatMap]

theorem Divides.reports_eq {episodes : List (Episode op limit)}
    (h : Divides actions T s episodes) :
    T.reports = episodes.flatMap fun e => e.transcript.reports := by
  rw [h.transcript_eq, Transcript.reports_flatMap]

end Program

end Bcm2835
