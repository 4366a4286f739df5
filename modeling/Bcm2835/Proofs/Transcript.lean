import Bcm2835.Program

/-! What a run leaves behind: the accesses with their answers, the units of waiting and the notices,
in order. `Tree.Runs` is the relation between a tree and its runs, for every answer the hardware may
give. A run goes on until the tree ends, or is looked at where the next thing is a unit of waiting;
the second kind are the places at which a budget can cut a run short.

For each construct of programs there is one lemma that says which runs it has; later modules open
programs with these and never by unfolding the relation. -/

namespace Bcm2835

/-- A request with the answer it got. -/
structure Access (I : Interface) where
  request : I.Request
  answer : I.Answer request

inductive Entry (I : Interface) where
  | access (a : Access I)
  | tick
  | report (n : Notice)

/-- What happened in a run, oldest first. -/
abbrev Transcript (I : Interface) : Type := List (Entry I)

variable {I J : Interface} {α β : Type}

namespace Transcript

/-- The hardware's share of a transcript. -/
def accesses : Transcript I → List (Access I)
  | [] => []
  | .access a :: T => a :: accesses T
  | .tick :: T | .report _ :: T => accesses T

/-- The number of units of waiting. -/
def ticks : Transcript I → Nat
  | [] => 0
  | .tick :: T => ticks T + 1
  | .access _ :: T | .report _ :: T => ticks T

def reports : Transcript I → List Notice
  | [] => []
  | .report n :: T => n :: reports T
  | .access _ :: T | .tick :: T => reports T

@[simp] theorem accesses_nil : accesses ([] : Transcript I) = [] := rfl

@[simp] theorem accesses_access (a : Access I) (T : Transcript I) :
    accesses (.access a :: T) = a :: accesses T := rfl

@[simp] theorem accesses_tick (T : Transcript I) : accesses (.tick :: T) = accesses T := rfl

@[simp] theorem accesses_report (n : Notice) (T : Transcript I) :
    accesses (.report n :: T) = accesses T := rfl

@[simp] theorem accesses_append (T U : Transcript I) :
    accesses (T ++ U) = accesses T ++ accesses U := by
  induction T with
  | nil => rfl
  | cons e T ih => cases e <;> simp [ih]

@[simp] theorem ticks_nil : ticks ([] : Transcript I) = 0 := rfl

@[simp] theorem ticks_access (a : Access I) (T : Transcript I) :
    ticks (.access a :: T) = ticks T := rfl

@[simp] theorem ticks_tick (T : Transcript I) : ticks (.tick :: T) = ticks T + 1 := rfl

@[simp] theorem ticks_report (n : Notice) (T : Transcript I) :
    ticks (.report n :: T) = ticks T := rfl

@[simp] theorem ticks_append (T U : Transcript I) : ticks (T ++ U) = ticks T + ticks U := by
  induction T with
  | nil => simp
  | cons e T ih => cases e <;> simp [ih, Nat.add_right_comm]

@[simp] theorem reports_nil : reports ([] : Transcript I) = [] := rfl

@[simp] theorem reports_access (a : Access I) (T : Transcript I) :
    reports (.access a :: T) = reports T := rfl

@[simp] theorem reports_tick (T : Transcript I) : reports (.tick :: T) = reports T := rfl

@[simp] theorem reports_report (n : Notice) (T : Transcript I) :
    reports (.report n :: T) = n :: reports T := rfl

@[simp] theorem reports_append (T U : Transcript I) :
    reports (T ++ U) = reports T ++ reports U := by
  induction T with
  | nil => rfl
  | cons e T ih => cases e <;> simp [ih]

end Transcript

/-- Where a run is looked at. -/
inductive Stop (α : Type) where
  | ended (o : Outcome α)
  /-- The next thing is a unit of waiting. -/
  | waiting

namespace Stop

/-- A stop that what comes behind cannot change; there is none where a value is handed on. -/
def early? : Stop α → Option (Stop β)
  | ended (.ok _) => none
  | ended (.error e) => some (ended (.error e))
  | ended (.fault f) => some (ended (.fault f))
  | ended .stalled => some (ended .stalled)
  | waiting => some waiting

theorem early?_of_early? {γ : Type} {s : Stop α} {s' : Stop β} (h : s.early? = some s') :
    (s.early? : Option (Stop γ)) = s'.early? := by
  match s with
  | ended (.ok _) => cases h
  | ended (.error _) | ended (.fault _) | ended .stalled | waiting => cases h; rfl

theorem early?_ne_ok (s : Stop α) (b : β) : s.early? ≠ some (ended (.ok b)) := by
  match s with
  | ended (.ok _) | ended (.error _) | ended (.fault _) | ended .stalled | waiting =>
    exact fun h => nomatch h

theorem eq_error_of_early? (s : Stop α) {e : Error}
    (h : (s.early? : Option (Stop β)) = some (ended (.error e))) : s = ended (.error e) := by
  match s with
  | ended (.ok _) | ended (.fault _) | ended .stalled | waiting => cases h
  | ended (.error _) =>
    cases h
    rfl

theorem eq_fault_of_early? (s : Stop α) {f : Fault}
    (h : (s.early? : Option (Stop β)) = some (ended (.fault f))) : s = ended (.fault f) := by
  match s with
  | ended (.ok _) | ended (.error _) | ended .stalled | waiting => cases h
  | ended (.fault _) =>
    cases h
    rfl

/-- The stop of a tree whose errors are turned into values. -/
def caught : Stop α → Stop (Except Error α)
  | ended (.ok a) => ended (.ok (.ok a))
  | ended (.error e) => ended (.ok (.error e))
  | ended (.fault f) => ended (.fault f)
  | ended .stalled => ended .stalled
  | waiting => waiting

def map (f : α → β) : Stop α → Stop β
  | ended (.ok a) => ended (.ok (f a))
  | ended (.error e) => ended (.error e)
  | ended (.fault x) => ended (.fault x)
  | ended .stalled => ended .stalled
  | waiting => waiting

/-- What the caller gets from an operation that came to its end. -/
def result? : Stop α → Option (Except Error α)
  | ended (.ok a) => some (.ok a)
  | ended (.error e) => some (.error e)
  | ended (.fault _) | ended .stalled | waiting => none

variable {s : Stop α}

theorem result?_eq_error {e : Error} : s.result? = some (.error e) ↔ s = .ended (.error e) := by
  match s with
  | ended (.ok b) | ended (.error f) => simp [result?]
  | ended (.fault x) | ended .stalled | waiting => simp [result?]

theorem result?_map (f : α → β) : (s.map f).result? = s.result?.map (Except.map f) := by
  match s with
  | ended (.ok a) | ended (.error e) => rfl
  | ended (.fault x) | ended .stalled | waiting => rfl

theorem result?_map_eq_ok {f : α → β} {b : β} :
    (s.map f).result? = some (.ok b) ↔ ∃ a, s = .ended (.ok a) ∧ f a = b := by
  match s with
  | ended (.ok a) | ended (.error e) => simp [map, result?]
  | ended (.fault x) | ended .stalled | waiting => simp [map, result?]

theorem result?_map_eq_error {f : α → β} {e : Error} :
    (s.map f).result? = some (.error e) ↔ s.result? = some (.error e) := by
  match s with
  | ended (.ok a) | ended (.error e) => simp [map, result?]
  | ended (.fault x) | ended .stalled | waiting => simp [map, result?]

theorem early?_map {γ : Type} (s : Stop α) (f : α → β) :
    ((s.map f).early? : Option (Stop γ)) = s.early? := by
  match s with
  | ended (.ok _) => rfl
  | ended (.error _) | ended (.fault _) | ended .stalled | waiting => rfl

theorem map_map {γ : Type} (s : Stop α) (f : α → β) (g : β → γ) :
    (s.map f).map g = s.map fun a => g (f a) := by
  match s with
  | ended (.ok _) => rfl
  | ended (.error _) | ended (.fault _) | ended .stalled | waiting => rfl

theorem map_congr {f g : α → β} (h : ∀ a, s = .ended (.ok a) → f a = g a) : s.map f = s.map g := by
  match s with
  | ended (.ok a) => exact congrArg (fun b => ended (.ok b)) (h a rfl)
  | ended (.error _) | ended (.fault _) | ended .stalled | waiting => rfl

theorem caught_eq_ok {r : Except Error α} : s.caught = .ended (.ok r) ↔ s.result? = some r := by
  match s with
  | ended (.ok a) | ended (.error e) => simp [caught, result?]
  | ended (.fault f) | ended .stalled | waiting => simp [caught, result?]

end Stop

namespace Tree

/-- The runs of a tree: each request may be answered in every way. -/
inductive Runs : Tree I α → Transcript I → Stop α → Prop
  | halt (o : Outcome α) : Runs (.halt o) [] (.ended o)
  | waiting (next : Tree I α) : Runs (.tick next) [] .waiting
  | tick {next : Tree I α} {T s} : Runs next T s → Runs (.tick next) (.tick :: T) s
  | report (n : Notice) {next : Tree I α} {T s} :
    Runs next T s → Runs (.report n next) (.report n :: T) s
  | request {r : I.Request} {next : I.Answer r → Tree I α} (a : I.Answer r) {T s} :
    Runs (next a) T s → Runs (.request r next) (.access ⟨r, a⟩ :: T) s

variable {T : Transcript I} {s : Stop α}

@[simp] theorem runs_halt {o : Outcome α} : Runs (halt o) T s ↔ T = [] ∧ s = .ended o := by
  constructor
  · rintro ⟨⟩
    exact ⟨rfl, rfl⟩
  · rintro ⟨rfl, rfl⟩
    exact .halt o

@[simp] theorem runs_tick {next : Tree I α} :
    Runs (tick next) T s ↔
      (T = [] ∧ s = .waiting) ∨ ∃ U, T = .tick :: U ∧ next.Runs U s := by
  constructor
  · rintro (_ | _ | h)
    · exact .inl ⟨rfl, rfl⟩
    · exact .inr ⟨_, rfl, h⟩
  · rintro (⟨rfl, rfl⟩ | ⟨U, rfl, h⟩)
    · exact .waiting next
    · exact .tick h

@[simp] theorem runs_report {n : Notice} {next : Tree I α} :
    Runs (report n next) T s ↔ ∃ U, T = .report n :: U ∧ next.Runs U s := by
  constructor
  · rintro ⟨⟩
    exact ⟨_, rfl, ‹_›⟩
  · rintro ⟨U, rfl, h⟩
    exact .report n h

@[simp] theorem runs_request {r : I.Request} {next : I.Answer r → Tree I α} :
    Runs (request r next) T s ↔ ∃ a U, T = .access ⟨r, a⟩ :: U ∧ (next a).Runs U s := by
  constructor
  · rintro ⟨⟩
    exact ⟨_, _, rfl, ‹_›⟩
  · rintro ⟨a, U, rfl, h⟩
    exact .request a h

theorem Runs.bind {t : Tree I α} {f : α → Tree I β} {U : Transcript I} {a : α} {s : Stop β}
    (h : t.Runs T (.ended (.ok a))) (h' : (f a).Runs U s) : (t.bind f).Runs (T ++ U) s := by
  generalize hs : Stop.ended (.ok a) = s₀ at h
  induction h with
  | halt o => cases hs; exact h'
  | waiting next => cases hs
  | tick _ ih => exact .tick (ih hs)
  | report n _ ih => exact .report n (ih hs)
  | request a _ ih => exact .request a (ih hs)

theorem Runs.bind_early {t : Tree I α} {f : α → Tree I β} {s : Stop β} {s₀ : Stop α}
    (h : t.Runs T s₀) (hs : s₀.early? = some s) : (t.bind f).Runs T s := by
  induction h with
  | halt o => cases o <;> cases hs <;> exact .halt _
  | waiting next => cases hs; exact .waiting _
  | tick _ ih => exact .tick (ih hs)
  | report n _ ih => exact .report n (ih hs)
  | request a _ ih => exact .request a (ih hs)

/-- A run of two trees in a row ends in the first, or goes through it into the second. -/
theorem runs_bind {t : Tree I α} {f : α → Tree I β} {s : Stop β} :
    (t.bind f).Runs T s ↔
      (∃ U V a, T = U ++ V ∧ t.Runs U (.ended (.ok a)) ∧ (f a).Runs V s) ∨
        ∃ s₀ : Stop α, t.Runs T s₀ ∧ s₀.early? = some s := by
  constructor
  · intro h
    -- the transcript is split where the first tree hands on its value
    induction t generalizing T with
    | halt o =>
      cases o with
      | ok a => exact .inl ⟨[], T, a, rfl, .halt _, h⟩
      | error e | fault x | stalled => cases h; exact .inr ⟨_, .halt _, rfl⟩
    | tick next ih =>
      rcases runs_tick.1 h with ⟨rfl, rfl⟩ | ⟨U, rfl, hU⟩
      · exact .inr ⟨_, .waiting _, rfl⟩
      rcases ih hU with ⟨U, V, a, rfl, h1, h2⟩ | ⟨s₀, h1, h2⟩
      · exact .inl ⟨.tick :: U, V, a, rfl, .tick h1, h2⟩
      · exact .inr ⟨s₀, .tick h1, h2⟩
    | report n next ih =>
      obtain ⟨U, rfl, hU⟩ := runs_report.1 h
      rcases ih hU with ⟨U, V, a, rfl, h1, h2⟩ | ⟨s₀, h1, h2⟩
      · exact .inl ⟨.report n :: U, V, a, rfl, .report n h1, h2⟩
      · exact .inr ⟨s₀, .report n h1, h2⟩
    | request r next ih =>
      obtain ⟨x, U, rfl, hU⟩ := runs_request.1 h
      rcases ih x hU with ⟨U, V, a, rfl, h1, h2⟩ | ⟨s₀, h1, h2⟩
      · exact .inl ⟨.access ⟨r, x⟩ :: U, V, a, rfl, .request x h1, h2⟩
      · exact .inr ⟨s₀, .request x h1, h2⟩
  · rintro (⟨U, V, a, rfl, h1, h2⟩ | ⟨s₀, h1, h2⟩)
    · exact h1.bind h2
    · exact h1.bind_early h2

/-- Two trees in a row hand on a value by handing on one each. -/
theorem runs_bind_ok {t : Tree I α} {f : α → Tree I β} {b : β} :
    (t.bind f).Runs T (.ended (.ok b)) ↔
      ∃ U V a, T = U ++ V ∧ t.Runs U (.ended (.ok a)) ∧ (f a).Runs V (.ended (.ok b)) := by
  rw [runs_bind, or_iff_left]
  rintro ⟨s₀, -, h⟩
  exact s₀.early?_ne_ok b h

theorem Runs.of_attempt {t : Tree I α} {s : Stop (Except Error α)} (h : t.attempt.Runs T s) :
    ∃ s₀, t.Runs T s₀ ∧ s = s₀.caught := by
  induction t generalizing T with
  | halt o => cases o <;> obtain ⟨rfl, rfl⟩ := runs_halt.1 h <;> exact ⟨_, .halt _, rfl⟩
  | tick next ih =>
    rcases runs_tick.1 h with ⟨rfl, rfl⟩ | ⟨U, rfl, hU⟩
    · exact ⟨_, .waiting _, rfl⟩
    · obtain ⟨s₀, hr, hs⟩ := ih hU
      exact ⟨s₀, .tick hr, hs⟩
  | report n next ih =>
    obtain ⟨U, rfl, hU⟩ := runs_report.1 h
    obtain ⟨s₀, hr, hs⟩ := ih hU
    exact ⟨s₀, .report n hr, hs⟩
  | request r next ih =>
    obtain ⟨a, U, rfl, hU⟩ := runs_request.1 h
    obtain ⟨s₀, hr, hs⟩ := ih a hU
    exact ⟨s₀, .request a hr, hs⟩

end Tree

end Bcm2835
