import Bcm2835.Device
import Bcm2835.Proofs.Transcript

/-! Hardware whose every answer is a function of the accesses so far. Such a behaviour picks one run
of a tree, its record. A record is a run of the relation (`Tree.runs_record`), a run the behaviour
answers for is its record (`Tree.record_eq_of_runs`), and a device that behaves so leaves exactly
the record behind (`Program.run_device`). -/

namespace Bcm2835

variable {I : Interface} {α : Type}

/-- What the hardware answers next, after these accesses. -/
def Behaviour (I : Interface) : Type := List (Access I) → (r : I.Request) → I.Answer r

namespace Behaviour

/-- After the accesses `past`, these answers are the ones it gives. -/
def Answers (hw : Behaviour I) : List (Access I) → List (Access I) → Prop
  | _, [] => True
  | past, a :: A => hw past a.request = a.answer ∧ hw.Answers (past ++ [a]) A

theorem answers_append {hw : Behaviour I} {past A B : List (Access I)} :
    hw.Answers past (A ++ B) ↔ hw.Answers past A ∧ hw.Answers (past ++ A) B := by
  induction A generalizing past with
  | nil => simp [Answers]
  | cons a A ih => simp [Answers, ih, and_assoc]

/-- Gives the answers of these accesses as long as the same is asked, and otherwise does as `hw`. -/
def repeating [DecidableEq I.Request] (A : List (Access I)) (hw : Behaviour I) : Behaviour I :=
  fun past r =>
    match A[past.length]? with
    | some a => if h : a.request = r then h ▸ a.answer else hw past r
    | none => hw past r

theorem answers_repeating [DecidableEq I.Request] (hw : Behaviour I) (past A : List (Access I)) :
    (repeating (past ++ A) hw).Answers past A := by
  generalize hB : past ++ A = B
  induction A generalizing past with
  | nil => trivial
  | cons a A ih =>
    refine ⟨?_, ih (past ++ [a]) (by simpa using hB)⟩
    have hnext : B[past.length]? = some a := by simp [← hB]
    simp [repeating, hnext]

/-- A device that remembers all accesses. -/
def device (hw : Behaviour I) : Device I (List (Access I)) where
  respond r past := some (hw past r, past ++ [⟨r, hw past r⟩])

@[simp] theorem respond_device (hw : Behaviour I) (r : I.Request) (past : List (Access I)) :
    hw.device.respond r past = some (hw past r, past ++ [⟨r, hw past r⟩]) := rfl

end Behaviour

namespace Outcome

variable {ε : Type} {wrap : Error → ε} {o : Outcome α}

/-- How a run ends in which an error is handed on like this. -/
def wrapped (wrap : Error → ε) : Outcome α → Outcome (Except ε α)
  | ok a => ok (.ok a)
  | error e => ok (.error (wrap e))
  | fault f => fault f
  | stalled => stalled

theorem wrapped_eq_ok {a : α} : o.wrapped wrap = ok (.ok a) ↔ o = ok a := by
  cases o with
  | ok b => simp [wrapped]
  | error e | fault f | stalled => simp [wrapped]

theorem wrapped_eq_error {x : ε} :
    o.wrapped wrap = ok (.error x) ↔ ∃ e, o = error e ∧ wrap e = x := by
  cases o with
  | error e => simp [wrapped]
  | ok b | fault f | stalled => simp [wrapped]

theorem exists_wrapped (wrap : Error → ε) {r : Except Error α}
    (h : (Stop.ended o).result? = some r) : ∃ r', o.wrapped wrap = ok r' := by
  cases o with
  | ok a => exact ⟨.ok a, rfl⟩
  | error e => exact ⟨.error (wrap e), rfl⟩
  | fault f | stalled => cases h

end Outcome

/-- A whole run: what happened in it and how it ended. -/
structure Record (I : Interface) (α : Type) where
  transcript : Transcript I
  outcome : Outcome α

namespace Record

def ticks (R : Record I α) : Nat := R.transcript.ticks

def after (e : Entry I) (R : Record I α) : Record I α := ⟨e :: R.transcript, R.outcome⟩

/-- The run with all this in front of it. -/
def behind (T : Transcript I) (R : Record I α) : Record I α := ⟨T ++ R.transcript, R.outcome⟩

end Record

namespace Tree

/-- The run in which the hardware answers as `hw` does. -/
def record (hw : Behaviour I) : Tree I α → List (Access I) → Record I α
  | halt o, _ => ⟨[], o⟩
  | tick next, past => (next.record hw past).after .tick
  | report n next, past => (next.record hw past).after (.report n)
  | request r next, past =>
    ((next (hw past r)).record hw (past ++ [⟨r, hw past r⟩])).after (.access ⟨r, hw past r⟩)

theorem runs_record (hw : Behaviour I) (t : Tree I α) (past : List (Access I)) :
    t.Runs (t.record hw past).transcript (.ended (t.record hw past).outcome) := by
  induction t generalizing past with
  | halt o => exact .halt o
  | tick next ih => exact .tick (ih past)
  | report n next ih => exact .report n (ih past)
  | request r next ih => exact .request _ (ih _ _)

theorem answers_record (hw : Behaviour I) (t : Tree I α) (past : List (Access I)) :
    hw.Answers past (t.record hw past).transcript.accesses := by
  induction t generalizing past with
  | halt o => trivial
  | tick next ih => exact ih past
  | report n next ih => exact ih past
  | request r next ih => exact ⟨rfl, ih _ _⟩

/-- A run to the end in which every answer is one `hw` gives is the record. -/
theorem record_eq_of_runs {hw : Behaviour I} {t : Tree I α} {past : List (Access I)}
    {T : Transcript I} {o : Outcome α} (h : t.Runs T (.ended o))
    (hT : hw.Answers past T.accesses) : t.record hw past = ⟨T, o⟩ := by
  generalize hs : Stop.ended o = s at h
  induction h generalizing past with
  | halt o => cases hs; rfl
  | waiting next => cases hs
  | tick _ ih => simp only [record, ih hT hs, Record.after]
  | report n _ ih => simp only [record, ih hT hs, Record.after]
  | request a _ ih =>
    obtain ⟨ha, hT⟩ := hT
    change hw past _ = a at ha
    subst ha
    simp only [record, ih hT hs, Record.after]

/-- Behind a tree that hands on a value the hardware goes on answering. -/
theorem record_bind_of_ok {β : Type} {hw : Behaviour I} {t : Tree I α} {f : α → Tree I β}
    {past : List (Access I)} {T : Transcript I} {a : α} (h : t.record hw past = ⟨T, .ok a⟩) :
    (t.bind f).record hw past = ((f a).record hw (past ++ T.accesses)).behind T := by
  have hruns := runs_record hw t past
  have hanswers := answers_record hw t past
  rw [h] at hruns hanswers
  refine record_eq_of_runs (hruns.bind (runs_record hw (f a) (past ++ T.accesses))) ?_
  rw [Transcript.accesses_append]
  exact Behaviour.answers_append.2 ⟨hanswers, answers_record ..⟩

/-- A tree in front of one that ends with a value hands on a value. -/
theorem exists_record_of_bind_ok {β : Type} {hw : Behaviour I} {t : Tree I α} {f : α → Tree I β}
    {past : List (Access I)} {b : β} (h : ((t.bind f).record hw past).outcome = .ok b) :
    ∃ T a, t.record hw past = ⟨T, .ok a⟩ := by
  have hruns := runs_record hw (t.bind f) past
  have hanswers := answers_record hw (t.bind f) past
  rw [h] at hruns
  obtain ⟨U, V, a, hUV, hU, -⟩ := runs_bind_ok.1 hruns
  rw [hUV, Transcript.accesses_append] at hanswers
  exact ⟨U, a, record_eq_of_runs hU (Behaviour.answers_append.1 hanswers).1⟩

theorem runFrom_device (hw : Behaviour I) (t : Tree I α) (past : List (Access I))
    (seen : List Notice) :
    t.runFrom hw.device past seen =
      ⟨(t.record hw past).outcome, past ++ (t.record hw past).transcript.accesses,
        seen.reverse ++ (t.record hw past).transcript.reports⟩ := by
  induction t generalizing past seen with
  | halt o => simp [runFrom, record]
  | tick next ih => simp [runFrom, record, Record.after, ih]
  | report n next ih => simp [runFrom, record, Record.after, ih]
  | request r next ih =>
    simp [runFrom, record, Record.after, ih]

end Tree

namespace Program

/-- The run with a limit on the rounds of each loop, on hardware that was not accessed before. -/
def record (hw : Behaviour I) (p : Program I α) (limit : Nat) : Record I α :=
  (p limit).record hw []

/-- Whether errors are handed on makes no difference to what happens. -/
theorem record_wrapping {ε : Type} {hw : Behaviour I} {limit : Nat} {past : List (Access I)}
    (wrap : Error → ε) (p : Program I α) :
    (p.wrapping wrap limit).record hw past =
      ⟨((p limit).record hw past).transcript, ((p limit).record hw past).outcome.wrapped wrap⟩ := by
  change Tree.record hw ((p limit).attempt.bind _) past = _
  induction p limit generalizing past with
  | halt o => cases o <;> rfl
  | tick next ih => exact congrArg (Record.after .tick) ih
  | report n next ih => exact congrArg (Record.after (.report n)) ih
  | request r next ih => exact congrArg (Record.after _) (ih _)

theorem run_device (hw : Behaviour I) (p : Program I α) (limit : Nat) :
    p.run limit hw.device [] =
      ⟨(p.record hw limit).outcome, (p.record hw limit).transcript.accesses,
        (p.record hw limit).transcript.reports⟩ := by
  simp only [run, record, Tree.runFrom_device, List.nil_append, List.reverse_nil]

end Program

/-! ## Hardware with a state -/

section
variable {σ : Type}

/-- Hardware that goes by `step` gets from one state to another over these accesses. -/
def Steps (step : σ → Access I → σ → Prop) : σ → List (Access I) → σ → Prop
  | s, [], s' => s' = s
  | s, a :: A, s' => ∃ m, step s a m ∧ Steps step m A s'

variable {step : σ → Access I → σ → Prop} {s s' : σ} {A B : List (Access I)}

theorem steps_singleton {a : Access I} : Steps step s [a] s' ↔ step s a s' := by
  constructor
  · rintro ⟨m, h, rfl⟩
    exact h
  · exact fun h => ⟨s', h, rfl⟩

theorem steps_append :
    Steps step s (A ++ B) s' ↔ ∃ m, Steps step s A m ∧ Steps step m B s' := by
  induction A generalizing s with
  | nil => simp [Steps]
  | cons a A ih =>
    simp only [List.cons_append, Steps, ih]
    constructor
    · rintro ⟨n, ha, m, hA, hB⟩
      exact ⟨m, ⟨n, ha, hA⟩, hB⟩
    · rintro ⟨m, ⟨n, ha, hA⟩, hB⟩
      exact ⟨n, ha, m, hA, hB⟩

/-- Accesses at which the state stays as it is. -/
theorem steps_of_idle (h : ∀ a ∈ A, ∀ m, step s a m ↔ m = s) : Steps step s A s' ↔ s' = s := by
  induction A with
  | nil => rfl
  | cons a A ih =>
    have ha := h a List.mem_cons_self
    have hA := ih fun b hb => h b (List.mem_cons_of_mem _ hb)
    constructor
    · rintro ⟨m, hm, hs⟩
      obtain rfl := (ha m).1 hm
      exact hA.1 hs
    · intro hs
      exact ⟨s, (ha s).2 rfl, hA.2 hs⟩

namespace Device

/-- The device gives this answer, and is in the second state then. -/
def Step (d : Device I σ) (s : σ) (a : Access I) (s' : σ) : Prop :=
  d.respond a.request s = some (a.answer, s')

/-- A run to the end in which every answer is one the device gives is the run on the device. -/
theorem runFrom_of_runs {d : Device I σ} {t : Tree I α} {T : Transcript I} {o : Outcome α}
    (h : t.Runs T (.ended o)) (hd : Steps d.Step s T.accesses s') (seen : List Notice) :
    t.runFrom d s seen = ⟨o, s', seen.reverse ++ T.reports⟩ := by
  generalize hs : Stop.ended o = stop at h
  induction h generalizing s seen with
  | halt o =>
    cases hs
    obtain rfl : s' = s := hd
    simp [Tree.runFrom]
  | waiting next => cases hs
  | tick _ ih => exact ih hd seen hs
  | report n _ ih =>
    rw [Tree.runFrom, ih hd _ hs]
    simp
  | request a _ ih =>
    obtain ⟨m, hm, hA⟩ := hd
    have hrespond : d.respond _ s = some (a, m) := hm
    rw [Tree.runFrom, hrespond]
    exact ih hA seen hs

end Device

namespace Program

variable {β : Type} {d : Device I σ} {limit : Nat}

/-- The program hands on `a`, and the device goes from the one state to the other. -/
def Completes (d : Device I σ) (p : Program I α) (limit : Nat) (s : σ) (a : α) (s' : σ) : Prop :=
  ∃ T : Transcript I, (p limit).Runs T (.ended (.ok a)) ∧ Steps d.Step s T.accesses s'

theorem completes_pure (a : α) : Completes d (pure a) limit s a s := ⟨[], .halt _, rfl⟩

theorem Completes.bind {p : Program I α} {f : α → Program I β} {a : α} {b : β} {m : σ}
    (hp : p.Completes d limit s a m) (hf : (f a).Completes d limit m b s') :
    (p >>= f).Completes d limit s b s' := by
  obtain ⟨T, hT, hA⟩ := hp
  obtain ⟨U, hU, hB⟩ := hf
  refine ⟨T ++ U, hT.bind hU, ?_⟩
  rw [Transcript.accesses_append]
  exact steps_append.2 ⟨m, hA, hB⟩

theorem Completes.run {p : Program I α} {a : α} (h : p.Completes d limit s a s') :
    (p.run limit d s).outcome = .ok a ∧ (p.run limit d s).state = s' := by
  obtain ⟨T, hT, hA⟩ := h
  rw [Program.run, Device.runFrom_of_runs hT hA]
  exact ⟨rfl, rfl⟩

end Program

end

end Bcm2835
