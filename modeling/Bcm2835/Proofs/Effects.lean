import Bcm2835.Proofs.Everywhere
import Bcm2835.Proofs.Metering
import Bcm2835.Proofs.Waiting

/-! What every run of a program does to the hardware, wherever it is left. A property of lists that
holds of the empty one and of two such lists in a row is `Additive`; if it holds of the accesses of
every run of the parts of a program, it holds of those of the program (`Program.Leaves`): there is
one lemma for each construct, under the name of `Additive`. -/

namespace Bcm2835

/-- Holds of nothing, and of two such lists in a row. -/
structure Additive {α : Type} (P : List α → Prop) : Prop where
  nil : P []
  append : ∀ {A B}, P A → P B → P (A ++ B)

section
variable {α : Type} {P Q : List α → Prop}

theorem additive_forall (q : α → Prop) : Additive fun A => ∀ a ∈ A, q a where
  nil := List.forall_mem_nil q
  append hA hB := List.forall_mem_append.2 ⟨hA, hB⟩

theorem additive_everywhere {good : List α → α → List α → Prop} (h : Lasting good) :
    Additive (Everywhere good) where
  nil := everywhere_nil
  append hA hB := hA.append h hB

theorem Additive.and (hP : Additive P) (hQ : Additive Q) : Additive fun A => P A ∧ Q A where
  nil := ⟨hP.nil, hQ.nil⟩
  append hA hB := ⟨hP.append hA.1 hB.1, hQ.append hA.2 hB.2⟩

end

variable {I J : Interface} {α β σ γ : Type}

/-- The accesses of every run of the program have the property. -/
def Program.Leaves (P : List (Access I) → Prop) (p : Program I α) : Prop :=
  ∀ ⦃limit : Nat⦄ ⦃T : Transcript I⦄ ⦃s : Stop α⦄, (p limit).Runs T s → P T.accesses

open Program

variable {P Q : List (Access I) → Prop} {p : Program I α} {f : α → Program I β}

theorem Program.Leaves.imp (h : p.Leaves P) (hPQ : ∀ A, P A → Q A) : p.Leaves Q :=
  fun _ _ _ hT => hPQ _ (h hT)

/-- A budget cuts runs short, and does nothing else. -/
theorem Program.Leaves.within (h : p.Leaves P) (b : Budget) : (within b p).Leaves P := by
  intro limit T s hT
  obtain ⟨s₀, b', hrun, -⟩ := runs_within.1 hT
  exact h hrun

theorem leaves_request (r : I.Request) (h : ∀ a, P [⟨r, a⟩]) :
    (request r : Program I (I.Answer r)).Leaves P := by
  intro limit T s hT
  obtain ⟨a, U, rfl, hU⟩ := Tree.runs_request.1 hT
  obtain ⟨rfl, -⟩ := Tree.runs_halt.1 hU
  exact h a

theorem Tree.lower_bind (g : (r : I.Request) → Tree J (I.Answer r)) (t : Tree I α)
    (f : α → Tree I β) : (t.bind f).lower g = (t.lower g).bind fun a => (f a).lower g := by
  induction t with
  | halt o => cases o <;> rfl
  | tick next ih => exact congrArg Tree.tick ih
  | report n next ih => exact congrArg (Tree.report n) ih
  | request r next ih =>
    have hnext : (fun a => ((next a).bind f).lower g) =
        fun a => ((next a).lower g).bind fun b => (f b).lower g := funext ih
    show (g r).bind (fun a => ((next a).bind f).lower g) = _
    rw [hnext, ← Tree.bind_assoc]
    rfl

theorem Program.lower_bind (g : (r : I.Request) → Program J (I.Answer r)) (p : Program I α)
    (f : α → Program I β) : (p >>= f).lower g = p.lower g >>= fun a => (f a).lower g :=
  funext fun limit => Tree.lower_bind (fun r => g r limit) (p limit) fun a => f a limit

namespace Additive

variable (hP : Additive P)
include hP

theorem ofOutcome (o : Outcome α) : (ofOutcome o : Program I α).Leaves P := by
  intro limit T s hT
  obtain ⟨rfl, -⟩ := Tree.runs_halt.1 hT
  exact hP.nil

theorem pure (a : α) : (Pure.pure a : Program I α).Leaves P := hP.ofOutcome (.ok a)

theorem ofFaulty (x : Except Fault α) : (ofFaulty x : Program I α).Leaves P := by
  cases x with
  | ok a => exact hP.pure a
  | error x => exact hP.ofOutcome (.fault x)

theorem report (n : Notice) : (Program.report n : Program I Unit).Leaves P := by
  intro limit T s hT
  obtain ⟨U, rfl, hU⟩ := Tree.runs_report.1 hT
  obtain ⟨rfl, -⟩ := Tree.runs_halt.1 hU
  exact hP.nil

theorem tick : (Program.tick : Program I Unit).Leaves P := by
  intro limit T s hT
  rcases Tree.runs_tick.1 hT with ⟨rfl, -⟩ | ⟨U, rfl, hU⟩
  · exact hP.nil
  · obtain ⟨rfl, -⟩ := Tree.runs_halt.1 hU
    exact hP.nil

theorem bind (hp : p.Leaves P) (hf : ∀ a, (f a).Leaves P) : (p >>= f).Leaves P := by
  intro limit T s hT
  rcases Tree.runs_bind.1 hT with ⟨U, V, a, rfl, hU, hV⟩ | ⟨s₀, hT, -⟩
  · rw [Transcript.accesses_append]
    exact hP.append (hp hU) (hf a hV)
  · exact hp hT

theorem map (g : α → β) (hp : p.Leaves P) : (g <$> p).Leaves P :=
  hP.bind hp fun a => hP.pure (g a)

theorem forM {g : γ → Program I Unit} {l : List γ} (h : ∀ x ∈ l, (g x).Leaves P) :
    (l.forM g).Leaves P := by
  induction l with
  | nil => exact hP.pure ()
  | cons x l ih =>
    apply hP.bind (h x List.mem_cons_self)
    intro _
    exact ih fun y hy => h y (List.mem_cons_of_mem x hy)

theorem loop {step : σ → Program I (Step σ α)} (h : ∀ x, (step x).Leaves P) (x : σ) :
    (loop step x).Leaves P := by
  intro limit
  suffices H : ∀ n x T s, (Tree.rounds (fun x => step x limit) n x).Runs T s → P T.accesses from
    fun T s => H limit x T s
  intro n
  induction n with
  | zero =>
    intro x T s hT
    obtain ⟨rfl, -⟩ := Tree.runs_rounds_zero.1 hT
    exact hP.nil
  | succ n ih =>
    intro x T s hT
    rcases Tree.runs_rounds_succ.1 hT with ⟨a, hT, -⟩ | ⟨U, V, y, rfl, hU, hV⟩ | ⟨s₀, hT, -⟩
    · exact h x hT
    · rw [Transcript.accesses_append]
      exact hP.append (h x hU) (ih y V s hV)
    · exact h x hT

theorem waitUntil {ready : Program I Bool} (h : ready.Leaves P) : (waitUntil ready).Leaves P := by
  apply hP.loop
  intro _
  apply hP.bind h
  intro answer
  cases answer with
  | true => exact hP.pure _
  | false => exact hP.bind hP.tick fun _ => hP.pure _

theorem drain {ready : Program I Bool} {out : Program I Unit} (h : ready.Leaves P)
    (hout : out.Leaves P) : (drain ready out).Leaves P := by
  apply hP.loop
  intro _
  apply hP.bind h
  intro answer
  cases answer with
  | true => exact hP.bind hout fun _ => hP.bind hP.tick fun _ => hP.pure _
  | false => exact hP.pure _

/-- A program that asks only for this runs on what carries these requests out. -/
theorem lower {q : J.Request → Prop} {g : (r : J.Request) → Program I (J.Answer r)}
    (hw : Behaviour J) (h : ∀ r, q r → (g r).Leaves P) {p : Program J α}
    (hp : p.Leaves fun A => ∀ a ∈ A, q a.request) : (p.lower g).Leaves P := by
  intro limit
  suffices H : ∀ t : Tree J α, (∀ T s, t.Runs T s → ∀ a ∈ T.accesses, q a.request) →
      ∀ T s, (t.lower fun r => g r limit).Runs T s → P T.accesses from
    fun T s => H (p limit) (fun _ _ hT => hp hT) T s
  intro t
  induction t with
  | halt o =>
    intro _ T s hT
    obtain ⟨rfl, -⟩ := Tree.runs_halt.1 hT
    exact hP.nil
  | tick next ih =>
    intro hq T s hT
    rcases Tree.runs_tick.1 hT with ⟨rfl, -⟩ | ⟨U, rfl, hU⟩
    · exact hP.nil
    · exact ih (fun V s hV => hq (.tick :: V) s hV.tick) U s hU
  | report n next ih =>
    intro hq T s hT
    obtain ⟨U, rfl, hU⟩ := Tree.runs_report.1 hT
    exact ih (fun V s hV => hq (.report n :: V) s (hV.report n)) U s hU
  | request r next ih =>
    intro hq T s hT
    have hasked : q r := by
      -- there is a run that gets to the request, whatever comes behind it
      have hrun := Tree.runs_record hw (.request r next) []
      obtain ⟨a, U, hU, -⟩ := Tree.runs_request.1 hrun
      apply hq _ _ hrun ⟨r, a⟩
      rw [hU]
      exact List.mem_cons_self
    rcases Tree.runs_bind.1 hT with ⟨U, V, a, rfl, hU, hV⟩ | ⟨s₀, hT, -⟩
    · rw [Transcript.accesses_append]
      refine hP.append (h r hasked hU) (ih a ?_ V s hV)
      intro W s hW b hb
      exact hq (.access ⟨r, a⟩ :: W) s (hW.request a) b (List.mem_cons_of_mem _ hb)
    · exact h r hasked hT

end Additive

end Bcm2835
