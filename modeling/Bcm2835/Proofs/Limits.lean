import Bcm2835.Budget
import Bcm2835.Proofs.Behaviour

/-! What the limit on the rounds of a loop means. A larger limit follows a run further and changes
nothing about the part of it that was followed before (`Tree.Extends`), so a run that was not given
up is the same run under every larger limit (`Program.Steady.record_eq`). -/

namespace Bcm2835

variable {I : Interface} {α β σ : Type}

namespace Tree

/-- The second tree goes on where the first one was given up, and is the same everywhere else. -/
inductive Extends : Tree I α → Tree I α → Prop
  | stalled (t : Tree I α) : Extends (.halt .stalled) t
  | halt (o : Outcome α) : Extends (.halt o) (.halt o)
  | tick {t t' : Tree I α} : Extends t t' → Extends (.tick t) (.tick t')
  | report (n : Notice) {t t' : Tree I α} : Extends t t' → Extends (.report n t) (.report n t')
  | request {r : I.Request} {next next' : I.Answer r → Tree I α} :
    (∀ a, Extends (next a) (next' a)) → Extends (.request r next) (.request r next')

namespace Extends

variable {t t' : Tree I α} {f f' : α → Tree I β}

theorem refl (t : Tree I α) : Extends t t := by
  induction t with
  | halt o => exact .halt o
  | tick _ ih => exact .tick ih
  | report n _ ih => exact .report n ih
  | request r _ ih => exact .request ih

theorem bind (h : Extends t t') (hf : ∀ a, Extends (f a) (f' a)) :
    Extends (t.bind f) (t'.bind f') := by
  induction h with
  | stalled t => exact .stalled _
  | halt o =>
    cases o with
    | ok a => exact hf a
    | error | fault | stalled => exact .halt _
  | tick _ ih => exact .tick ih
  | report n _ ih => exact .report n ih
  | request _ ih => exact .request ih

theorem metered (h : Extends t t') (b : Budget) : Extends (t.metered b) (t'.metered b) := by
  induction h generalizing b with
  | stalled t => exact .stalled _
  | halt o => exact .refl _
  | tick _ ih =>
    rw [Tree.metered, Tree.metered]
    cases b.take? with
    | none => exact .halt _
    | some b => exact .tick (ih b)
  | report n _ ih => exact .report n (ih b)
  | request _ ih => exact .request fun a => ih a b

theorem rounds {step step' : σ → Tree I (Step σ α)} (h : ∀ x, Extends (step x) (step' x))
    {n m : Nat} (hn : n ≤ m) (x : σ) : Extends (rounds step n x) (rounds step' m x) := by
  induction n generalizing m x with
  | zero => exact .stalled _
  | succ n ih =>
    obtain ⟨m, rfl⟩ := Nat.exists_eq_add_of_le' (Nat.le_trans (Nat.le_add_left 1 n) hn)
    refine (h x).bind fun y => ?_
    cases y with
    | again y => exact ih (Nat.le_of_succ_le_succ hn) y
    | done a => exact .halt _

theorem record_eq {hw : Behaviour I} {past : List (Access I)} (h : Extends t t')
    (ho : (t.record hw past).outcome ≠ .stalled) : t'.record hw past = t.record hw past := by
  induction h generalizing past with
  | stalled t => exact absurd rfl ho
  | halt o => rfl
  | tick _ ih => exact congrArg (Record.after .tick) (ih ho)
  | report n _ ih => exact congrArg (Record.after (.report n)) (ih ho)
  | request _ ih => exact congrArg (Record.after _) (ih _ ho)

theorem isPrefix_transcript {hw : Behaviour I} {past : List (Access I)} (h : Extends t t') :
    (t.record hw past).transcript <+: (t'.record hw past).transcript := by
  induction h generalizing past with
  | stalled t => exact List.nil_prefix
  | halt o => exact List.prefix_refl _
  | tick _ ih => exact (List.prefix_cons_inj _).2 ih
  | report n _ ih => exact (List.prefix_cons_inj _).2 ih
  | request _ ih => exact (List.prefix_cons_inj _).2 (ih _)

end Extends

end Tree

namespace Program

/-- A larger limit only follows the program further. -/
def Steady (p : Program I α) : Prop := ∀ ⦃n m : Nat⦄, n ≤ m → (p n).Extends (p m)

namespace Steady

variable {p : Program I α} {f : α → Program I β}

theorem const (t : Tree I α) : Steady fun _ : Nat => t := fun _ _ _ => .refl t

theorem bind (h : Steady p) (hf : ∀ a, Steady (f a)) : Steady (p >>= f) :=
  fun _ _ hn => (h hn).bind fun a => hf a hn

theorem loop {step : σ → Program I (Step σ α)} (h : ∀ x, Steady (step x)) (x : σ) :
    Steady (loop step x) :=
  fun _ _ hn => .rounds (fun x => h x hn) hn x

theorem waitUntil {ready : Program I Bool} (h : Steady ready) : Steady (waitUntil ready) := by
  refine loop (fun _ => h.bind fun answer => ?_) ()
  cases answer <;> exact fun _ _ _ => .refl _

theorem drain {ready : Program I Bool} {out : Program I Unit} (h : Steady ready)
    (hout : Steady out) : Steady (drain ready out) := by
  refine loop (fun _ => h.bind fun answer => ?_) ()
  cases answer with
  | true => exact hout.bind fun _ _ _ _ => .refl _
  | false => exact fun _ _ _ => .refl _

theorem within (h : Steady p) (b : Budget) : Steady (within b p) :=
  fun _ _ hn => ((h hn).metered b).bind fun x => by
    obtain ⟨a | e, b⟩ := x <;> exact .refl _

/-- A run that was not given up is the same under every larger limit. -/
theorem record_eq {hw : Behaviour I} {n m : Nat} (h : Steady p) (hn : n ≤ m)
    (ho : (p.record hw n).outcome ≠ .stalled) : p.record hw m = p.record hw n :=
  (h hn).record_eq ho

end Steady

end Program

end Bcm2835
