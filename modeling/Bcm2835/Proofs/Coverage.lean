import Bcm2835.Proofs.Metering

/-! When one budget covers a whole operation (`Covers`). An operation whose parts draw on one
counter follows its unbounded form in lockstep and times out at the first unit too many
(`Tree.Follows`), and every operation that does so is covered (`covers_of_follows`). The relation is
closed under whatever does not wait; it is not closed under composition of operations that each
start from the whole budget, except for an empty one (`Tree.Follows.bind_zero`). For those there is
only the sum of what the parts may spend (`Tree.Costs.bind`). -/

namespace Bcm2835

variable {I J : Interface} {α β : Type}

/-- `n` units of budget cover an operation: no run spends more; a run that needs no more is as it is
without a budget; and where one more is needed the operation times out, with no further access
except such as `memory` allows. -/
structure Covers (memory : I.Request → Prop) (op : Budget → Program I α) (n : Nat) : Prop where
  spends : ∀ limit T o, (op (.bounded n) limit).Runs T (.ended o) → T.ticks ≤ n
  keeps : ∀ limit T o, (op .unlimited limit).Runs T (.ended o) → T.ticks ≤ n →
    (op (.bounded n) limit).Runs T (.ended o)
  fails : ∀ limit T, (op .unlimited limit).Runs T .waiting → T.ticks = n →
    (∃ U, (op (.bounded n) limit).Runs (T ++ U) (.ended (.error .timeout))) ∧
      ∀ U o, (op (.bounded n) limit).Runs (T ++ U) (.ended o) →
        o = .error .timeout ∧ U.ticks = 0 ∧ ∀ a ∈ U.accesses, memory a.request

namespace Tree

/-- At most `n` units of waiting, whatever the answers are. -/
inductive Costs : Nat → Tree I α → Prop
  | halt (n : Nat) (o : Outcome α) : Costs n (.halt o)
  | tick {n : Nat} {t : Tree I α} : Costs n t → Costs (n + 1) (.tick t)
  | report {n : Nat} (m : Notice) {t : Tree I α} : Costs n t → Costs n (.report m t)
  | request {n : Nat} {r : I.Request} {next : I.Answer r → Tree I α} :
    (∀ a, Costs n (next a)) → Costs n (.request r next)

namespace Costs

variable {n m : Nat} {t : Tree I α} {f : α → Tree I β}

theorem ticks_le (h : Costs n t) {T : Transcript I} {s : Stop α} (hT : t.Runs T s) :
    T.ticks ≤ n := by
  induction h generalizing T with
  | halt n o => obtain ⟨rfl, -⟩ := runs_halt.1 hT; exact Nat.zero_le _
  | tick _ ih =>
    rcases runs_tick.1 hT with ⟨rfl, -⟩ | ⟨U, rfl, hU⟩
    · exact Nat.zero_le _
    · exact Nat.succ_le_succ (ih hU)
  | report _ _ ih =>
    obtain ⟨U, rfl, hU⟩ := runs_report.1 hT
    have := ih hU
    exact this
  | request _ ih =>
    obtain ⟨a, U, rfl, hU⟩ := runs_request.1 hT
    have := ih a hU
    exact this

theorem mono (h : Costs n t) (hm : n ≤ m) : Costs m t := by
  induction h generalizing m with
  | halt n o => exact .halt m o
  | tick _ ih =>
    obtain ⟨k, rfl⟩ := Nat.exists_eq_add_of_le' (Nat.le_trans (Nat.le_add_left 1 _) hm)
    exact .tick (ih (Nat.le_of_succ_le_succ hm))
  | report p _ ih => exact .report p (ih hm)
  | request _ ih => exact .request fun a => ih a hm

/-- Operations in a row cost as much as all of them together. -/
theorem bind (h : Costs n t) (hf : ∀ a, Costs m (f a)) : Costs (n + m) (t.bind f) := by
  induction h with
  | halt n o =>
    cases o with
    | ok a => exact (hf a).mono (Nat.le_add_left m n)
    | error | fault | stalled => exact .halt _ _
  | tick _ ih => exact Nat.succ_add .. ▸ .tick ih
  | report p _ ih => exact .report p ih
  | request _ ih => exact .request ih

theorem lower {f : (r : I.Request) → Tree J (I.Answer r)} (h : Costs n t)
    (hf : ∀ r, Costs 0 (f r)) : Costs n (t.lower f) := by
  induction h with
  | halt n o => exact .halt n o
  | tick _ ih => exact .tick ih
  | report p _ ih => exact .report p ih
  | @request n r _ _ ih =>
    have := (hf r).bind ih
    rwa [Nat.zero_add] at this

end Costs

/-- A run whose every access some run of the lower program makes without waiting is a run there. -/
theorem Runs.exists_lower {g : (r : I.Request) → Tree J (I.Answer r)} {t : Tree I α}
    {T : Transcript I} {s : Stop α} (h : t.Runs T s)
    (hT : ∀ a ∈ T.accesses, ∃ U, (g a.request).Runs U (.ended (.ok a.answer)) ∧ U.ticks = 0) :
    ∃ U, (t.lower g).Runs U s ∧ U.ticks = T.ticks := by
  induction h with
  | halt o => exact ⟨[], .halt o, rfl⟩
  | waiting next => exact ⟨[], .waiting _, rfl⟩
  | tick _ ih =>
    obtain ⟨U, hU, hn⟩ := ih hT
    exact ⟨.tick :: U, .tick hU, congrArg Nat.succ hn⟩
  | report m _ ih =>
    obtain ⟨U, hU, hn⟩ := ih hT
    exact ⟨.report m :: U, .report m hU, hn⟩
  | request a _ ih =>
    obtain ⟨V, hV, hn'⟩ := hT _ List.mem_cons_self
    obtain ⟨U, hU, hn⟩ := ih fun b hb => hT b (List.mem_cons_of_mem _ hb)
    exact ⟨V ++ U, hV.bind hU, by simp [hn', hn]⟩

/-- A timeout, after accesses of this kind only. -/
inductive TimesOut (memory : I.Request → Prop) : Tree I α → Prop
  | halt : TimesOut memory (.halt (.error .timeout))
  | request {r : I.Request} {next : I.Answer r → Tree I α} (a : I.Answer r) :
    memory r → (∀ a, TimesOut memory (next a)) → TimesOut memory (.request r next)

namespace TimesOut

variable {memory : I.Request → Prop} {t : Tree I α}

theorem costs (h : TimesOut memory t) : Costs 0 t := by
  induction h with
  | halt => exact .halt ..
  | request _ _ _ ih => exact .request ih

theorem exists_runs (h : TimesOut memory t) : ∃ T, t.Runs T (.ended (.error .timeout)) := by
  induction h with
  | halt => exact ⟨[], .halt _⟩
  | request a _ _ ih =>
    obtain ⟨T, hT⟩ := ih a
    exact ⟨_, .request a hT⟩

theorem of_runs (h : TimesOut memory t) {T : Transcript I} {o : Outcome α}
    (hT : t.Runs T (.ended o)) : o = .error .timeout ∧ ∀ a ∈ T.accesses, memory a.request := by
  induction h generalizing T with
  | halt =>
    obtain ⟨rfl, ho⟩ := runs_halt.1 hT
    exact ⟨Stop.ended.inj ho, by simp⟩
  | request _ hr _ ih =>
    obtain ⟨a, U, rfl, hU⟩ := runs_request.1 hT
    obtain ⟨ho, hU⟩ := ih a hU
    exact ⟨ho, by simpa using ⟨hr, hU⟩⟩

theorem bind {f : α → Tree I β} (h : TimesOut memory t) : TimesOut memory (t.bind f) := by
  induction h with
  | halt => exact .halt
  | request a hr _ ih => exact .request a hr ih

theorem lower {memory' : J.Request → Prop} {g : (r : I.Request) → Tree J (I.Answer r)}
    (hg : ∀ r, memory r → ∀ next : I.Answer r → Tree J α, (∀ a, TimesOut memory' (next a)) →
      TimesOut memory' ((g r).bind next))
    (h : TimesOut memory t) : TimesOut memory' (t.lower g) := by
  induction h with
  | halt => exact .halt
  | request _ hr _ ih => exact hg _ hr _ ih

end TimesOut

/-- The second tree does what the first one does, up to the unit of waiting behind the first `n`.
There it times out. -/
inductive Follows (memory : I.Request → Prop) : Nat → Tree I α → Tree I α → Prop
  | halt (n : Nat) (o : Outcome α) : Follows memory n (.halt o) (.halt o)
  | tick {n : Nat} {t t' : Tree I α} :
    Follows memory n t t' → Follows memory (n + 1) (.tick t) (.tick t')
  | cut {t t' : Tree I α} : TimesOut memory t' → Follows memory 0 (.tick t) t'
  | report {n : Nat} (m : Notice) {t t' : Tree I α} :
    Follows memory n t t' → Follows memory n (.report m t) (.report m t')
  | request {n : Nat} {r : I.Request} {next next' : I.Answer r → Tree I α} :
    (∀ a, Follows memory n (next a) (next' a)) →
      Follows memory n (.request r next) (.request r next')

/-- What does not wait follows itself. -/
theorem Costs.follows {memory : I.Request → Prop} {t : Tree I α} (h : Costs 0 t) (n : Nat) :
    Follows memory n t t := by
  generalize hk : 0 = k at h
  induction h with
  | halt k o => exact .halt n o
  | tick => cases hk
  | report m _ ih => exact .report m (ih hk)
  | request _ ih => exact .request fun a => ih a hk

/-- So does it in front of something that follows. -/
theorem Costs.bind_follows {memory : I.Request → Prop} {n : Nat} {t : Tree I α}
    {f f' : α → Tree I β} (h : Costs 0 t) (hf : ∀ a, Follows memory n (f a) (f' a)) :
    Follows memory n (t.bind f) (t.bind f') := by
  generalize hk : 0 = k at h
  induction h with
  | halt k o =>
    cases o with
    | ok a => exact hf a
    | error | fault | stalled => exact .halt n _
  | tick => cases hk
  | report m _ ih => exact .report m (ih hk)
  | request _ ih => exact .request fun a => ih a hk

namespace Follows

variable {memory : I.Request → Prop} {n : Nat} {t t' : Tree I α} {f f' : α → Tree I β}
  {T : Transcript I} {o : Outcome α}

theorem costs (h : Follows memory n t t') : Costs n t' := by
  induction h with
  | halt n o => exact .halt n o
  | tick _ ih => exact .tick ih
  | cut h => exact h.costs
  | report m _ ih => exact .report m ih
  | request _ ih => exact .request ih

theorem keeps (h : Follows memory n t t') (hT : t.Runs T (.ended o)) (hn : T.ticks ≤ n) :
    t'.Runs T (.ended o) := by
  induction h generalizing T with
  | halt n o => exact hT
  | tick _ ih =>
    rcases runs_tick.1 hT with ⟨-, h⟩ | ⟨U, rfl, hU⟩
    · cases h
    · exact .tick (ih hU (Nat.le_of_succ_le_succ hn))
  | cut =>
    rcases runs_tick.1 hT with ⟨-, h⟩ | ⟨U, rfl, -⟩
    · cases h
    · exact absurd hn (Nat.not_succ_le_zero _)
  | report m _ ih =>
    obtain ⟨U, rfl, hU⟩ := runs_report.1 hT
    exact .report m (ih hU hn)
  | request _ ih =>
    obtain ⟨a, U, rfl, hU⟩ := runs_request.1 hT
    exact .request a (ih a hU hn)

theorem fails (h : Follows memory n t t') (hT : t.Runs T .waiting) (hn : T.ticks = n) :
    (∃ U, t'.Runs (T ++ U) (.ended (.error .timeout))) ∧
      ∀ U o, t'.Runs (T ++ U) (.ended o) →
        o = .error .timeout ∧ U.ticks = 0 ∧ ∀ a ∈ U.accesses, memory a.request := by
  induction h generalizing T with
  | halt n o =>
    obtain ⟨-, h⟩ := runs_halt.1 hT
    cases h
  | tick _ ih =>
    rcases runs_tick.1 hT with ⟨rfl, -⟩ | ⟨V, rfl, hV⟩
    · cases hn
    obtain ⟨⟨U, hU⟩, hall⟩ := ih hV (Nat.succ.inj hn)
    refine ⟨⟨U, .tick hU⟩, fun U o h => hall U o ?_⟩
    cases h; assumption
  | cut h =>
    rcases runs_tick.1 hT with ⟨rfl, -⟩ | ⟨V, rfl, -⟩
    · refine ⟨h.exists_runs, fun U o hU => ?_⟩
      obtain ⟨ho, ha⟩ := h.of_runs hU
      exact ⟨ho, Nat.le_zero.1 (h.costs.ticks_le hU), ha⟩
    · cases hn
  | report m _ ih =>
    obtain ⟨V, rfl, hV⟩ := runs_report.1 hT
    obtain ⟨⟨U, hU⟩, hall⟩ := ih hV hn
    refine ⟨⟨U, .report m hU⟩, fun U o h => hall U o ?_⟩
    cases h; assumption
  | request _ ih =>
    obtain ⟨a, V, rfl, hV⟩ := runs_request.1 hT
    obtain ⟨⟨U, hU⟩, hall⟩ := ih a hV hn
    refine ⟨⟨U, .request a hU⟩, fun U o h => hall U o ?_⟩
    cases h; assumption

/-- What comes behind an operation may do anything but wait. -/
theorem bind_costs (h : Follows memory n t t') (hf : ∀ a, Costs 0 (f a)) :
    Follows memory n (t.bind f) (t'.bind f) := by
  induction h with
  | halt n o =>
    cases o with
    | ok a => exact (hf a).follows n
    | error | fault | stalled => exact .halt n _
  | tick _ ih => exact .tick ih
  | cut h => exact .cut h.bind
  | report m _ ih => exact .report m ih
  | request _ ih => exact .request ih

/-- Operations in a row may all start from the whole budget if there is none. -/
theorem bind_zero (h : Follows memory 0 t t') (hf : ∀ a, Follows memory 0 (f a) (f' a)) :
    Follows memory 0 (t.bind f) (t'.bind f') := by
  generalize hk : 0 = k at h
  induction h with
  | halt k o =>
    cases o with
    | ok a => exact hk ▸ hf a
    | error | fault | stalled => exact .halt _ _
  | tick => cases hk
  | cut h => exact .cut h.bind
  | report m _ ih => exact .report m (ih hk)
  | request _ ih => exact .request fun a => ih a hk

theorem lower {memory' : J.Request → Prop} {g : (r : I.Request) → Tree J (I.Answer r)}
    (hg : ∀ r, Costs 0 (g r))
    (hm : ∀ r, memory r → ∀ next : I.Answer r → Tree J α, (∀ a, TimesOut memory' (next a)) →
      TimesOut memory' ((g r).bind next))
    (h : Follows memory n t t') : Follows memory' n (t.lower g) (t'.lower g) := by
  induction h with
  | halt n o => exact .halt n o
  | tick _ ih => exact .tick ih
  | cut h => exact .cut (h.lower hm)
  | report m _ ih => exact .report m ih
  | request _ ih => exact (hg _).bind_follows ih

end Follows

end Tree

/-- A metered program in front of something that goes on with what is left of its budget. -/
theorem Tree.follows_metered_bind {memory : I.Request → Prop} {n : Nat} {t : Tree I α}
    {f : Except Error α × Budget → Tree I β}
    (hf : ∀ x m, Follows memory m (f (x, .unlimited)) (f (x, .bounded m)))
    (hcut : TimesOut memory (f (.error .timeout, .bounded 0))) :
    Follows memory n ((t.metered .unlimited).bind f) ((t.metered (.bounded n)).bind f) := by
  -- a unit of waiting takes one from the counter, so the induction is for all counters at once
  induction t generalizing n with
  | halt o =>
    cases o with
    | ok a => exact hf (.ok a) n
    | error e => exact hf (.error e) n
    | fault | stalled => exact .halt n _
  | tick next ih =>
    cases n with
    | zero => exact .cut hcut
    | succ n => exact .tick ih
  | report m next ih => exact .report m ih
  | request r next ih => exact .request fun a => ih a

theorem Program.within_follows {memory : I.Request → Prop} (p : Program I α) (n limit : Nat) :
    Tree.Follows memory n (p.within .unlimited limit) (p.within (.bounded n) limit) := by
  refine Tree.follows_metered_bind (fun x m => ?_) .halt
  cases x <;> exact .halt m _

theorem Program.within_costs (p : Program I α) (n limit : Nat) :
    (p.within (.bounded n) limit).Costs n :=
  (within_follows (I := I) p n limit : Tree.Follows (fun _ => False) n _ _).costs

theorem covers_of_follows {memory : I.Request → Prop} {op : Budget → Program I α} {n : Nat}
    (h : ∀ limit, Tree.Follows memory n (op .unlimited limit) (op (.bounded n) limit)) :
    Covers memory op n where
  spends limit _ _ hT := (h limit).costs.ticks_le hT
  keeps limit _ _ hT hn := (h limit).keeps hT hn
  fails limit _ hT hn := (h limit).fails hT hn

/-- An operation that may spend its budget twice is covered by an empty one only. -/
theorem covers_iff_eq_zero {memory : I.Request → Prop} {op : Budget → Program I α} {n : Nat}
    (hzero : ∀ limit, Tree.Follows memory 0 (op .unlimited limit) (op (.bounded 0) limit))
    (htwice : ∃ limit T o, (op (.bounded n) limit).Runs T (.ended o) ∧ n + n ≤ T.ticks) :
    Covers memory op n ↔ n = 0 := by
  constructor
  · intro h
    obtain ⟨limit, T, o, hT, hn⟩ := htwice
    have := h.spends limit T o hT
    omega
  · rintro rfl
    exact covers_of_follows hzero

/-! ## One operation for each element of a list -/

section
variable {memory : I.Request → Prop} {n limit : Nat} {op : Budget → β → Program I Unit}

theorem Tree.follows_forM_zero
    (h : ∀ b, Follows memory 0 (op .unlimited b limit) (op (.bounded 0) b limit)) (bs : List β) :
    Follows memory 0 ((bs.forM (op .unlimited) : Program I Unit) limit)
      ((bs.forM (op (.bounded 0)) : Program I Unit) limit) := by
  induction bs with
  | nil => exact .halt ..
  | cons b bs ih => exact (h b).bind_zero fun _ => ih

theorem Tree.forM_costs {f : β → Program I Unit} (h : ∀ b, Costs n (f b limit)) (bs : List β) :
    Costs (bs.length * n) ((bs.forM f : Program I Unit) limit) := by
  induction bs with
  | nil => exact .halt ..
  | cons b bs ih =>
    rw [List.length_cons, Nat.succ_mul, Nat.add_comm]
    exact (h b).bind fun _ => ih

theorem Tree.exists_runs_forM {f : β → Program I Unit}
    (h : ∀ b, ∃ T, (f b limit).Runs T (.ended (.ok ())) ∧ T.ticks = n) (bs : List β) :
    ∃ T, ((bs.forM f : Program I Unit) limit).Runs T (.ended (.ok ())) ∧
      T.ticks = bs.length * n := by
  induction bs with
  | nil => exact ⟨[], .halt _, by simp⟩
  | cons b bs ih =>
    obtain ⟨T, hT, hn⟩ := h b
    obtain ⟨U, hU, hm⟩ := ih
    refine ⟨T ++ U, hT.bind hU, ?_⟩
    rw [Transcript.ticks_append, hn, hm, List.length_cons, Nat.succ_mul, Nat.add_comm]

/-- Operations that each start from the whole budget, and may need it, are covered if there is no
budget, or no second operation. -/
theorem covers_forM_iff
    (hf : ∀ b n limit, Tree.Follows memory n (op .unlimited b limit) (op (.bounded n) b limit))
    (hrun : ∀ b n limit, n < limit →
      ∃ T, (op (.bounded n) b limit).Runs T (.ended (.ok ())) ∧ T.ticks = n) (bs : List β) :
    Covers memory (fun budget => (bs.forM (op budget) : Program I Unit)) n ↔
      n = 0 ∨ bs.length ≤ 1 := by
  match bs with
  | [] => exact iff_of_true (covers_of_follows fun _ => .halt ..) (.inr (Nat.zero_le _))
  | [b] =>
    refine iff_of_true (covers_of_follows fun limit => ?_) (.inr (Nat.le_refl _))
    exact (hf b n limit).bind_costs fun _ => .halt ..
  | b :: c :: bs =>
    have hlen : ¬ (b :: c :: bs).length ≤ 1 := by simp
    rw [or_iff_left hlen]
    refine covers_iff_eq_zero (fun limit => Tree.follows_forM_zero (fun b => hf b 0 limit) _) ?_
    obtain ⟨T, hT, hn⟩ := Tree.exists_runs_forM
      (fun b => hrun b n (n + 1) (Nat.lt_succ_self n)) (b :: c :: bs)
    refine ⟨n + 1, T, _, hT, ?_⟩
    rw [hn, List.length_cons, List.length_cons, Nat.succ_mul, Nat.succ_mul]
    omega

end

end Bcm2835
