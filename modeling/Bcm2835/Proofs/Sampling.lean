import Bcm2835.Proofs.Behaviour

/-! Loops that look at the hardware again and again until they see what they wait for. Where a round
depends on nothing but the number of accesses before it, the loop ends in the first round that sees
it (`Sampling.record_of_first`), and in no other (`Sampling.exists_first_of_ok`). -/

namespace Bcm2835

variable {I : Interface} {α : Type}

/-- The rounds of a loop on hardware that changes with time alone, which the accesses tell. -/
structure Sampling (hw : Behaviour I) (round : Tree I (Step Unit α)) where
  /-- The accesses of the round that begins there. -/
  looks : Nat → List (Access I)
  width : Nat
  /-- The round that begins there is the last. -/
  Hit : Nat → Prop
  [decidableHit : DecidablePred Hit]
  /-- What the last round hands on. -/
  value : Nat → α
  length_looks : ∀ n, (looks n).length = width
  record_round : ∀ past, round.record hw past = ⟨(looks past.length).map .access,
    .ok (if Hit past.length then .done (value past.length) else .again ())⟩

attribute [instance] Sampling.decidableHit

namespace Transcript

@[simp] theorem accesses_map_access (A : List (Access I)) :
    accesses (A.map Entry.access) = A := by
  induction A with
  | nil => rfl
  | cons a A ih => exact congrArg (a :: ·) ih

end Transcript

namespace Sampling

variable {hw : Behaviour I} {round : Tree I (Step Unit α)} (S : Sampling hw round)
  {past : List (Access I)} {i n : Nat} {a : α}

/-- The accesses of that many rounds in a row. -/
def rounds (k n : Nat) : List (Access I) :=
  (List.range n).flatMap fun j => S.looks (k + S.width * j)

theorem place_succ (k j : Nat) : k + S.width * (j + 1) = k + S.width + S.width * j := by
  rw [Nat.mul_succ, Nat.add_comm (S.width * j), Nat.add_assoc]

theorem rounds_succ (k n : Nat) : S.rounds k (n + 1) = S.looks k ++ S.rounds (k + S.width) n := by
  have hbehind : (fun j => S.looks (k + S.width * (j + 1))) =
      fun j => S.looks (k + S.width + S.width * j) :=
    funext fun j => congrArg S.looks (S.place_succ k j)
  rw [rounds, List.range_succ_eq_map, List.flatMap_cons, List.flatMap_map, hbehind]
  rfl

theorem length_rounds (k n : Nat) : (S.rounds k n).length = S.width * n := by
  induction n generalizing k with
  | zero => rfl
  | succ n ih =>
    rw [S.rounds_succ, List.length_append, S.length_looks, ih, Nat.mul_succ, Nat.add_comm]

@[simp] theorem length_behind : (past ++ S.looks past.length).length = past.length + S.width := by
  rw [List.length_append, S.length_looks]

theorem record_done (h : S.Hit past.length) :
    (Tree.rounds (fun _ => round) (n + 1) ()).record hw past =
      ⟨(S.looks past.length).map .access, .ok (S.value past.length)⟩ := by
  have hround := S.record_round past
  rw [if_pos h] at hround
  rw [Tree.rounds, Tree.record_bind_of_ok hround]
  exact congrArg (Record.mk · _) (List.append_nil _)

theorem record_again (h : ¬ S.Hit past.length) :
    (Tree.rounds (fun _ => round) (n + 1) ()).record hw past =
      ((Tree.rounds (fun _ => round) n ()).record hw (past ++ S.looks past.length)).behind
        ((S.looks past.length).map .access) := by
  have hround := S.record_round past
  rw [if_neg h] at hround
  rw [Tree.rounds, Tree.record_bind_of_ok hround, Transcript.accesses_map_access]

/-- The loop ends in the first round that hits. -/
theorem record_of_first (hmiss : ∀ j < i, ¬ S.Hit (past.length + S.width * j))
    (hhit : S.Hit (past.length + S.width * i)) (hi : i < n) :
    (Tree.rounds (fun _ => round) n ()).record hw past =
      ⟨(S.rounds past.length (i + 1)).map .access,
        .ok (S.value (past.length + S.width * i))⟩ := by
  obtain ⟨n, rfl⟩ : ∃ m, n = m + 1 := Nat.exists_eq_add_of_le' (Nat.zero_lt_of_lt hi)
  induction i generalizing past n with
  | zero =>
    rw [S.record_done hhit, rounds_succ]
    exact congrArg (Record.mk · _) (congrArg (List.map _) (List.append_nil _).symm)
  | succ i ih =>
    obtain ⟨n, rfl⟩ : ∃ m, n = m + 1 :=
      Nat.exists_eq_add_of_le' (Nat.zero_lt_of_lt (Nat.lt_of_succ_lt_succ hi))
    have hfirst : ¬ S.Hit past.length := hmiss 0 (Nat.succ_pos i)
    have hrest : (Tree.rounds (fun _ => round) (n + 1) ()).record hw (past ++ S.looks past.length) =
        ⟨(S.rounds (past.length + S.width) (i + 1)).map .access,
          .ok (S.value (past.length + S.width * (i + 1)))⟩ := by
      rw [place_succ, ← length_behind]
      apply ih
      · intro j hj
        rw [length_behind, ← place_succ]
        exact hmiss (j + 1) (Nat.succ_lt_succ hj)
      · rw [length_behind, ← place_succ]
        exact hhit
      · exact Nat.lt_of_succ_lt_succ hi
    rw [S.record_again hfirst, hrest, S.rounds_succ past.length (i + 1), List.map_append]
    rfl

/-- The loop is given up if no round up to the limit hits. -/
theorem outcome_stalled (hmiss : ∀ j < n, ¬ S.Hit (past.length + S.width * j)) :
    ((Tree.rounds (fun _ => round) n ()).record hw past).outcome = .stalled := by
  induction n generalizing past with
  | zero => rfl
  | succ n ih =>
    have hfirst : ¬ S.Hit past.length := hmiss 0 (Nat.succ_pos n)
    rw [S.record_again hfirst]
    apply ih
    intro j hj
    rw [length_behind, ← place_succ]
    exact hmiss (j + 1) (Nat.succ_lt_succ hj)

/-- The loop ends with a value only in the first round that hits. -/
theorem exists_first_of_ok
    (h : ((Tree.rounds (fun _ => round) n ()).record hw past).outcome = .ok a) :
    ∃ i < n, (∀ j < i, ¬ S.Hit (past.length + S.width * j)) ∧
      S.Hit (past.length + S.width * i) ∧ a = S.value (past.length + S.width * i) := by
  induction n generalizing past with
  | zero => cases h
  | succ n ih =>
    by_cases hfirst : S.Hit past.length
    · rw [S.record_done hfirst] at h
      refine ⟨0, Nat.succ_pos n, fun j hj => absurd hj (Nat.not_lt_zero j), hfirst, ?_⟩
      exact (Outcome.ok.inj h).symm
    · rw [S.record_again hfirst] at h
      obtain ⟨i, hi, hmiss, hhit, hvalue⟩ := ih h
      simp only [length_behind, ← place_succ] at hmiss hhit hvalue
      refine ⟨i + 1, Nat.succ_lt_succ hi, fun j hj => ?_, hhit, hvalue⟩
      cases j with
      | zero => exact hfirst
      | succ j => exact hmiss j (Nat.lt_of_succ_lt_succ hj)

end Sampling

end Bcm2835
