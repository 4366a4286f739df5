import Mathlib.Algebra.GroupWithZero.Nat
import Mathlib.Algebra.Order.BigOperators.Group.List
import Bcm2835.Spinlock

/-! Threads that add to a counter behind the lock, in every order of their steps. A step moves one
thread, as `Thread.Move` tells, while the others stand by. So at most one thread is inside at any
time and the flag tells whether one is (`Shared.Sound`), and what the counter shows and what is yet
to be written always make up the same sum (`Shared.Sound.account_run`). No schedule leaves the
threads stuck: each can be continued until all are done (`Shared.Sound.exists_done`). -/

namespace Bcm2835.Spinlock

theorem tryLock_of_fails {l : Spinlock} (h : l.tryLock.1 = false) :
    l.held = true ∧ l.tryLock.2 = l := by
  obtain ⟨held⟩ := l
  cases held with
  | false => cases h
  | true => exact ⟨rfl, rfl⟩

/-! ## One step of a thread -/

namespace Thread

/-- It has taken the lock and not released it yet. -/
def inside (t : Thread) : Bool :=
  match t.phase with
  | .acquiring | .waiting => false
  | .reading | .writing _ | .releasing => true

/-- The sum of the addends it has yet to write. The one it has written goes with the release. -/
def owed (t : Thread) : Nat :=
  match t.phase with
  | .releasing => (t.addends.tail.map UInt32.toNat).sum
  | .acquiring | .waiting | .reading | .writing _ => (t.addends.map UInt32.toNat).sum

/-- The steps it has yet to take if nobody is in its way. -/
def stepsLeft (t : Thread) : Nat :=
  match t.phase with
  | .acquiring => 4 * t.addends.length
  | .waiting => 4 * t.addends.length + 1
  | .reading => 4 * t.addends.length - 1
  | .writing _ => 4 * t.addends.length - 2
  | .releasing => 4 * t.addends.length - 3

def Done (t : Thread) : Prop := t = ⟨.acquiring, []⟩

/-- It works on an addend unless it is between two of them, and the value it has read is the one
the counter still has. -/
structure Fits (counter : UInt32) (t : Thread) : Prop where
  busy : t.phase ≠ .acquiring → t.addends ≠ []
  fresh : ∀ seen, t.phase = .writing seen → seen = counter

theorem Fits.of_outside {c c' : UInt32} {t : Thread} (h : t.Fits c) (ht : t.inside = false) :
    t.Fits c' where
  busy := h.busy
  fresh seen hseen := by
    rw [inside, hseen] at ht
    cases ht

/-- What a step does to the thread, the lock and the counter. -/
inductive Move : Thread → Spinlock → UInt32 → Thread × Spinlock × UInt32 → Prop
  | rest {l c} : Move ⟨.acquiring, []⟩ l c (⟨.acquiring, []⟩, l, c)
  | take {a as c} : Move ⟨.acquiring, a :: as⟩ ⟨false⟩ c (⟨.reading, a :: as⟩, ⟨true⟩, c)
  | fail {a as c} : Move ⟨.acquiring, a :: as⟩ ⟨true⟩ c (⟨.waiting, a :: as⟩, ⟨true⟩, c)
  | spin {as c} : Move ⟨.waiting, as⟩ ⟨true⟩ c (⟨.waiting, as⟩, ⟨true⟩, c)
  | wake {as c} : Move ⟨.waiting, as⟩ ⟨false⟩ c (⟨.acquiring, as⟩, ⟨false⟩, c)
  | read {as l c} : Move ⟨.reading, as⟩ l c (⟨.writing c, as⟩, l, c)
  | write {seen as l c} :
    Move ⟨.writing seen, as⟩ l c (⟨.releasing, as⟩, l, seen + as.headD 0)
  | release {as l c} : Move ⟨.releasing, as⟩ l c (⟨.acquiring, as.tail⟩, ⟨false⟩, c)

theorem move_step (t : Thread) (l : Spinlock) (c : UInt32) : Move t l c (t.step l c) := by
  obtain ⟨phase, addends⟩ := t
  obtain ⟨held⟩ := l
  cases phase with
  | acquiring =>
    cases addends with
    | nil => exact .rest
    | cons a as =>
      cases held with
      | false => exact .take
      | true => exact .fail
  | waiting =>
    cases held with
    | false => exact .wake
    | true => exact .spin
  | reading => exact .read
  | writing seen => exact .write
  | releasing => exact .release

namespace Move

variable {t t' : Thread} {l l' : Spinlock} {c c' : UInt32}

theorem fits (h : Move t l c (t', l', c')) (ht : t.Fits c) : t'.Fits c' := by
  cases h with
  | rest => exact ht
  | take | fail => exact ⟨fun _ => List.cons_ne_nil _ _, fun _ h => nomatch h⟩
  | spin => exact ht
  | wake | release => exact ⟨fun h => absurd rfl h, fun _ h => nomatch h⟩
  | read => exact ⟨fun _ => ht.busy (fun h => nomatch h), fun _ h => (Phase.writing.inj h).symm⟩
  | write => exact ⟨fun _ => ht.busy (fun h => nomatch h), fun _ h => nomatch h⟩

/-- A thread that is not inside leaves the counter alone. -/
theorem counter_eq (h : Move t l c (t', l', c')) (ht : t.inside = false) : c' = c := by
  cases h with
  | write => cases ht
  | _ => rfl

/-- The flag goes up and down with the thread. -/
theorem held_eq (h : Move t l c (t', l', c')) (ht : t.inside = true → l.held = true) :
    l'.held.toNat + t.inside.toNat = l.held.toNat + t'.inside.toNat := by
  cases h with
  | release =>
    rw [ht rfl]
    rfl
  | _ => rfl

/-- What is written is no longer owed. -/
theorem account_eq (h : Move t l c (t', l', c')) (ht : t.Fits c) :
    (c'.toNat + t'.owed) % 2 ^ 32 = (c.toNat + t.owed) % 2 ^ 32 := by
  cases h with
  | @write seen as =>
    obtain ⟨a, as, rfl⟩ := List.exists_cons_of_ne_nil (ht.busy (fun h => nomatch h))
    obtain rfl := ht.fresh seen rfl
    simp only [owed, List.headD_cons, List.tail_cons, List.map_cons, List.sum_cons,
      UInt32.toNat_add, Nat.mod_add_mod, Nat.add_assoc]
  | _ => rfl

/-- Each step counts of a thread that finds the lock free or its own. -/
theorem stepsLeft_lt (h : Move t l c (t', l', c')) (ht : t.Fits c) (hdone : ¬ t.Done)
    (hfree : t.inside = false → l.held = false) : t'.stepsLeft < t.stepsLeft := by
  have hpos (hphase : t.phase ≠ .acquiring) : 0 < t.addends.length :=
    List.length_pos_iff.2 (ht.busy hphase)
  cases h with
  | rest => exact absurd rfl hdone
  | fail | spin => cases hfree rfl
  | take | wake => exact Nat.lt_succ_self _
  | read | write | release =>
    have hlen := hpos (fun h => nomatch h)
    simp only [stepsLeft, List.length_tail] at hlen ⊢
    omega

end Move

end Thread

/-! ## Threads side by side -/

namespace Shared

/-- The threads before the first step, each with its addends. -/
def starting (start : UInt32) (addends : List (List UInt32)) : Shared where
  counter := start
  threads := addends.map fun as => { addends := as }

def owed (s : Shared) : Nat := (s.threads.map Thread.owed).sum

def stepsLeft (s : Shared) : Nat := (s.threads.map Thread.stepsLeft).sum

def Done (s : Shared) : Prop := ∀ t ∈ s.threads, t.Done

/-- The flag is set for one thread inside, and each thread fits the counter. -/
structure Sound (s : Shared) : Prop where
  occupied : s.threads.countP Thread.inside = s.lock.held.toNat
  fits : ∀ t ∈ s.threads, t.Fits s.counter

theorem exists_between {threads : List Thread} {i : Nat} {t : Thread}
    (h : threads[i]? = some t) :
    ∃ before after, threads = before ++ t :: after ∧ before.length = i := by
  obtain ⟨hi, rfl⟩ := List.getElem?_eq_some_iff.1 h
  refine ⟨threads.take i, threads.drop (i + 1), ?_, List.length_take_of_le (Nat.le_of_lt hi)⟩
  rw [← List.drop_eq_getElem_cons hi, List.take_append_drop]

variable {l : Spinlock} {c : UInt32} {before after : List Thread} {t : Thread}

theorem mem_between {u : Thread} : u ∈ before ++ t :: after ↔ u = t ∨ u ∈ before ++ after := by
  simp only [List.mem_append, List.mem_cons]
  tauto

theorem mem_of_getElem?_ne {u : Thread} {j : Nat} (hj : (before ++ t :: after)[j]? = some u)
    (hne : j ≠ before.length) : u ∈ before ++ after := by
  rcases Nat.lt_or_gt_of_ne hne with hlt | hlt
  · rw [List.getElem?_append_left hlt] at hj
    exact List.mem_append_left _ (List.mem_of_getElem? hj)
  · obtain ⟨k, rfl⟩ := Nat.exists_eq_add_of_lt hlt
    rw [List.getElem?_append_right (by omega), Nat.add_assoc, Nat.add_sub_cancel_left,
      List.getElem?_cons_succ] at hj
    exact List.mem_append_right _ (List.mem_of_getElem? hj)

theorem countP_between : (before ++ t :: after).countP Thread.inside =
    (before ++ after).countP Thread.inside + t.inside.toNat := by
  cases ht : t.inside <;> simp [List.countP_append, ht, Nat.add_assoc]

/-- The thread that moves stands between others that stay as they are. -/
theorem step_between (l : Spinlock) (c : UInt32) (before after : List Thread) (t : Thread) :
    ∃ t' l' c', t.Move l c (t', l', c') ∧
      step ⟨l, c, before ++ t :: after⟩ before.length = ⟨l', c', before ++ t' :: after⟩ := by
  refine ⟨_, _, _, t.move_step l c, ?_⟩
  have ht : (before ++ t :: after)[before.length]? = some t := by
    rw [List.getElem?_append_right (Nat.le_refl _), Nat.sub_self, List.getElem?_cons_zero]
  have hset (t' : Thread) :
      (before ++ t :: after).set before.length t' = before ++ t' :: after := by
    rw [List.set_append_right _ _ (Nat.le_refl _), Nat.sub_self, List.set_cons_zero]
  rw [step, ht]
  exact congrArg (Shared.mk _ _) (hset _)

/-- What is kept whenever a thread moves is kept by every run. -/
theorem run_preserves {P : Shared → Prop} (hmove : ∀ l c before t after t' l' c',
    P ⟨l, c, before ++ t :: after⟩ → t.Move l c (t', l', c') → P ⟨l', c', before ++ t' :: after⟩)
    {s : Shared} (hs : P s) (schedule : List Nat) : P (s.run schedule) := by
  refine List.foldlRecOn schedule step hs fun s hs i _ => ?_
  obtain ⟨l, c, threads⟩ := s
  cases hi : threads[i]? with
  | none =>
    rw [step, hi]
    exact hs
  | some t =>
    obtain ⟨before, after, rfl, rfl⟩ := exists_between hi
    obtain ⟨t', l', c', hstep, heq⟩ := step_between l c before after t
    rw [heq]
    exact hmove _ _ _ _ _ _ _ _ hs hstep

namespace Sound

theorem starting (start : UInt32) (addends : List (List UInt32)) :
    (starting start addends).Sound where
  occupied := by
    refine List.countP_eq_zero.2 fun t ht => ?_
    obtain ⟨as, -, rfl⟩ := List.mem_map.1 ht
    exact Bool.false_ne_true
  fits t ht := by
    obtain ⟨as, -, rfl⟩ := List.mem_map.1 ht
    exact ⟨fun h => absurd rfl h, fun _ h => nomatch h⟩

theorem held (h : Sound ⟨l, c, before ++ t :: after⟩) (ht : t.inside = true) : l.held = true := by
  have hocc := h.occupied
  rw [countP_between, ht] at hocc
  cases hl : l.held with
  | true => rfl
  | false =>
    rw [hl] at hocc
    cases hocc

/-- The other threads are outside while one is inside. -/
theorem outside (h : Sound ⟨l, c, before ++ t :: after⟩) (ht : t.inside = true) {u : Thread}
    (hu : u ∈ before ++ after) : u.inside = false := by
  have hocc := h.occupied
  have hle := Bool.toNat_le l.held
  rw [countP_between, ht] at hocc
  have hzero : (before ++ after).countP Thread.inside = 0 := by
    simp only [Bool.toNat_true] at hocc
    omega
  exact Bool.eq_false_iff.2 (List.countP_eq_zero.1 hzero u hu)

theorem move {t' : Thread} {l' : Spinlock} {c' : UInt32}
    (h : Sound ⟨l, c, before ++ t :: after⟩) (hmove : t.Move l c (t', l', c')) :
    Sound ⟨l', c', before ++ t' :: after⟩ := by
  have ht : t.Fits c := h.fits t (List.mem_append_right _ List.mem_cons_self)
  refine ⟨?_, fun u hu => ?_⟩
  · have hocc := h.occupied
    have hheld := hmove.held_eq h.held
    rw [countP_between] at hocc ⊢
    dsimp only at hocc ⊢
    omega
  rcases mem_between.1 hu with rfl | hu
  · exact hmove.fits ht
  have hother : u.Fits c := h.fits u (mem_between.2 (.inr hu))
  cases hin : t.inside with
  | false =>
    rw [hmove.counter_eq hin]
    exact hother
  | true => exact hother.of_outside (h.outside hin hu)

theorem run {s : Shared} (h : s.Sound) (schedule : List Nat) : (s.run schedule).Sound :=
  run_preserves (fun _ _ _ _ _ _ _ _ => move) h schedule

end Sound

/-- What the counter shows and what the threads owe it make up the same sum all the time. -/
theorem Sound.account_run {s : Shared} (h : s.Sound) (schedule : List Nat) :
    ((s.run schedule).counter.toNat + (s.run schedule).owed) % 2 ^ 32 =
      (s.counter.toNat + s.owed) % 2 ^ 32 := by
  have hkept := run_preserves (P := fun r => r.Sound ∧
    (r.counter.toNat + r.owed) % 2 ^ 32 = (s.counter.toNat + s.owed) % 2 ^ 32) ?_ ⟨h, rfl⟩ schedule
  · exact hkept.2
  rintro l c before t after t' l' c' ⟨hr, hsum⟩ hmove
  refine ⟨hr.move hmove, ?_⟩
  have hone := hmove.account_eq (hr.fits t (mem_between.2 (.inl rfl)))
  rw [← hsum]
  simp only [owed, List.map_append, List.map_cons, List.sum_append, List.sum_cons] at hone ⊢
  omega

/-- Unless all threads are done there is one that nobody hinders: it is inside, or nobody is. -/
theorem Sound.exists_unhindered {s : Shared} (h : s.Sound) (hdone : ¬ s.Done) :
    ∃ t ∈ s.threads, ¬ t.Done ∧ (t.inside = false → s.lock.held = false) := by
  cases hl : s.lock.held with
  | true =>
    have hpos : 0 < s.threads.countP Thread.inside := by
      rw [h.occupied, hl]
      exact Nat.one_pos
    obtain ⟨t, ht, hin⟩ := List.countP_pos_iff.1 hpos
    refine ⟨t, ht, ?_, fun hout => absurd (hin.symm.trans hout) Bool.noConfusion⟩
    rintro rfl
    cases hin
  | false =>
    simp only [Done, not_forall] at hdone
    obtain ⟨t, ht, htd⟩ := hdone
    exact ⟨t, ht, htd, fun _ => rfl⟩

theorem Sound.exists_stepsLeft_lt {s : Shared} (h : s.Sound) (hdone : ¬ s.Done) :
    ∃ i, (s.step i).stepsLeft < s.stepsLeft := by
  obtain ⟨t, ht, htd, hfree⟩ := h.exists_unhindered hdone
  obtain ⟨l, c, threads⟩ := s
  obtain ⟨before, after, rfl⟩ := List.append_of_mem ht
  obtain ⟨t', l', c', hmove, heq⟩ := step_between l c before after t
  have hlt := hmove.stepsLeft_lt (h.fits t ht) htd hfree
  refine ⟨before.length, ?_⟩
  rw [heq]
  simp only [stepsLeft, List.map_append, List.map_cons, List.sum_append, List.sum_cons]
  omega

/-- Every run can be continued to one in which all threads are done. -/
theorem Sound.exists_done {s : Shared} (h : s.Sound) : ∃ schedule, (s.run schedule).Done := by
  induction hn : s.stepsLeft using Nat.strong_induction_on generalizing s with
  | _ n ih =>
    by_cases hdone : s.Done
    · exact ⟨[], hdone⟩
    · obtain ⟨i, hlt⟩ := h.exists_stepsLeft_lt hdone
      obtain ⟨schedule, hend⟩ := ih _ (hn ▸ hlt) (h.run [i]) rfl
      exact ⟨i :: schedule, hend⟩

theorem owed_starting (start : UInt32) (addends : List (List UInt32)) :
    (starting start addends).owed = (addends.flatten.map UInt32.toNat).sum := by
  rw [owed, starting, List.map_map, List.map_flatten, List.sum_flatten, List.map_map]
  rfl

theorem Done.owed_eq_zero {s : Shared} (h : s.Done) : s.owed = 0 := by
  refine List.sum_eq_zero fun n hn => ?_
  obtain ⟨t, ht, rfl⟩ := List.mem_map.1 hn
  rw [h t ht]
  rfl

theorem Sound.held_iff {s : Shared} (h : s.Sound) :
    s.lock.held = true ↔ ∃ t ∈ s.threads, t.inside = true := by
  rw [← List.countP_pos_iff, h.occupied]
  cases s.lock.held <;> simp

/-- Two threads inside are one. -/
theorem Sound.inside_unique {s : Shared} (h : s.Sound) {i j : Nat} {t u : Thread}
    (hi : s.threads[i]? = some t) (hj : s.threads[j]? = some u) (ht : t.inside = true)
    (hu : u.inside = true) : i = j := by
  obtain ⟨l, c, threads⟩ := s
  obtain ⟨before, after, rfl, rfl⟩ := exists_between hi
  by_contra hne
  have hout := h.outside ht (mem_of_getElem?_ne hj (Ne.symm hne))
  rw [hout] at hu
  cases hu

/-- A failing exchange moves its thread into the wait and does nothing else. -/
theorem step_of_fails {s : Shared} {i : Nat} {t : Thread} (hi : s.threads[i]? = some t)
    (hphase : t.phase = .acquiring) (hmore : t.addends ≠ []) (hfails : s.lock.tryLock.1 = false) :
    s.step i = { s with threads := s.threads.set i { t with phase := .waiting } } := by
  obtain ⟨phase, addends⟩ := t
  obtain rfl : phase = .acquiring := hphase
  obtain ⟨a, as, rfl⟩ := List.exists_cons_of_ne_nil hmore
  obtain ⟨⟨held⟩, c, threads⟩ := s
  obtain rfl : held = true := (tryLock_of_fails hfails).1
  rw [step, hi]
  rfl

end Shared

/-- Whatever the threads add and in whatever order they take their steps, there is never more than
one inside, the flag is set when and only when one is, and an exchange that fails changes neither
the flag nor anything else but what its thread does next. The counter lacks what the threads owe it
and nothing more, so that it ends as the sum of the start and all addends. No order of steps keeps
the threads from getting there. -/
theorem serializes_updates (start : UInt32) (addends : List (List UInt32))
    (schedule : List Nat) :
    (∀ l : Spinlock, l.tryLock.1 = false → l.tryLock.2 = l) ∧
    let s := (Shared.starting start addends).run schedule
    let total := (addends.flatten.map UInt32.toNat).sum
    (∀ (i j : Nat) (t u : Thread), s.threads[i]? = some t → s.threads[j]? = some u →
      t.inside = true → u.inside = true → i = j) ∧
    (s.lock.held = true ↔ ∃ t ∈ s.threads, t.inside = true) ∧
    (∀ (i : Nat) (t : Thread), s.threads[i]? = some t → t.phase = .acquiring → t.addends ≠ [] →
      s.lock.tryLock.1 = false →
      s.step i = { s with threads := s.threads.set i { t with phase := .waiting } }) ∧
    (s.counter.toNat + s.owed) % 2 ^ 32 = (start.toNat + total) % 2 ^ 32 ∧
    (s.Done → s.lock.held = false ∧ s.counter.toNat = (start.toNat + total) % 2 ^ 32) ∧
    ∃ more, (s.run more).Done := by
  refine ⟨fun l hl => (tryLock_of_fails hl).2, ?_⟩
  intro s total
  have hstart := Shared.Sound.starting start addends
  have hs : s.Sound := hstart.run schedule
  have hsum : (s.counter.toNat + s.owed) % 2 ^ 32 = (start.toNat + total) % 2 ^ 32 := by
    rw [hstart.account_run schedule, Shared.owed_starting]
    rfl
  refine ⟨fun _ _ _ _ => hs.inside_unique, hs.held_iff, fun _ _ => Shared.step_of_fails, hsum,
    fun hdone => ⟨?_, ?_⟩, hs.exists_done⟩
  · refine Bool.eq_false_iff.2 fun hheld => ?_
    obtain ⟨t, ht, hin⟩ := hs.held_iff.1 hheld
    rw [hdone t ht] at hin
    cases hin
  · rw [hdone.owed_eq_zero, Nat.add_zero, Nat.mod_eq_of_lt s.counter.toNat_lt] at hsum
    exact hsum

/-- Two threads meet at the lock, and the counter overflows. -/
theorem serializes_updates_contended :
    let met := (Shared.starting 0xFFFFFFFF [[1, 2], [3]]).run [0]
    let ended := (Shared.starting 0xFFFFFFFF [[1, 2], [3]]).run
      [0, 1, 0, 1, 0, 0, 1, 1, 1, 1, 1, 0, 0, 0, 0]
    met.threads = [⟨.reading, [1, 2]⟩, ⟨.acquiring, [3]⟩] ∧ met.lock.tryLock.1 = false ∧
      met.lock.tryLock.2 = met.lock ∧
      (∀ (j : Nat) (u : Thread), met.threads[j]? = some u → u.inside = true → 0 = j) ∧
      met.step 1 = { met with threads := [⟨.reading, [1, 2]⟩, ⟨.waiting, [3]⟩] } ∧
      ended.Done ∧ ended.lock.held = false ∧ ended.counter.toNat = (0xFFFFFFFF + 6) % 2 ^ 32 := by
  intro met ended
  obtain ⟨htry, hunique, -, hfails, -⟩ := serializes_updates 0xFFFFFFFF [[1, 2], [3]] [0]
  obtain ⟨-, -, -, -, -, hend, -⟩ := serializes_updates 0xFFFFFFFF [[1, 2], [3]]
    [0, 1, 0, 1, 0, 0, 1, 1, 1, 1, 1, 0, 0, 0, 0]
  have hdone : ended.Done := by
    have hthreads : ended.threads = [⟨.acquiring, []⟩, ⟨.acquiring, []⟩] := by decide
    intro t ht
    rw [hthreads] at ht
    simpa [Thread.Done] using ht
  refine ⟨by decide, by decide, htry met.lock (by decide), ?_, ?_, hdone, hend hdone⟩
  · exact fun j u hj hu => hunique 0 j ⟨.reading, [1, 2]⟩ u (by decide) hj rfl hu
  · exact hfails 1 ⟨.acquiring, [3]⟩ (by decide) rfl (by decide) (by decide)

end Bcm2835.Spinlock
