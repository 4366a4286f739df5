import Bcm2835.Proofs.Remit

/-! Ports that are set up around a wait. Such a port is switched off first; then comes a wait until
it is at rest, and only behind the wait is it programmed and enabled. What comes before and behind
waits for nothing and fails in nothing (`Certain`), so a set-up that fails has done what comes
before the wait (`runs_within_wait_error`), and one that does not has seen the port at rest
(`runs_within_wait_ok`). -/

namespace Bcm2835

open Program Board Gpio Register

/-! ## Nothing but a wait can fail -/

section
variable {I : Interface} {α β γ : Type} {limit : Nat} {T : Transcript I}

/-- Every run of the program comes to its end, and gives something. -/
def Program.Succeeds (p : Program I α) : Prop :=
  ∀ ⦃limit : Nat⦄ ⦃T : Transcript I⦄ ⦃s : Stop α⦄, (p limit).Runs T s → ∃ a, s = .ended (.ok a)

/-- The program waits for nothing, and there is no error it can end in. -/
def Program.Certain (p : Program I α) : Prop :=
  ∀ ⦃limit : Nat⦄ ⦃T : Transcript I⦄ ⦃s : Stop α⦄, (p limit).Runs T s →
    (∃ a, s = .ended (.ok a)) ∨ ∃ x, s = .ended (.fault x)

/-- No run of the program ends in a fault. -/
def Program.Faultless (p : Program I α) : Prop :=
  ∀ ⦃limit : Nat⦄ ⦃T : Transcript I⦄ ⦃x : Fault⦄, ¬ (p limit).Runs T (.ended (.fault x))

namespace Program.Succeeds

variable {p : Program I α}

theorem certain (hp : p.Succeeds) : p.Certain := fun _ _ _ hT => .inl (hp hT)

theorem faultless (hp : p.Succeeds) : p.Faultless := by
  intro limit T x hT
  obtain ⟨_, hs⟩ := hp hT
  cases hs

theorem bind {f : α → Program I β} (hp : p.Succeeds) (hf : ∀ a, (f a).Succeeds) :
    (p >>= f).Succeeds := by
  intro limit T s hT
  rcases Tree.runs_bind.1 hT with ⟨U, V, a, -, -, hV⟩ | ⟨s₀, hU, hs⟩
  · exact hf a hV
  · obtain ⟨a, rfl⟩ := hp hU
    cases hs

theorem forM {g : γ → Program I Unit} {l : List γ} (h : ∀ x ∈ l, (g x).Succeeds) :
    (l.forM g).Succeeds := by
  induction l with
  | nil =>
    intro limit T s hT
    exact ⟨(), (Tree.runs_halt.1 hT).2⟩
  | cons x l ih =>
    apply (h x List.mem_cons_self).bind
    intro _
    exact ih fun y hy => h y (List.mem_cons_of_mem x hy)

end Program.Succeeds

theorem certain_ofFaulty (x : Except Fault α) : (ofFaulty x : Program I α).Certain := by
  intro limit T s hT
  cases x with
  | ok a => exact .inl ⟨a, (Tree.runs_halt.1 hT).2⟩
  | error x => exact .inr ⟨x, (Tree.runs_halt.1 hT).2⟩

theorem Program.Certain.bind {p : Program I α} {f : α → Program I β} (hp : p.Certain)
    (hf : ∀ a, (f a).Certain) : (p >>= f).Certain := by
  intro limit T s hT
  rcases Tree.runs_bind.1 hT with ⟨U, V, a, -, -, hV⟩ | ⟨s₀, hU, hs⟩
  · exact hf a hV
  · rcases hp hU with ⟨a, rfl⟩ | ⟨x, rfl⟩
    · cases hs
    · exact .inr ⟨x, (Option.some.inj hs).symm⟩

/-- What comes behind a number that can be had goes on with that number. -/
theorem runs_ofFaulty_bind_ok {x : Except Fault α} {f : α → Program I β} {b : β}
    (hT : ((ofFaulty x >>= f) limit).Runs T (.ended (.ok b))) :
    ∃ a, x = .ok a ∧ (f a limit).Runs T (.ended (.ok b)) := by
  cases x with
  | ok a => exact ⟨a, rfl, hT⟩
  | error x => cases (Tree.runs_halt.1 hT).2

namespace Program.Faultless

theorem bind {p : Program I α} {f : α → Program I β} (hp : p.Faultless)
    (hf : ∀ a, (f a).Faultless) : (p >>= f).Faultless := by
  intro limit T x hT
  rcases Tree.runs_bind.1 hT with ⟨U, V, a, -, -, hV⟩ | ⟨s₀, hU, hs⟩
  · exact hf a hV
  · obtain rfl := s₀.eq_fault_of_early? hs
    exact hp hU

/-- A budget can make a run fail, but not in this way. -/
theorem within {p : Program I α} (hp : p.Faultless) (b : Budget) : (within b p).Faultless := by
  intro limit T x hT
  obtain ⟨s₀, b', hrun, -, hs⟩ := runs_within.1 hT
  obtain rfl := Stop.cut_eq_fault.1 hs.symm
  exact hp hrun

theorem waitUntil {ready : Program I Bool} {r : I.Request} {good : I.Answer r → Bool}
    (h : ready.Asks r good) : (waitUntil ready).Faultless := by
  intro limit T x hT
  obtain ⟨misses, -, ⟨a, -, -, hs⟩ | ⟨-, hs | hs⟩⟩ := h.runs_waitUntil hT
  · cases hs
  · cases hs
  · cases hs

end Program.Faultless

end

theorem Register.Update.succeeds (u : Update) : u.program.Succeeds :=
  fun _ _ _ hT => ⟨(), (Update.runs_program hT).2⟩

theorem succeeds_set (r : Register) (w : UInt32) : (r.set w).Succeeds := Update.succeeds (.set r w)

theorem succeeds_modify (r : Register) (a : Assignment) : (r.modify a).Succeeds :=
  Update.succeeds (.modify r a)

theorem succeeds_attachAll {pins : List UInt8} (h : ∀ pin ∈ pins, pin.toNat < pinCount)
    (f : PinFunction) : (pins.forM fun pin => do
      Gpio.setPull pin .off
      Gpio.configure pin f).Succeeds := by
  apply Program.Succeeds.forM
  intro pin hpin
  apply Program.Succeeds.bind
  · intro limit T s hT
    exact ⟨(), (runs_setPull (h pin hpin) hT).2⟩
  · intro _ limit T s hT
    exact ⟨(), (runs_configure (h pin hpin) f hT).1⟩

/-! ## A wait in the middle -/

section
variable {front rest : Driver Unit} {ready : Driver Bool} {status : Register} {good : UInt32 → Bool}
  {budget : Budget} {limit : Nat} {T : Transcript Board}

/-- What fails between parts that cannot is the wait. -/
theorem runs_within_wait_error (hfront : front.Certain) (hrest : rest.Certain)
    (hasks : ready.Asks (.read status.offset) good) {e : Error}
    (hT : (within budget (front >>= fun _ => waitUntil ready >>= fun _ => rest) limit).Runs T
      (.ended (.error e))) :
    e = .timeout ∧ ∃ (U : Transcript Board) (looks : List UInt32),
      (front limit).Runs U (.ended (.ok ())) ∧
      T.accesses = U.accesses ++ looks.map (looked status) ∧ ∀ w ∈ looks, good w = false := by
  obtain ⟨s, b, hrun, -, hs⟩ := runs_within.1 hT
  rcases Tree.runs_bind.1 hrun with ⟨U, V, _, rfl, hU, hV⟩ | ⟨s₀, hU, hearly⟩
  · rcases Tree.runs_bind.1 hV with ⟨W, X, _, -, -, hX⟩ | ⟨s₀, hW, hearly⟩
    · rcases hrest hX with ⟨_, rfl⟩ | ⟨x, rfl⟩
      · cases hs
      · cases hs
    · -- the run is left in the wait; only where a unit is one too many is that an error
      obtain ⟨looks, hlooks, ⟨w, -, -, rfl⟩ | ⟨hA, rfl | rfl⟩⟩ := hasks.runs_waitUntil hW
      · cases hearly
      · refine ⟨?_, U, looks, hU, by rw [Transcript.accesses_append, hA]; rfl, hlooks⟩
        cases hearly
        rw [Stop.cut] at hs
        split at hs
        · injection hs with hs
          injection hs
        · cases hs
      · cases hearly
        cases hs
  · rcases hfront hU with ⟨_, rfl⟩ | ⟨x, rfl⟩
    · cases hearly
    · cases hearly
      cases hs

/-- What comes to its end behind a wait has seen what it waited for. -/
theorem runs_within_wait_ok (hasks : ready.Asks (.read status.offset) good)
    (hT : (within budget (front >>= fun _ => waitUntil ready >>= fun _ => rest) limit).Runs T
      (.ended (.ok ()))) :
    ∃ (U : Transcript Board) (looks : List UInt32) (w : UInt32) (V : Transcript Board),
      (front limit).Runs U (.ended (.ok ())) ∧ good w = true ∧
      (rest limit).Runs V (.ended (.ok ())) ∧
      T.accesses = U.accesses ++ (looks.map (looked status) ++ looked status w :: V.accesses) := by
  obtain ⟨hrun, -⟩ := runs_within_ok.1 hT
  obtain ⟨U, V, _, rfl, hU, hV⟩ := Tree.runs_bind_ok.1 hrun
  obtain ⟨W, X, _, rfl, hW, hX⟩ := Tree.runs_bind_ok.1 hV
  obtain ⟨looks, w, -, hw, hA⟩ := hasks.runs_waitUntil_ok hW
  refine ⟨U, looks, w, X, hU, hw, hX, ?_⟩
  rw [Transcript.accesses_append, Transcript.accesses_append, hA, List.append_assoc]
  rfl

end

/-! ## Ports -/

/-- A port that is switched on by bits of a control word. -/
structure Port where
  control : Register
  enable : UInt32
  /-- What is to be programmed before that. -/
  programmed : List Register
  status : Register
  atRest : UInt32 → Bool

namespace Port

variable (p : Port)

/-- The port is enabled here: by then it is programmed, and was at rest at the last look. -/
structure EnabledAt (P : List (Access Board)) (w : UInt32) (Q : List (Access Board)) : Prop where
  enables : w &&& p.enable = p.enable
  disabled : ∀ v, wrote p.control v ∈ P → v &&& p.enable = 0
  programmed : ∀ r ∈ p.programmed, ∃ v, wrote r v ∈ P
  rested : ∃ X v Y, P = X ++ looked p.status v :: Y ∧ p.atRest v = true ∧
    ∀ u, looked p.status u ∉ Y
  settled : ∀ r ∈ p.control :: p.programmed, ∀ v, wrote r v ∉ Q
  unasked : ∀ v, looked p.status v ∉ Q

def Enabled (A : List (Access Board)) : Prop :=
  ∃ P w Q, A = P ++ wrote p.control w :: Q ∧ p.EnabledAt P w Q

variable {p} {A B : List (Access Board)}

theorem Enabled.prepend (h : p.Enabled A) (hB : ∀ v, wrote p.control v ∉ B) :
    p.Enabled (B ++ A) := by
  obtain ⟨P, w, Q, rfl, h⟩ := h
  refine ⟨B ++ P, w, Q, (List.append_assoc ..).symm, h.enables, ?_, ?_, ?_, h.settled, h.unasked⟩
  · intro v hv
    exact h.disabled v ((List.mem_append.1 hv).resolve_left (hB v))
  · intro r hr
    obtain ⟨v, hv⟩ := h.programmed r hr
    exact ⟨v, List.mem_append_right B hv⟩
  · obtain ⟨X, v, Y, rfl, hv, hY⟩ := h.rested
    exact ⟨B ++ X, v, Y, (List.append_assoc ..).symm, hv, hY⟩

/-- A port is set up in four parts: it is switched off, looked at until it is at rest, programmed,
and enabled by a change of its control word. Behind that only pins are set. -/
theorem enabled_of_parts {F G : List (Access Board)} {looks : List UInt32} {v x w : UInt32}
    {us : List (Register × UInt32)}
    (hF : ∀ u, wrote p.control u ∈ F → u &&& p.enable = 0) (hv : p.atRest v = true)
    (hus : ∀ u ∈ us, u.1.offset = p.control.offset → u.2 &&& p.enable = 0)
    (hall : p.programmed ⊆ us.map Prod.fst) (hw : w &&& p.enable = p.enable)
    (hG : AmongPins G) (hasks : p.control.offset ≠ p.status.offset)
    (hpins : ∀ r ∈ p.status :: p.control :: p.programmed, ¬ Layout.gpio.Contains r.offset) :
    p.Enabled (F ++ (looks.map (looked p.status) ++ looked p.status v ::
      (us.map (fun u => wrote u.1 u.2) ++ looked p.control x :: wrote p.control w :: G))) := by
  have hlast {r : Register} (hr : r ∈ p.status :: p.control :: p.programmed) {a : Access Board}
      (ha : place? a = some r.offset) : a ∉ G := by
    intro hmem
    obtain ⟨o, ho, hplace⟩ := hG a hmem
    cases ha.symm.trans ho
    exact hpins r hr hplace
  refine ⟨F ++ (looks.map (looked p.status) ++ looked p.status v ::
    (us.map (fun u => wrote u.1 u.2) ++ [looked p.control x])), w, G, by simp, hw, ?_, ?_, ?_, ?_,
    ?_⟩
  · intro u hu
    simp only [List.mem_append, List.mem_cons, List.mem_map] at hu
    rcases hu with hu | ⟨y, -, hy⟩ | hu | ⟨y, hy, hu⟩ | hu | hu
    · exact hF u hu
    · exact absurd hy looked_ne_wrote
    · exact absurd hu.symm looked_ne_wrote
    · obtain ⟨ho, rfl⟩ := offset_eq_of_wrote hu
      exact hus y hy ho
    · exact absurd hu.symm looked_ne_wrote
    · cases hu
  · intro r hr
    obtain ⟨⟨_, u⟩, hu, rfl⟩ := List.mem_map.1 (hall hr)
    have hmem : wrote _ u ∈ us.map fun u => wrote u.1 u.2 := List.mem_map.2 ⟨_, hu, rfl⟩
    exact ⟨u, by simp [hmem]⟩
  · refine ⟨F ++ looks.map (looked p.status), v,
      us.map (fun u => wrote u.1 u.2) ++ [looked p.control x], by simp, hv, ?_⟩
    intro u hu
    rcases List.mem_append.1 hu with hu | hu
    · obtain ⟨y, -, hy⟩ := List.mem_map.1 hu
      exact absurd hy.symm looked_ne_wrote
    · exact hasks (offset_eq_of_looked (List.mem_singleton.1 hu)).symm
  · intro r hr u
    exact hlast (List.mem_cons_of_mem _ hr) rfl
  · intro u
    exact hlast List.mem_cons_self rfl

end Port

/-- The pins have their pulls taken off and are given a function; nothing else is touched. -/
theorem Gpio.attachAll_leaves {pins : List UInt8} (h : ∀ pin ∈ pins, pin.toNat < pinCount)
    (f : PinFunction) : (pins.forM fun pin => do
      Gpio.setPull pin .off
      Gpio.configure pin f).Leaves AmongPins := by
  have hP : Additive AmongPins := additive_forall _
  apply hP.forM
  intro pin hpin
  apply hP.bind
  · intro limit T s hT
    rw [(runs_setPull (h pin hpin) hT).1]
    exact amongPins_pulse _ _
  · intro _ limit T s hT
    obtain ⟨-, v, hv⟩ := runs_configure (h pin hpin) f hT
    rw [hv]
    exact amongPins_setting _ f v

/-! ## Blocks that are left alone -/

/-- No word of the block is accessed. -/
def Avoids (g : Region) (A : List (Access Board)) : Prop :=
  ∀ a ∈ A, ∀ o, place? a = some o → ¬ g.Contains o

theorem additive_avoids (g : Region) : Additive (Avoids g) := additive_forall _

section
variable {g g' : Region} {A : List (Access Board)} {r : Register}

theorem Avoids.not_wrote (h : Avoids g A) (hr : g.Contains r.offset) (w : UInt32) :
    wrote r w ∉ A :=
  fun hmem => h _ hmem _ rfl hr

theorem Avoids.not_looked (h : Avoids g A) (hr : g.Contains r.offset) (w : UInt32) :
    looked r w ∉ A :=
  fun hmem => h _ hmem _ rfl hr

theorem Avoids.writes_eq_nil (h : Avoids g A) (hr : g.Contains r.offset) : writes r A = [] :=
  Board.writes_eq_nil fun a ha ho => h a ha _ ho hr

theorem avoids_of_contains (h : ∀ a ∈ A, ∀ o, place? a = some o → g.Contains o)
    (hapart : g.offset.toNat + g.size.toNat ≤ g'.offset.toNat ∨
      g'.offset.toNat + g'.size.toNat ≤ g.offset.toNat) : Avoids g' A :=
  fun a ha o ho => Region.not_contains hapart (h a ha o ho)

theorem Gpio.AmongPins.avoids (h : AmongPins A)
    (hapart : Layout.gpio.offset.toNat + Layout.gpio.size.toNat ≤ g.offset.toNat ∨
      g.offset.toNat + g.size.toNat ≤ Layout.gpio.offset.toNat) : Avoids g A := by
  apply avoids_of_contains _ hapart
  intro a ha o ho
  obtain ⟨p, hp, hplace⟩ := h a ha
  cases ho.symm.trans hp
  exact hplace

end

end Bcm2835
