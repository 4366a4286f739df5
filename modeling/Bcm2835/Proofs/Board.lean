import Mathlib.Logic.Function.Basic
import Bcm2835.Board
import Bcm2835.Proofs.Behaviour
import Bcm2835.Proofs.Effects

/-! Accesses to the registers of the board, and what the registers hold behind them. The contents of
a register are the word that was last written to it, and before that any word at all. Registers need
not read as what they hold; of those that do, `Contents.Keeps` says so. -/

namespace Bcm2835

namespace Board

abbrev lookedAt (offset : Nat) (word : UInt32) : Access Board := ⟨.read offset, word⟩

abbrev wroteAt (offset : Nat) (word : UInt32) : Access Board := ⟨.write offset word, ()⟩

/-- A read of a register. -/
abbrev looked (r : Register) (word : UInt32) : Access Board := ⟨.read r.offset, word⟩

abbrev wrote (r : Register) (word : UInt32) : Access Board := ⟨.write r.offset word, ()⟩

/-- A message goes out, with a word that leads the firmware to it. -/
abbrev posted (word : UInt32) (message : List UInt32) : Access Board := ⟨.post word message, ()⟩

theorem offset_eq_of_looked {r r' : Register} {w w' : UInt32} (h : looked r w = looked r' w') :
    r.offset = r'.offset := by
  injection h with h
  exact Request.read.inj h

theorem offset_eq_of_wrote {r r' : Register} {w w' : UInt32} (h : wrote r w = wrote r' w') :
    r.offset = r'.offset ∧ w = w' := by
  injection h with h
  exact Request.write.inj h

theorem looked_ne_wrote {r r' : Register} {w w' : UInt32} : looked r w ≠ wrote r' w' := by
  intro h
  injection h with h
  cases h

/-- Where the register lies that is accessed. -/
def place? : Access Board → Option Nat
  | ⟨.read offset, _⟩ | ⟨.write offset _, _⟩ => some offset
  | ⟨.locate, _⟩ | ⟨.post .., _⟩ | ⟨.collect _, _⟩ | ⟨.pause _, _⟩ => none

/-- What was read, and where. -/
def read? : Access Board → Option (Nat × UInt32)
  | ⟨.read offset, word⟩ => some (offset, word)
  | ⟨.write .., _⟩ | ⟨.locate, _⟩ | ⟨.post .., _⟩ | ⟨.collect _, _⟩ | ⟨.pause _, _⟩ => none

/-- What was written, and where. -/
def written? : Access Board → Option (Nat × UInt32)
  | ⟨.write offset word, _⟩ => some (offset, word)
  | ⟨.read _, _⟩ | ⟨.locate, _⟩ | ⟨.post .., _⟩ | ⟨.collect _, _⟩ | ⟨.pause _, _⟩ => none

/-- The words written to a register, in order. -/
def writes (r : Register) (A : List (Access Board)) : List UInt32 :=
  A.filterMap fun a => (written? a).bind fun x => if x.1 = r.offset then some x.2 else none

section
variable {r r' : Register} {A : List (Access Board)}

@[simp] theorem writes_nil (r : Register) : writes r [] = [] := rfl

@[simp] theorem writes_append (r : Register) (A B : List (Access Board)) :
    writes r (A ++ B) = writes r A ++ writes r B := List.filterMap_append

@[simp] theorem writes_looked (r r' : Register) (w : UInt32) (A : List (Access Board)) :
    writes r (looked r' w :: A) = writes r A := rfl

theorem writes_map_looked (r r' : Register) (ws : List UInt32) :
    writes r (ws.map (looked r')) = [] := by
  induction ws with
  | nil => rfl
  | cons w ws ih => exact ih

@[simp] theorem writes_wrote_self (r : Register) (w : UInt32) (A : List (Access Board)) :
    writes r (wrote r w :: A) = w :: writes r A := by
  simp [writes, written?]

theorem writes_wrote_of_ne (h : r'.offset ≠ r.offset) (w : UInt32) (A : List (Access Board)) :
    writes r (wrote r' w :: A) = writes r A := by
  simp [writes, written?, h]

theorem writes_eq_nil (h : ∀ a ∈ A, place? a ≠ some r.offset) : writes r A = [] := by
  apply List.filterMap_eq_nil_iff.2
  intro a ha
  have hplace := h a ha
  obtain ⟨q, x⟩ := a
  cases q with
  | write o w =>
    have hne : o ≠ r.offset := fun ho => hplace (congrArg some ho)
    simp [written?, hne]
  | read | locate | post | collect | pause => rfl

end

/-- What the registers hold, by offset. -/
abbrev Contents : Type := Nat → UInt32

namespace Contents

def write (m : Contents) (a : Access Board) : Contents :=
  match written? a with
  | some (offset, word) => Function.update m offset word
  | none => m

/-- What the registers hold behind these accesses. -/
def after (m : Contents) (A : List (Access Board)) : Contents := A.foldl write m

variable {m : Contents} {A B : List (Access Board)} {o : Nat} {w : UInt32}

@[simp] theorem after_nil (m : Contents) : m.after [] = m := rfl

@[simp] theorem after_wroteAt (m : Contents) (o : Nat) (w : UInt32) (A : List (Access Board)) :
    m.after (wroteAt o w :: A) = after (Function.update m o w) A := rfl

theorem after_append (m : Contents) (A B : List (Access Board)) :
    m.after (A ++ B) = (m.after A).after B := List.foldl_append

/-- A register that is not written to holds what it held. -/
theorem after_eq (h : ∀ a ∈ A, ∀ w, written? a ≠ some (o, w)) : m.after A o = m o := by
  induction A generalizing m with
  | nil => rfl
  | cons a A ih =>
    have hwrite : m.write a o = m o := by
      cases ha : written? a with
      | none => simp only [write, ha]
      | some x =>
        obtain ⟨p, v⟩ := x
        have hne : o ≠ p := by
          intro ho
          exact h a List.mem_cons_self v (ho ▸ ha)
        simp only [write, ha]
        exact Function.update_of_ne hne v m
    have hrest := ih (m := m.write a) fun b hb => h b (List.mem_cons_of_mem a hb)
    exact hrest.trans hwrite

/-- The registers of these offsets read as what they hold. -/
def Keeps (kept : Nat → Prop) : Contents → List (Access Board) → Prop
  | _, [] => True
  | m, a :: A => (∀ o w, read? a = some (o, w) → kept o → w = m o) ∧ Keeps kept (m.write a) A

theorem keeps_append {kept : Nat → Prop} :
    m.Keeps kept (A ++ B) ↔ m.Keeps kept A ∧ (m.after A).Keeps kept B := by
  induction A generalizing m with
  | nil => exact ⟨fun h => ⟨trivial, h⟩, fun h => h.2⟩
  | cons a A ih =>
    have hrest := ih (m := m.write a)
    exact (and_congr_right fun _ => hrest).trans and_assoc.symm

/-- Hardware whose registers read as what they hold, with these words in them at first. Only the
system timer goes on by itself, by a millisecond with every access. -/
def hardware (m : Contents) : Behaviour Board
  | past, .read o =>
    if o = StBlock.clo.offset then UInt32.ofNat (1000 * past.length) else m.after past o
  | _, .write .. | _, .post .. | _, .pause _ => ()
  | _, .locate => (0 : Nat)
  | _, .collect size => Vector.replicate size 0

theorem keeps_of_answers {kept : Nat → Prop} {past : List (Access Board)}
    (hkept : ¬ kept StBlock.clo.offset) (h : m.hardware.Answers past A) :
    (m.after past).Keeps kept A := by
  induction A generalizing past with
  | nil => trivial
  | cons a A ih =>
    obtain ⟨ha, hA⟩ := h
    have hpast : m.after (past ++ [a]) = (m.after past).write a := after_append m past [a]
    refine ⟨?_, hpast ▸ ih hA⟩
    intro o w hread ho
    have hne : o ≠ StBlock.clo.offset := fun heq => hkept (heq ▸ ho)
    obtain ⟨r, x⟩ := a
    cases r with
    | read p =>
      cases hread
      exact ha.symm.trans (if_neg hne)
    | write | locate | post | collect | pause => cases hread

theorem keeps_record {α : Type} {kept : Nat → Prop} (hkept : ¬ kept StBlock.clo.offset)
    (m : Contents) (p : Driver α) (limit : Nat) :
    m.Keeps kept (p.record m.hardware limit).transcript.accesses :=
  keeps_of_answers hkept (Tree.answers_record m.hardware (p limit) [])

end Contents

/-- What a wait for time to pass may do: look at the system timer, or at nothing. -/
def Timing : Access Board → Prop
  | ⟨.read offset, _⟩ => offset = StBlock.clo.offset ∨ offset = StBlock.chi.offset
  | ⟨.pause _, _⟩ => True
  | ⟨.write .., _⟩ | ⟨.locate, _⟩ | ⟨.post .., _⟩ | ⟨.collect _, _⟩ => False

theorem written?_of_timing {a : Access Board} (h : Timing a) : written? a = none := by
  obtain ⟨r, x⟩ := a
  cases r with
  | read | pause => rfl
  | write | locate | post | collect => cases h

/-- A wait does nothing but let time pass. -/
def OnlyWaits (pause : UInt32 → Driver Unit) : Prop :=
  ∀ ticks, (pause ticks).Leaves fun A => ∀ a ∈ A, Timing a

end Board

/-- The whole word at the offset lies in the region. -/
def Region.Contains (r : Region) (offset : Nat) : Prop :=
  r.offset.toNat ≤ offset ∧ offset + 4 ≤ r.offset.toNat + r.size.toNat

instance (r : Region) (offset : Nat) : Decidable (r.Contains offset) :=
  inferInstanceAs (Decidable (_ ∧ _))

theorem Region.not_contains {g g' : Region} {o : Nat}
    (h : g.offset.toNat + g.size.toNat ≤ g'.offset.toNat ∨
      g'.offset.toNat + g'.size.toNat ≤ g.offset.toNat) (ho : g.Contains o) : ¬ g'.Contains o := by
  intro ho'
  rw [Region.Contains] at ho ho'
  omega

/-- Every place of a row of registers lies in the region of its block. -/
theorem Block.contains_slot {b : Block} {r : Register} {i : Nat} (hr : r ∈ b.registers)
    (hi : i < r.count.getD 1) : b.region.Contains (r.slot i) := by
  have hinside := b.inside r hr
  rw [Register.extent] at hinside
  rw [Region.Contains, Register.slot]
  omega

namespace Register

open Board

variable {P : List (Access Board) → Prop}

theorem leaves_get (r : Register) (h : ∀ v, P [looked r v]) : r.get.Leaves P :=
  leaves_request (I := Board) (.read r.offset) h

theorem runs_isSet {r : Register} {f : Field} {limit : Nat} {T : Transcript Board} {s : Stop Bool}
    (h : (r.isSet f limit).Runs T s) :
    ∃ v, T.accesses = [looked r v] ∧ s = .ended (.ok (f.isSet v)) := by
  obtain ⟨v, U, rfl, hU⟩ := Tree.runs_request.1 h
  obtain ⟨rfl, rfl⟩ := Tree.runs_halt.1 hU
  exact ⟨v, rfl, rfl⟩

theorem leaves_isSet (r : Register) (f : Field) (h : ∀ v, P [looked r v]) :
    (r.isSet f).Leaves P := by
  intro limit T s hT
  obtain ⟨v, hv, -⟩ := runs_isSet hT
  rw [hv]
  exact h v

theorem asks_isSet (r : Register) (f : Field) : (r.isSet f).Asks (.read r.offset) f.isSet :=
  fun _ => rfl

theorem asks_not_isSet (r : Register) (f : Field) :
    (not <$> r.isSet f : Driver Bool).Asks (.read r.offset) fun v => !f.isSet v := fun _ => rfl

/-- A step of a register program. -/
inductive Update where
  | set (r : Register) (word : UInt32)
  | modify (r : Register) (a : Assignment)
  deriving DecidableEq, Repr

namespace Update

def register : Update → Register
  | set r _ | modify r _ => r

def program : Update → Driver Unit
  | set r word => r.set word
  | modify r a => r.modify a

/-- What is done if the register reads as this word. -/
def accesses (v : UInt32) : Update → List (Access Board)
  | set r word => [wrote r word]
  | modify r a => [looked r v, wrote r (a.applyTo v)]

variable {u : Update} {limit : Nat} {T : Transcript Board} {s : Stop Unit}

/-- An update waits for nothing. -/
theorem runs_program (hT : (u.program limit).Runs T s) :
    (∃ v, T.accesses = u.accesses v) ∧ s = .ended (.ok ()) := by
  cases u with
  | set r word =>
    obtain ⟨x, U, rfl, hU⟩ := Tree.runs_request.1 hT
    obtain ⟨rfl, rfl⟩ := Tree.runs_halt.1 hU
    exact ⟨⟨word, rfl⟩, rfl⟩
  | modify r a =>
    obtain ⟨v, U, rfl, hU⟩ := Tree.runs_request.1 hT
    obtain ⟨x, V, rfl, hV⟩ := Tree.runs_request.1 hU
    obtain ⟨rfl, rfl⟩ := Tree.runs_halt.1 hV
    exact ⟨⟨v, rfl⟩, rfl⟩

theorem runs_program_bind {α : Type} {f : Unit → Driver α} {s : Stop α}
    (hT : ((u.program >>= f) limit).Runs T s) :
    ∃ v V, T.accesses = u.accesses v ++ Transcript.accesses V ∧ (f () limit).Runs V s := by
  rcases Tree.runs_bind.1 hT with ⟨U, V, x, rfl, hU, hV⟩ | ⟨s₀, hU, hs⟩
  · obtain ⟨⟨v, hv⟩, -⟩ := runs_program hU
    exact ⟨v, V, by rw [Transcript.accesses_append, hv], hV⟩
  · obtain ⟨-, rfl⟩ := runs_program hU
    cases hs

theorem leaves_program (h : ∀ v, P (u.accesses v)) : u.program.Leaves P := by
  intro limit T s hT
  obtain ⟨⟨v, hv⟩, -⟩ := runs_program hT
  rw [hv]
  exact h v

theorem leaves_programs (hP : Additive P) {us : List Update} (h : ∀ u ∈ us, ∀ v, P (u.accesses v)) :
    (us.forM program).Leaves P :=
  hP.forM fun u hu => leaves_program (h u hu)

end Update

end Register

end Bcm2835
