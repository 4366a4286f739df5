import Mathlib.Data.List.Basic
import Bcm2835.Gpio
import Bcm2835.Proofs.Board
import Bcm2835.Proofs.Register.Bits

/-! The functions of the pins. Ten pins share a word, with two bits to spare, so a pin is configured
by reading its word and writing it back. On words that read as what they hold this gives the pin its
function (`function_assign`) and changes no bit that belongs to no pin (`spare_assign`); settings of
different pins can be made in either order (`assign_comm`). -/

namespace Bcm2835.Gpio

open Program Board

/-- Offsets within the words that hold the functions. -/
def FunctionWord (o : Nat) : Prop :=
  GpioBlock.fsel.offset ≤ o ∧ o < GpioBlock.fsel.offset + GpioBlock.fsel.extent

instance (o : Nat) : Decidable (FunctionWord o) := inferInstanceAs (Decidable (_ ∧ _))

/-- The function of a pin as a number: ten pins to a word, three bits to a pin. -/
def function (m : Contents) (pin : Nat) : Nat :=
  (m (GpioBlock.fsel.slot (pin / 10))).toNat / 8 ^ (pin % 10) % 8

/-- A bit of a function word that belongs to no pin. -/
def Spare (i j : Nat) : Prop := i < 6 ∧ j < 32 ∧ (30 ≤ j ∨ pinCount ≤ 10 * i + j / 3)

theorem Spare.functionWord {i j : Nat} (h : Spare i j) : FunctionWord (GpioBlock.fsel.slot i) := by
  have hi : i < 6 := h.1
  have hextent : GpioBlock.fsel.extent = 24 := rfl
  rw [FunctionWord, Register.slot, hextent]
  omega

variable {m : Contents} {pin q : Nat} {w : UInt32}

theorem slot_injective {i j : Nat} (h : GpioBlock.fsel.slot i = GpioBlock.fsel.slot j) : i = j := by
  simp only [Register.slot] at h
  omega

theorem functionWord_slot (h : pin < pinCount) :
    FunctionWord (GpioBlock.fsel.slot (pin / 10)) := by
  have hpin : pin < 54 := h
  have hextent : GpioBlock.fsel.extent = 24 := rfl
  rw [FunctionWord, Register.slot, hextent]
  omega

theorem testBit_function (m : Contents) (pin j : Nat) :
    (function m pin).testBit j =
      (decide (j < 3) &&
        (m (GpioBlock.fsel.slot (pin / 10))).toNat.testBit (pin % 10 * 3 + j)) := by
  have hpow : 8 ^ (pin % 10) = 2 ^ (pin % 10 * 3) := by rw [Nat.mul_comm, Nat.pow_mul]
  have height : (8 : Nat) = 2 ^ 3 := rfl
  rw [function, hpow, height, Nat.testBit_mod_two_pow, Nat.testBit_div_two_pow, Nat.add_comm]

/-- What a word becomes when a pin is given a function. -/
def assigned (pin : Pin) (f : PinFunction) (w : UInt32) : UInt32 :=
  ((functionField pin).val f.code).applyTo w

/-- What the registers hold when a pin was given a function. -/
def assign (m : Contents) (pin : Pin) (f : PinFunction) : Contents :=
  Function.update m (GpioBlock.fsel.slot (pin / 10))
    (assigned pin f (m (GpioBlock.fsel.slot (pin / 10))))

theorem code_lt (f : PinFunction) : f.code.toNat < 8 := by cases f <;> decide

theorem testBit_code (f : PinFunction) {j : Nat} (h : 3 ≤ j) : f.code.toNat.testBit j = false :=
  Nat.testBit_lt_two_pow (Nat.lt_of_lt_of_le (code_lt f) (Nat.pow_le_pow_right (Nat.succ_pos 1) h))

theorem function_assign_self (m : Contents) (pin : Pin) (f : PinFunction) :
    function (assign m pin f) pin = f.code.toNat := by
  apply Nat.eq_of_testBit_eq
  intro j
  rw [testBit_function, assign, Function.update_self, assigned, Field.testBit_applyTo]
  by_cases hj : j < 3
  · have hcovers : (functionField pin).Covers (pin % 10 * 3 + j) :=
      ⟨Nat.le_add_right .., Nat.add_lt_add_left hj _⟩
    have hsub : pin % 10 * 3 + j - (functionField pin).offset = j :=
      Nat.add_sub_cancel_left ..
    simp [hj, hcovers, hsub]
  · simp [hj, testBit_code f (Nat.le_of_not_lt hj)]

theorem function_assign_of_ne (m : Contents) {pin : Pin} (f : PinFunction) (h : q ≠ pin) :
    function (assign m pin f) q = function m q := by
  apply Nat.eq_of_testBit_eq
  intro j
  rw [testBit_function, testBit_function, assign]
  by_cases hword : q / 10 = pin / 10
  · rw [hword, Function.update_self, assigned, Field.testBit_applyTo]
    by_cases hj : j < 3
    · have hnot : ¬ (functionField pin).Covers (q % 10 * 3 + j) := by
        intro ⟨hle, hlt⟩
        simp only [functionField] at hle hlt
        omega
      rw [if_neg hnot]
    · simp [hj]
  · rw [Function.update_of_ne fun ho => hword (slot_injective ho)]

theorem spare_assign (m : Contents) (pin : Pin) (f : PinFunction) {i j : Nat} (h : Spare i j) :
    (assign m pin f (GpioBlock.fsel.slot i)).toNat.testBit j =
      (m (GpioBlock.fsel.slot i)).toNat.testBit j := by
  rw [assign]
  by_cases hword : i = pin / 10
  · subst hword
    have hpin : pin.val < pinCount := pin.isLt
    obtain ⟨-, -, hspare⟩ := h
    have hnot : ¬ (functionField pin).Covers j := by
      intro ⟨hle, hlt⟩
      simp only [functionField] at hle hlt
      omega
    rw [Function.update_self, assigned, Field.testBit_applyTo, if_neg hnot]
  · rw [Function.update_of_ne fun ho => hword (slot_injective ho)]

/-! ## Settings one after another -/

/-- The function that a pin was set to last. -/
def lastSet (pin : Pin) (xs : List (Pin × PinFunction)) : Option PinFunction :=
  xs.reverse.lookup pin

/-- The function of a pin behind these settings, if it had this one in front of them. -/
def settled (pin : Pin) (xs : List (Pin × PinFunction)) (before : Nat) : Nat :=
  ((lastSet pin xs).map fun f => f.code.toNat).getD before

theorem settled_append (pin : Pin) (xs ys : List (Pin × PinFunction)) (before : Nat) :
    settled pin (xs ++ ys) before = settled pin ys (settled pin xs before) := by
  have hlast : lastSet pin (xs ++ ys) = (lastSet pin ys).or (lastSet pin xs) := by
    rw [lastSet, List.reverse_append, List.lookup_append]
    rfl
  rw [settled, hlast, settled, settled]
  cases lastSet pin ys with
  | none => rfl
  | some f => rfl

theorem function_assign (m : Contents) (pin : Pin) (f : PinFunction) (q : Pin) :
    function (assign m pin f) q = settled q [(pin, f)] (function m q) := by
  by_cases hq : q = pin
  · subst hq
    rw [function_assign_self]
    simp [settled, lastSet]
  · have hne : (q == pin) = false := by simpa using hq
    rw [function_assign_of_ne m f fun heq => hq (Fin.ext heq)]
    simp [settled, lastSet, List.lookup_cons, hne]

/-- Settings of different pins can be made in either order. -/
theorem assign_comm {p q : Pin} (h : p ≠ q) (m : Contents) (f g : PinFunction) :
    assign (assign m p f) q g = assign (assign m q g) p f := by
  by_cases hword : p.val / 10 = q.val / 10
  · have hdisjoint : (functionField p).Disjoint (functionField q) := by
      have hne : p.val ≠ q.val := fun heq => h (Fin.ext heq)
      simp only [Field.Disjoint, functionField]
      omega
    simp only [assign, hword, Function.update_self, Function.update_idem, assigned]
    rw [Field.applyTo_comm hdisjoint]
  · have hslot : GpioBlock.fsel.slot (p / 10) ≠ GpioBlock.fsel.slot (q / 10) :=
      fun ho => hword (slot_injective ho)
    simp only [assign]
    rw [Function.update_of_ne hslot, Function.update_of_ne hslot.symm, Function.update_comm hslot]

/-! ## Accesses -/

/-- The access is one to a function word. -/
def VisitsFunction (a : Access Board) : Prop := ∃ o, place? a = some o ∧ FunctionWord o

/-- The access writes to a function word. -/
def SetsFunction (a : Access Board) : Prop := ∃ o w, written? a = some (o, w) ∧ FunctionWord o

theorem not_setsFunction_wroteAt {o : Nat} {w : UInt32} (h : ¬ FunctionWord o) :
    ¬ SetsFunction (wroteAt o w) := by
  intro ⟨p, x, hw, hp⟩
  cases hw
  exact h hp

variable {A : List (Access Board)}

theorem after_of_quiet (h : ∀ a ∈ A, ¬ SetsFunction a) {o : Nat} (ho : FunctionWord o) :
    m.after A o = m o :=
  Contents.after_eq fun a ha w hw => h a ha ⟨o, w, hw, ho⟩

theorem function_of_quiet (h : ∀ a ∈ A, ¬ SetsFunction a) (q : Pin) :
    function (m.after A) q = function m q := by
  have hword := after_of_quiet (m := m) h (functionWord_slot q.isLt)
  rw [function, hword]
  rfl

/-- The accesses of a setting, if the word is found to be `v`. -/
def setting (pin : Pin) (f : PinFunction) (v : UInt32) : List (Access Board) :=
  [lookedAt (GpioBlock.fsel.slot (pin / 10)) v,
    wroteAt (GpioBlock.fsel.slot (pin / 10)) (assigned pin f v)]

theorem after_setting {pin : Pin} {f : PinFunction} {v : UInt32}
    (h : m.Keeps FunctionWord (setting pin f v)) : m.after (setting pin f v) = assign m pin f := by
  have hv : v = m (GpioBlock.fsel.slot (pin / 10)) := h.1 _ _ rfl (functionWord_slot pin.isLt)
  rw [hv]
  rfl

/-! ## Configuring -/

theorem check_apply_of_lt {pin : UInt8} (h : pin.toNat < pinCount) :
    check pin = pure ⟨pin.toNat, h⟩ := dif_pos h

theorem check_apply_of_le {pin : UInt8} (h : pinCount ≤ pin.toNat) :
    check pin = raise (.invalidPin pin) := dif_neg (Nat.not_lt.2 h)

variable {limit : Nat} {T : Transcript Board} {s : Stop Unit}

theorem runs_configure {pin : UInt8} (h : pin.toNat < pinCount) (f : PinFunction)
    (hT : (configure pin f limit).Runs T s) :
    s = .ended (.ok ()) ∧ ∃ v, T.accesses = setting ⟨pin.toNat, h⟩ f v := by
  rw [configure, check_apply_of_lt h] at hT
  obtain ⟨v, U, rfl, hU⟩ := Tree.runs_request.1 hT
  obtain ⟨u, V, rfl, hV⟩ := Tree.runs_request.1 hU
  obtain ⟨rfl, rfl⟩ := Tree.runs_halt.1 hV
  exact ⟨rfl, v, rfl⟩

/-- A setting keeps to the words that hold the functions. -/
theorem visitsFunction_of_mem_setting {pin : Pin} {f : PinFunction} {v : UInt32} {a : Access Board}
    (h : a ∈ setting pin f v) : VisitsFunction a := by
  have hword := functionWord_slot pin.isLt
  rcases List.mem_cons.1 h with rfl | h
  · exact ⟨_, rfl, hword⟩
  · rw [List.mem_singleton.1 h]
    exact ⟨_, rfl, hword⟩

theorem configureAll_leaves {pins : List UInt8} (h : ∀ pin ∈ pins, pin.toNat < pinCount)
    (f : PinFunction) :
    (pins.forM fun pin => configure pin f).Leaves fun A => ∀ a ∈ A, VisitsFunction a := by
  apply (additive_forall VisitsFunction).forM
  intro pin hpin limit T s hT
  obtain ⟨-, v, hv⟩ := runs_configure (h pin hpin) f hT
  rw [hv]
  exact fun _ => visitsFunction_of_mem_setting

/-- Pins that are all given one function have it, whatever order that is done in. -/
theorem runs_configureAll {pins : List UInt8} (h : ∀ pin ∈ pins, pin.toNat < pinCount)
    (f : PinFunction) (hT : (pins.forM (fun pin => configure pin f) limit).Runs T s) :
    s = .ended (.ok ()) ∧ ∀ (m : Contents) (q : Nat), m.Keeps FunctionWord T.accesses →
      q ∈ pins.map UInt8.toNat ∨ function m q = f.code.toNat →
      function (m.after T.accesses) q = f.code.toNat := by
  induction pins generalizing T with
  | nil =>
    obtain ⟨rfl, rfl⟩ := Tree.runs_halt.1 hT
    exact ⟨rfl, fun m q _ hq => hq.resolve_left (List.not_mem_nil)⟩
  | cons pin pins ih =>
    have hpin := h pin List.mem_cons_self
    have hpins : ∀ p ∈ pins, p.toNat < pinCount := fun p hp => h p (List.mem_cons_of_mem pin hp)
    rcases Tree.runs_bind.1 hT with ⟨U, V, u, rfl, hU, hV⟩ | ⟨s₀, hU, hs⟩
    · obtain ⟨-, v, hv⟩ := runs_configure hpin f hU
      obtain ⟨rfl, hrest⟩ := ih hpins hV
      refine ⟨rfl, ?_⟩
      intro m q hm hq
      rw [Transcript.accesses_append, hv] at hm ⊢
      obtain ⟨hmU, hmV⟩ := Contents.keeps_append.1 hm
      rw [after_setting hmU] at hmV
      rw [Contents.after_append, after_setting hmU]
      apply hrest _ q hmV
      rw [List.map_cons, List.mem_cons] at hq
      by_cases heq : q = pin.toNat
      · rw [heq]
        exact .inr (function_assign_self m ⟨pin.toNat, hpin⟩ f)
      · rw [function_assign_of_ne m f heq]
        rcases hq with (hq | hq) | hq
        · exact absurd hq heq
        · exact .inl hq
        · exact .inr hq
    · obtain ⟨rfl, -⟩ := runs_configure hpin f hU
      cases hs

end Bcm2835.Gpio
