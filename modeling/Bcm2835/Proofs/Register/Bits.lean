import Mathlib.Data.Nat.Bitwise
import Bcm2835.Register.Field

/-! The bits of words. A field covers a run of bits; an assignment of a number to a field replaces
these by the bits of the number and leaves every other bit as it was (`Field.testBit_applyTo`). -/

namespace Bcm2835

variable {v w : UInt32} {j : Nat}

namespace Word

theorem testBit_of_le (w : UInt32) (h : 32 ≤ j) : w.toNat.testBit j = false :=
  Nat.testBit_lt_two_pow (Nat.lt_of_lt_of_le w.toNat_lt (Nat.pow_le_pow_right (by decide) h))

theorem testBit_and (v w : UInt32) (j : Nat) :
    (v &&& w).toNat.testBit j = (v.toNat.testBit j && w.toNat.testBit j) := by
  rw [UInt32.toNat_and, Nat.testBit_and]

theorem testBit_or (v w : UInt32) (j : Nat) :
    (v ||| w).toNat.testBit j = (v.toNat.testBit j || w.toNat.testBit j) := by
  rw [UInt32.toNat_or, Nat.testBit_or]

theorem testBit_not (w : UInt32) (h : j < 32) : (~~~w).toNat.testBit j = !w.toNat.testBit j := by
  have hw : w.toNat < 2 ^ 32 := w.toNat_lt
  have hnot : (~~~w).toNat = 2 ^ 32 - (w.toNat + 1) := by
    rw [UInt32.toNat_not]
    simp only [UInt32.size]
    omega
  rw [hnot, Nat.testBit_two_pow_sub_succ hw]
  simp [h]

theorem ext (h : ∀ j < 32, v.toNat.testBit j = w.toNat.testBit j) : v = w := by
  apply UInt32.toNat_inj.1
  apply Nat.eq_of_testBit_eq
  intro j
  by_cases hj : j < 32
  · exact h j hj
  · rw [testBit_of_le v (Nat.le_of_not_lt hj), testBit_of_le w (Nat.le_of_not_lt hj)]

theorem eq_zero_iff : w = 0 ↔ ∀ j < 32, w.toNat.testBit j = false := by
  constructor
  · intro h j _
    rw [h]
    exact Nat.zero_testBit j
  · intro h
    apply ext
    intro j hj
    rw [h j hj]
    exact (Nat.zero_testBit j).symm

end Word

namespace Field

variable {f g : Field}

/-- The bit belongs to the field. -/
def Covers (f : Field) (j : Nat) : Prop := f.offset ≤ j ∧ j < f.offset + f.width

instance (f : Field) (j : Nat) : Decidable (f.Covers j) := inferInstanceAs (Decidable (_ ∧ _))

theorem Covers.lt (h : f.Covers j) : j < 32 := Nat.lt_of_lt_of_le h.2 f.fits

theorem Disjoint.not_covers (h : f.Disjoint g) (hj : g.Covers j) : ¬ f.Covers j := by
  intro hf
  rcases h with h | h
  · exact absurd hf.2 (Nat.not_lt.2 (h.trans hj.1))
  · exact absurd hj.2 (Nat.not_lt.2 (h.trans hf.1))

theorem testBit_ones (f : Field) (j : Nat) : f.ones.toNat.testBit j = decide (j < f.width) := by
  have hwidth : f.width ≤ 32 := Nat.le_trans (Nat.le_add_left ..) f.fits
  have hpos : 0 < 2 ^ f.width := Nat.two_pow_pos f.width
  have hle : 2 ^ f.width ≤ 2 ^ 32 := Nat.pow_le_pow_right (by decide) hwidth
  have hones : f.ones.toNat = 2 ^ f.width - 1 := by
    rw [ones, Nat.one_shiftLeft]
    exact UInt32.toNat_ofNat_of_lt' (Nat.lt_of_lt_of_le (Nat.sub_lt hpos Nat.one_pos) hle)
  rw [hones, Nat.testBit_two_pow_sub_one]

/-- A number that fits into the field, moved to its place. -/
theorem testBit_shiftLeft (f : Field) (hv : ∀ j, v.toNat.testBit j = true → j < f.width) (j : Nat) :
    (v <<< UInt32.ofNat f.offset).toNat.testBit j =
      (decide (f.Covers j) && v.toNat.testBit (j - f.offset)) := by
  have hfits := f.fits
  by_cases hwidth : f.width = 0
  · -- a field without bits may lie at the very end of the word, where shifts wrap
    have hzero : v = 0 := Word.eq_zero_iff.2 fun j _ => by
      cases hbit : v.toNat.testBit j with
      | false => rfl
      | true => exact absurd (hv j hbit) (by omega)
    have hnot : ¬ f.Covers j := fun h => by
      have := h.1
      have := h.2
      omega
    simp [hzero, hnot]
  · have hoffset : f.offset < 32 := by omega
    have hmod : (UInt32.ofNat f.offset).toNat % 32 = f.offset := by
      rw [UInt32.toNat_ofNat_of_lt' (Nat.lt_trans hoffset (by decide)), Nat.mod_eq_of_lt hoffset]
    rw [UInt32.toNat_shiftLeft, hmod, Nat.testBit_mod_two_pow, Nat.testBit_shiftLeft]
    by_cases hle : f.offset ≤ j
    · cases hbit : v.toNat.testBit (j - f.offset) with
      | false => simp
      | true =>
        have hlt : j - f.offset < f.width := hv _ hbit
        have hcovers : f.Covers j := ⟨hle, by omega⟩
        simp [hcovers, hcovers.lt, hle]
    · have hnot : ¬ f.Covers j := fun h => hle h.1
      simp [hle, hnot]

theorem testBit_mask (f : Field) (j : Nat) : f.mask.toNat.testBit j = decide (f.Covers j) := by
  rw [mask, testBit_shiftLeft f fun i hi => by simpa [testBit_ones] using hi, testBit_ones]
  by_cases h : f.Covers j
  · have hlt : j - f.offset < f.width := by
      have := h.1
      have := h.2
      omega
    simp [h, hlt]
  · simp [h]

theorem testBit_val (f : Field) (v : UInt32) (j : Nat) :
    (f.val v).value.toNat.testBit j = (decide (f.Covers j) && v.toNat.testBit (j - f.offset)) := by
  have hfits : ∀ i, (v &&& f.ones).toNat.testBit i = true → i < f.width := by
    intro i hi
    rw [Word.testBit_and, testBit_ones] at hi
    simpa using (Bool.and_eq_true_iff.1 hi).2
  rw [val, testBit_shiftLeft f hfits, Word.testBit_and, testBit_ones]
  by_cases h : f.Covers j
  · have hlt : j - f.offset < f.width := by
      have := h.1
      have := h.2
      omega
    simp [h, hlt]
  · simp [h]

/-- The bits of the field become those of the number, and no other bit changes. -/
theorem testBit_applyTo (f : Field) (v w : UInt32) (j : Nat) :
    ((f.val v).applyTo w).toNat.testBit j =
      if f.Covers j then v.toNat.testBit (j - f.offset) else w.toNat.testBit j := by
  have hmask : (f.val v).mask = f.mask := rfl
  rw [Assignment.applyTo, Word.testBit_or, Word.testBit_and, testBit_val, hmask]
  by_cases hj : j < 32
  · rw [Word.testBit_not f.mask hj, testBit_mask]
    by_cases h : f.Covers j
    · simp [h]
    · simp [h]
  · have hnot : ¬ f.Covers j := fun h => hj h.lt
    simp [hnot, Word.testBit_of_le _ (Nat.le_of_not_lt hj)]

theorem testBit_read (f : Field) (w : UInt32) (j : Nat) :
    (f.read w).toNat.testBit j = (decide (j < f.width) && w.toNat.testBit (f.offset + j)) := by
  rw [read, Word.testBit_and, testBit_ones, Bool.and_comm]
  by_cases hj : j < f.width
  · have hoffset : f.offset < 32 := by
      have := f.fits
      omega
    have hmod : (UInt32.ofNat f.offset).toNat % 32 = f.offset := by
      rw [UInt32.toNat_ofNat_of_lt' (Nat.lt_trans hoffset (by decide)), Nat.mod_eq_of_lt hoffset]
    rw [UInt32.toNat_shiftRight, hmod, Nat.testBit_shiftRight]
  · simp [hj]

/-- Words that agree on the bits of a field hold the same number in it. -/
theorem read_congr (h : ∀ j, f.Covers j → v.toNat.testBit j = w.toNat.testBit j) :
    f.read v = f.read w := by
  apply Word.ext
  intro j _
  rw [testBit_read, testBit_read]
  by_cases hj : j < f.width
  · rw [h (f.offset + j) ⟨Nat.le_add_right .., Nat.add_lt_add_left hj _⟩]
  · simp [hj]

/-- The number in a field, by the bits it covers. -/
theorem toNat_read_eq (h : ∀ j, f.Covers j → w.toNat.testBit j = v.toNat.testBit (j - f.offset)) :
    (f.read w).toNat = v.toNat % 2 ^ f.width := by
  apply Nat.eq_of_testBit_eq
  intro j
  rw [testBit_read, Nat.testBit_mod_two_pow]
  by_cases hj : j < f.width
  · rw [h (f.offset + j) ⟨Nat.le_add_right .., Nat.add_lt_add_left hj _⟩, Nat.add_sub_cancel_left]
  · simp [hj]

/-- What an assignment puts into a word. -/
theorem toNat_value (f : Field) (v : UInt32) :
    (f.val v).value.toNat = v.toNat % 2 ^ f.width * 2 ^ f.offset := by
  apply Nat.eq_of_testBit_eq
  intro j
  rw [testBit_val, Nat.testBit_mul_two_pow, Nat.testBit_mod_two_pow]
  by_cases hle : f.offset ≤ j
  · have hcovers : f.Covers j ↔ j - f.offset < f.width := by
      rw [Covers]
      omega
    simp [hle, hcovers]
  · have hnot : ¬ f.Covers j := fun h => hle h.1
    simp [hle, hnot]

/-- At the low end of a register. -/
theorem toNat_value_of_offset_zero {f : Field} (h : f.offset = 0) (v : UInt32) :
    (f.val v).value.toNat = v.toNat % 2 ^ f.width := by
  rw [toNat_value, h]
  exact Nat.mul_one _

theorem isSet_congr (h : v &&& f.mask = w &&& f.mask) : f.isSet v = f.isSet w := by
  rw [isSet, isSet, h]

end Field

/-- Changes to fields that share no bit can be made in either order. -/
theorem Field.applyTo_comm {f g : Field} (h : f.Disjoint g) (a b w : UInt32) :
    (f.val a).applyTo ((g.val b).applyTo w) = (g.val b).applyTo ((f.val a).applyTo w) := by
  apply Word.ext
  intro j _
  simp only [testBit_applyTo]
  by_cases hg : g.Covers j
  · simp [hg, h.not_covers hg]
  · simp [hg]

/-- Bits that a change does not touch are as they were. -/
theorem Assignment.applyTo_and {a : Assignment} {m : UInt32} (hmask : a.mask &&& m = 0)
    (hvalue : a.value &&& m = 0) (w : UInt32) : a.applyTo w &&& m = w &&& m := by
  apply Word.ext
  intro j hj
  have hmaskj := Word.eq_zero_iff.1 hmask j hj
  have hvaluej := Word.eq_zero_iff.1 hvalue j hj
  rw [Word.testBit_and] at hmaskj hvaluej
  simp only [applyTo, Word.testBit_and, Word.testBit_or, Word.testBit_not a.mask hj]
  cases hm : m.toNat.testBit j with
  | false => simp
  | true =>
    rw [hm, Bool.and_true] at hmaskj hvaluej
    simp [hmaskj, hvaluej]

/-- Bits that a change replaces are those of its value. -/
theorem Assignment.applyTo_and_of_le_mask {a : Assignment} {m : UInt32} (h : a.mask &&& m = m)
    (w : UInt32) : a.applyTo w &&& m = a.value &&& m := by
  apply Word.ext
  intro j hj
  have hmask : (a.mask.toNat.testBit j && m.toNat.testBit j) = m.toNat.testBit j := by
    rw [← Word.testBit_and, h]
  simp only [applyTo, Word.testBit_and, Word.testBit_or, Word.testBit_not a.mask hj]
  cases hm : m.toNat.testBit j with
  | false => simp
  | true =>
    rw [hm, Bool.and_true] at hmask
    simp [hmask]

end Bcm2835
