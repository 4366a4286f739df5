import Mathlib.Data.List.Pairwise
import Bcm2835.Proofs.Register.Bits
import Bcm2835.Register.Formats

/-! Several fields of a register at once. Numbers for some of its fields make a setting, and their
assignments add up to one. No two fields of a format share a bit, so to make that assignment is to
fill the fields one after another, in any order (`Setting.applyTo_assignment`,
`Setting.fillEach_perm`); and one field after another is a matter of single bits
(`testBit_fillEach_of_mem`, `testBit_fillEach_of_not_covers`). -/

namespace Bcm2835

variable {l : List (Field × UInt32)} {v w : UInt32} {j : Nat}

/-- Puts the numbers into their fields, one after another. -/
def fillEach (l : List (Field × UInt32)) (w : UInt32) : UInt32 :=
  l.foldl (fun w x => (x.1.val x.2).applyTo w) w

theorem testBit_fillEach_of_not_covers (h : ∀ x ∈ l, ¬ x.1.Covers j) :
    (fillEach l w).toNat.testBit j = w.toNat.testBit j := by
  induction l generalizing w with
  | nil => rfl
  | cons x l ih =>
    have hx : ¬ x.1.Covers j := h x List.mem_cons_self
    have hrest := ih (w := (x.1.val x.2).applyTo w) fun y hy => h y (List.mem_cons_of_mem x hy)
    rw [fillEach, List.foldl_cons]
    rw [Field.testBit_applyTo, if_neg hx] at hrest
    exact hrest

theorem testBit_fillEach_of_mem (hl : l.Pairwise fun x y => x.1.Disjoint y.1)
    {x : Field × UInt32} (hx : x ∈ l) (hj : x.1.Covers j) :
    (fillEach l w).toNat.testBit j = x.2.toNat.testBit (j - x.1.offset) := by
  induction l generalizing w with
  | nil => cases hx
  | cons y l ih =>
    obtain ⟨hy, hl⟩ := List.pairwise_cons.1 hl
    rw [fillEach, List.foldl_cons]
    rcases List.mem_cons.1 hx with rfl | hx
    · -- the fields behind it do not reach the bit again
      have hrest : ∀ z ∈ l, ¬ z.1.Covers j := fun z hz hcovers => (hy z hz).not_covers hcovers hj
      have hkept := testBit_fillEach_of_not_covers (w := (x.1.val x.2).applyTo w) hrest
      rw [Field.testBit_applyTo, if_pos hj] at hkept
      exact hkept
    · exact ih hl hx

/-! ## Assignments that add up -/

namespace Assignment

theorem applyTo_zero (a : Assignment) : a.applyTo 0 = a.value := by
  rw [applyTo, UInt32.zero_and, UInt32.zero_or]

/-- The sum of two assignments is the one and then the other, if the other leaves alone what the
one puts in. -/
theorem applyTo_add {a b : Assignment} (h : a.value &&& b.mask = 0) (w : UInt32) :
    (a + b).applyTo w = b.applyTo (a.applyTo w) := by
  have hmask : (a + b).mask = a.mask ||| b.mask := rfl
  have hvalue : (a + b).value = a.value ||| b.value := rfl
  apply Word.ext
  intro j hj
  have hapart := Word.eq_zero_iff.1 h j hj
  rw [Word.testBit_and] at hapart
  simp only [applyTo, hmask, hvalue, Word.testBit_or, Word.testBit_and, Word.testBit_not _ hj]
  cases ha : a.value.toNat.testBit j with
  | false => simp [Bool.and_assoc]
  | true =>
    rw [ha, Bool.true_and] at hapart
    simp [hapart]

theorem add_value_and_mask {a b : Assignment} {m : UInt32} (ha : a.value &&& m = 0)
    (hb : b.value &&& m = 0) : (a + b).value &&& m = 0 := by
  have hvalue : (a + b).value = a.value ||| b.value := rfl
  apply Word.eq_zero_iff.2
  intro j hj
  have haj := Word.eq_zero_iff.1 ha j hj
  have hbj := Word.eq_zero_iff.1 hb j hj
  rw [Word.testBit_and] at haj hbj
  rw [Word.testBit_and, hvalue, Word.testBit_or, Bool.and_or_distrib_right, haj, hbj]
  rfl

end Assignment

instance : Std.Symm Field.Disjoint := ⟨fun _ _ => Or.symm⟩

theorem Field.Disjoint.value_and_mask {f g : Field} (h : f.Disjoint g) (v : UInt32) :
    (f.val v).value &&& g.mask = 0 := by
  apply Word.eq_zero_iff.2
  intro j _
  rw [Word.testBit_and, testBit_val, testBit_mask]
  by_cases hg : g.Covers j
  · simp [h.not_covers hg]
  · simp [hg]

/-- Assignments to fields that share no bit, added to one that puts nothing into these fields, are
that one and then the fields filled one after another. -/
theorem applyTo_foldl_add {a : Assignment} (hl : l.Pairwise fun x y => x.1.Disjoint y.1)
    (ha : ∀ x ∈ l, a.value &&& x.1.mask = 0) (w : UInt32) :
    ((l.map fun x => x.1.val x.2).foldl (· + ·) a).applyTo w = fillEach l (a.applyTo w) := by
  induction l generalizing a with
  | nil => rfl
  | cons x l ih =>
    obtain ⟨hx, hl⟩ := List.pairwise_cons.1 hl
    have hnext : ∀ y ∈ l, (a + x.1.val x.2).value &&& y.1.mask = 0 := by
      intro y hy
      exact Assignment.add_value_and_mask (ha y (List.mem_cons_of_mem x hy))
        ((hx y hy).value_and_mask x.2)
    rw [List.map_cons, List.foldl_cons, ih hl hnext,
      Assignment.applyTo_add (b := x.1.val x.2) (ha x List.mem_cons_self)]
    rfl

/-! ## Settings -/

/-- Numbers for some fields of a register, in any order. -/
structure RegisterFormat.Setting (r : RegisterFormat) where
  parts : List (Field × UInt32)
  isField : ∀ x ∈ parts, x.1 ∈ r.fields
  distinct : (parts.map Prod.fst).Nodup

namespace RegisterFormat.Setting

variable {r : RegisterFormat} (s : r.Setting)

def fields : List Field := s.parts.map Prod.fst

/-- The assignments to the fields, added up. -/
def assignment : Assignment := (s.parts.map fun x => x.1.val x.2).foldl (· + ·) ⟨0, 0⟩

/-- The same fields with the numbers they hold in a word. -/
def reread (w : UInt32) : r.Setting where
  parts := s.fields.map fun f => (f, f.read w)
  isField x hx := by
    obtain ⟨f, hf, rfl⟩ := List.mem_map.1 hx
    obtain ⟨y, hy, rfl⟩ := List.mem_map.1 hf
    exact s.isField y hy
  distinct := by
    rw [List.map_map]
    exact (List.map_id s.fields).symm ▸ s.distinct

variable {s}

theorem mem_fields {x : Field × UInt32} (h : x ∈ s.parts) : x.1 ∈ s.fields :=
  List.mem_map_of_mem h

theorem disjoint_of_ne {f g : Field} (hf : f ∈ r.fields) (hg : g ∈ r.fields) (h : f ≠ g) :
    f.Disjoint g :=
  r.disjoint.forall hf hg h

theorem pairwise_disjoint (s : r.Setting) : s.parts.Pairwise fun x y => x.1.Disjoint y.1 := by
  have hne : s.parts.Pairwise fun x y => x.1 ≠ y.1 := List.pairwise_map.1 s.distinct
  exact hne.imp_of_mem fun hx hy h => disjoint_of_ne (s.isField _ hx) (s.isField _ hy) h

theorem applyTo_assignment (s : r.Setting) (w : UInt32) :
    s.assignment.applyTo w = fillEach s.parts w := by
  have hnone : (⟨0, 0⟩ : Assignment).applyTo w = w := by
    rw [Assignment.applyTo, UInt32.not_zero, UInt32.and_neg_one, UInt32.or_zero]
  have hsum := applyTo_foldl_add (a := ⟨0, 0⟩) s.pairwise_disjoint (fun _ _ => UInt32.zero_and) w
  rw [hnone] at hsum
  exact hsum

/-- The order in which fields are filled does not matter. -/
theorem fillEach_perm (h : l.Perm s.parts) (w : UInt32) : fillEach l w = fillEach s.parts w := by
  have : Std.Symm fun x y : Field × UInt32 => x.1.Disjoint y.1 := ⟨fun _ _ => Or.symm⟩
  apply h.foldl_eq'
  intro x hx y hy w
  by_cases heq : x = y
  · rw [heq]
  · have hdisjoint := s.pairwise_disjoint.forall (h.subset hx) (h.subset hy) heq
    exact (Field.applyTo_comm hdisjoint x.2 y.2 w).symm

theorem testBit_of_mem {x : Field × UInt32} (hx : x ∈ s.parts) (hj : x.1.Covers j) :
    (s.assignment.applyTo w).toNat.testBit j = x.2.toNat.testBit (j - x.1.offset) := by
  rw [applyTo_assignment]
  exact testBit_fillEach_of_mem s.pairwise_disjoint hx hj

theorem testBit_of_not_covers (h : ∀ f ∈ s.fields, ¬ f.Covers j) :
    (s.assignment.applyTo w).toNat.testBit j = w.toNat.testBit j := by
  rw [applyTo_assignment]
  exact testBit_fillEach_of_not_covers fun x hx => h x.1 (mem_fields hx)

/-- A field that is set holds its number, cut to its width. -/
theorem read_of_mem {x : Field × UInt32} (hx : x ∈ s.parts) (w : UInt32) :
    (x.1.read (s.assignment.applyTo w)).toNat = x.2.toNat % 2 ^ x.1.width :=
  Field.toNat_read_eq fun _ hj => testBit_of_mem hx hj

/-- A field that is not set holds what it held. -/
theorem read_of_notMem {g : Field} (hg : g ∈ r.fields) (hnot : g ∉ s.fields) (w : UInt32) :
    g.read (s.assignment.applyTo w) = g.read w := by
  apply Field.read_congr
  intro j hj
  apply testBit_of_not_covers
  intro f hf
  obtain ⟨x, hx, rfl⟩ := List.mem_map.1 hf
  have hne : x.1 ≠ g := fun h => hnot (h ▸ hf)
  exact (disjoint_of_ne (s.isField x hx) hg hne).not_covers hj

/-- To put the numbers back that a word held in the fields is to get that word back. -/
theorem reread_applyTo (s : r.Setting) (w : UInt32) :
    (s.reread w).assignment.applyTo (s.assignment.applyTo w) = w := by
  apply Word.ext
  intro j _
  have hfields : (s.reread w).fields = s.fields := by
    rw [fields, reread, List.map_map]
    exact List.map_id s.fields
  by_cases hcovers : ∃ f ∈ s.fields, f.Covers j
  · obtain ⟨f, hf, hj⟩ := hcovers
    have hmem : (f, f.read w) ∈ (s.reread w).parts := List.mem_map.2 ⟨f, hf, rfl⟩
    have hlt : j - f.offset < f.width := Nat.sub_lt_left_of_lt_add hj.1 hj.2
    rw [testBit_of_mem hmem hj, Field.testBit_read, Nat.add_sub_cancel' hj.1]
    simp [hlt]
  · have hnot : ∀ f ∈ s.fields, ¬ f.Covers j := fun f hf hj => hcovers ⟨f, hf, hj⟩
    rw [testBit_of_not_covers (hfields ▸ hnot), testBit_of_not_covers hnot]

end RegisterFormat.Setting

/-- Whatever fields of a register are set to whatever numbers, together or one after another: each
holds its number, cut to its width; every other field and every bit outside of these is as it was,
or zero if the word is written anew; and the numbers they held before bring the word back. -/
theorem RegisterFormat.views_round_trip (r : RegisterFormat) (s : r.Setting) (w : UInt32) :
    (∀ x ∈ s.parts, (x.1.read (s.assignment.applyTo w)).toNat = x.2.toNat % 2 ^ x.1.width) ∧
    (∀ g ∈ r.fields, g ∉ s.fields → g.read (s.assignment.applyTo w) = g.read w) ∧
    (∀ j, (∀ f ∈ s.fields, ¬ f.Covers j) →
      (s.assignment.applyTo w).toNat.testBit j = w.toNat.testBit j) ∧
    (∀ l : List (Field × UInt32), l.Perm s.parts → fillEach l w = s.assignment.applyTo w) ∧
    (∀ x ∈ s.parts, (x.1.read s.assignment.value).toNat = x.2.toNat % 2 ^ x.1.width) ∧
    (∀ j, (∀ f ∈ s.fields, ¬ f.Covers j) → s.assignment.value.toNat.testBit j = false) ∧
    (s.reread w).assignment.applyTo (s.assignment.applyTo w) = w := by
  -- to write a word anew is to change the word that is zero
  have hwrite : s.assignment.applyTo 0 = s.assignment.value := s.assignment.applyTo_zero
  refine ⟨?_, ?_, ?_, ?_, ?_, ?_, s.reread_applyTo w⟩
  · exact fun x hx => Setting.read_of_mem hx w
  · exact fun g hg hnot => Setting.read_of_notMem hg hnot w
  · exact fun j hj => Setting.testBit_of_not_covers hj
  · intro l hl
    rw [Setting.fillEach_perm hl, Setting.applyTo_assignment]
  · intro x hx
    rw [← hwrite]
    exact Setting.read_of_mem hx 0
  · intro j hj
    rw [← hwrite, Setting.testBit_of_not_covers hj]
    exact Nat.zero_testBit j

/-- A flag, and a threshold that is cut to two bits. -/
def PcmCs.threshold : PcmCs.format.Setting where
  parts := [(PcmCs.sync, 1), (PcmCs.rxthr, 7)]
  isField := by simp [PcmCs.format]
  distinct := by simp [PcmCs.sync, PcmCs.rxthr]

theorem RegisterFormat.views_round_trip_threshold :
    PcmCs.threshold.assignment = PcmCs.sync.set + PcmCs.rxthr.val 7 ∧
      (PcmCs.rxthr.read (PcmCs.threshold.assignment.applyTo 1)).toNat = 7 % 4 ∧
      PcmCs.threshold.assignment.applyTo 1 = 0x1000181 ∧
      (PcmCs.threshold.reread 1).assignment.applyTo 0x1000181 = 1 := by
  obtain ⟨hread, -, -, -, -, -, hback⟩ := PcmCs.format.views_round_trip PcmCs.threshold 1
  have hword : PcmCs.threshold.assignment.applyTo 1 = 0x1000181 := by decide
  exact ⟨by decide, hread (PcmCs.rxthr, 7) (by simp [PcmCs.threshold]), hword, hword ▸ hback⟩

end Bcm2835
