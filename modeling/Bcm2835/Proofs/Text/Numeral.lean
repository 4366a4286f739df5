import Mathlib.Data.Nat.Digits.Lemmas
import Bcm2835.Text.Numeral

/-! Numerals and what they say. A character stands for the digit that is written with it, in either
case of the letters, and the digits of a numeral make up its number by their places (`Spells`), with
a plus in front of them or not (`Denotes`). The reader accepts the numerals of numbers within its
limit and no other text (`readNat_eq_ok`); what is written for a number, with zeros in front or
without, spells that number (`spells_digits`, `spells_padded`). -/

namespace Bcm2835

/-! ## Letters in either case -/

namespace Text

/-- The same character, but perhaps a letter from A to Z in the other case. -/
inductive AlikeButCase : Char → Char → Prop
  | same (c : Char) : AlikeButCase c c
  | capital {k : Nat} : k < 26 → AlikeButCase (Char.ofNat (65 + k)) (Char.ofNat (97 + k))
  | small {k : Nat} : k < 26 → AlikeButCase (Char.ofNat (97 + k)) (Char.ofNat (65 + k))

theorem toNat_ofNat {n : Nat} (h : n < 0xD800) : (Char.ofNat n).toNat = n := by
  rw [Char.ofNat, dif_pos (Or.inl h)]
  rfl

theorem toNat_toLower (c : Char) : c.toLower.toNat =
    if 65 ≤ c.toNat ∧ c.toNat ≤ 90 then c.toNat + 32 else c.toNat := by
  have hcapital : (c.val ≥ 'A'.val ∧ c.val ≤ 'Z'.val) ↔ 65 ≤ c.toNat ∧ c.toNat ≤ 90 := by
    rw [ge_iff_le, UInt32.le_iff_toNat_le, UInt32.le_iff_toNat_le]
    rfl
  delta Char.toLower
  split
  · next h =>
    have hle : c.val.toNat ≤ 90 := (hcapital.1 h).2
    rw [if_pos (hcapital.1 h)]
    change (c.val + 32).toNat = c.val.toNat + 32
    rw [UInt32.toNat_add]
    exact Nat.mod_eq_of_lt (Nat.lt_of_le_of_lt (Nat.add_le_add_right hle 32) (by decide))
  · next h => rw [if_neg (mt hcapital.2 h)]

theorem alikeButCase_iff {a b : Char} : AlikeButCase a b ↔ a.toLower = b.toLower := by
  rw [← Char.toNat_inj, toNat_toLower, toNat_toLower]
  constructor
  · rintro (_ | hk | hk)
    · rfl
    all_goals
      rw [toNat_ofNat (by omega), toNat_ofNat (by omega)]
      split <;> split <;> omega
  · intro h
    rcases Nat.lt_trichotomy a.toNat b.toNat with hlt | heq | hlt
    · obtain ⟨k, hk⟩ : ∃ k, a.toNat = 65 + k ∧ b.toNat = 97 + k ∧ k < 26 :=
        ⟨a.toNat - 65, by split at h <;> split at h <;> omega⟩
      rw [← Char.ofNat_toNat a, ← Char.ofNat_toNat b, hk.1, hk.2.1]
      exact .capital hk.2.2
    · rw [Char.toNat_inj.1 heq]
      exact .same b
    · obtain ⟨k, hk⟩ : ∃ k, a.toNat = 97 + k ∧ b.toNat = 65 + k ∧ k < 26 :=
        ⟨b.toNat - 65, by split at h <;> split at h <;> omega⟩
      rw [← Char.ofNat_toNat a, ← Char.ofNat_toNat b, hk.1, hk.2.1]
      exact .small hk.2.2

theorem forall₂_alikeButCase {as bs : List Char} :
    List.Forall₂ AlikeButCase as bs ↔ as.map Char.toLower = bs.map Char.toLower := by
  rw [← List.forall₂_eq_eq_eq, List.forall₂_map_left_iff, List.forall₂_map_right_iff]
  exact ⟨.imp fun _ _ => alikeButCase_iff.1, .imp fun _ _ => alikeButCase_iff.2⟩

end Text

namespace Numeral

open Text (AlikeButCase)

variable {radix limit : Nat}

/-! ## Digits -/

/-- A character that is written for a digit, in either case. -/
def IsDigit (radix : Nat) (c : Char) (d : Nat) : Prop := d < radix ∧ AlikeButCase c (digitChar d)

theorem toNat_digitChar {d : Nat} (h : d < 36) :
    (digitChar d).toNat = if d < 10 then 48 + d else 87 + d := by
  rw [digitChar]
  split <;> exact Text.toNat_ofNat (by omega)

theorem isDigit_iff {c : Char} {d : Nat} (hradix : radix ≤ 36) : IsDigit radix c d ↔
    d < radix ∧ (if 65 ≤ c.toNat ∧ c.toNat ≤ 90 then c.toNat + 32 else c.toNat) =
      if d < 10 then 48 + d else 87 + d := by
  refine and_congr_right fun hd => ?_
  have hdigit := toNat_digitChar (Nat.lt_of_lt_of_le hd hradix)
  rw [Text.alikeButCase_iff, ← Char.toNat_inj, Text.toNat_toLower, Text.toNat_toLower, hdigit]
  split_ifs <;> omega

theorem digitValue_eq_some {c : Char} {d : Nat} (hradix : radix ≤ 36) :
    digitValue radix c = some d ↔ IsDigit radix c d := by
  have hle (a b : Char) : a ≤ b ↔ a.toNat ≤ b.toNat := Iff.rfl
  rw [isDigit_iff hradix]
  simp only [digitValue, hle, Option.ite_none_right_eq_some, Option.some.injEq,
    Char.reduceToNat]
  split_ifs <;> omega

theorem IsDigit.unique {c : Char} {d d' : Nat} (hradix : radix ≤ 36) (h : IsDigit radix c d)
    (h' : IsDigit radix c d') : d = d' :=
  Option.some.inj
    (((digitValue_eq_some hradix).2 h).symm.trans ((digitValue_eq_some hradix).2 h'))

/-! ## What numerals say -/

/-- The characters are the digits of a number, at least one of them, leading zeros among them. -/
inductive Spells (radix : Nat) : List Char → Nat → Prop
  | intro {cs : List Char} {ds : List Nat} : List.Forall₂ (IsDigit radix) cs ds → ds ≠ [] →
    Spells radix cs (Nat.ofDigits radix ds.reverse)

/-- The number of a numeral, which may have a plus in front of its digits. -/
inductive Denotes (radix : Nat) : List Char → Nat → Prop
  | plain {cs : List Char} {n : Nat} : Spells radix cs n → Denotes radix cs n
  | plus {cs : List Char} {n : Nat} : Spells radix cs n → Denotes radix ('+' :: cs) n

/-- The digits continue the value to the number. -/
def Extends (radix value : Nat) (cs : List Char) (n : Nat) : Prop :=
  ∃ ds, List.Forall₂ (IsDigit radix) cs ds ∧ ds.foldl (fun n d => n * radix + d) value = n

theorem extends_nil {value n : Nat} : Extends radix value [] n ↔ value = n := by
  constructor
  · rintro ⟨_, ⟨⟩, hn⟩
    exact hn
  · exact fun hn => ⟨[], .nil, hn⟩

theorem extends_cons {c : Char} {cs : List Char} {value n : Nat} :
    Extends radix value (c :: cs) n ↔
      ∃ d, IsDigit radix c d ∧ Extends radix (value * radix + d) cs n := by
  constructor
  · rintro ⟨_, _ | ⟨hd, hds⟩, hn⟩
    exact ⟨_, hd, _, hds, hn⟩
  · rintro ⟨d, hd, ds, hds, hn⟩
    exact ⟨d :: ds, .cons hd hds, hn⟩

/-- A number that has become too large does not come back to the limit. -/
theorem Extends.le {value n : Nat} {cs : List Char} (h : Extends radix value cs n) : value ≤ n := by
  induction cs generalizing value with
  | nil => exact Nat.le_of_eq (extends_nil.1 h)
  | cons c cs ih =>
    obtain ⟨d, hd, hrest⟩ := extends_cons.1 h
    have hmul : value ≤ value * radix := Nat.le_mul_of_pos_right value (Nat.zero_lt_of_lt hd.1)
    exact Nat.le_trans (Nat.le_add_right_of_le hmul) (ih hrest)

theorem ofDigits_reverse (radix : Nat) (ds : List Nat) :
    Nat.ofDigits radix ds.reverse = ds.foldl (fun n d => n * radix + d) 0 := by
  rw [Nat.ofDigits_eq_foldr, List.foldr_reverse]
  simp only [Nat.cast_id, Nat.mul_comm, Nat.add_comm]

theorem not_spells_nil {n : Nat} : ¬ Spells radix [] n := by
  rintro ⟨hds, hne⟩
  cases hds
  exact hne rfl

theorem spells_cons {c : Char} {cs : List Char} {n : Nat} :
    Spells radix (c :: cs) n ↔ Extends radix 0 (c :: cs) n := by
  constructor
  · rintro ⟨hds, -⟩
    exact ⟨_, hds, (ofDigits_reverse radix _).symm⟩
  · rintro ⟨ds, hds, rfl⟩
    rw [← ofDigits_reverse]
    refine .intro hds ?_
    rintro rfl
    cases hds

/-- Digits are read as long as what they continue the value to stays within the limit. -/
theorem extend_eq_ok (hradix : radix ≤ 36) {overflow : ReadError} {cs : List Char}
    {value n : Nat} (hvalue : value ≤ limit) :
    extend radix limit overflow value cs = .ok n ↔ Extends radix value cs n ∧ n ≤ limit := by
  induction cs generalizing value with
  | nil =>
    rw [extend, Except.ok.injEq, extends_nil, iff_self_and]
    rintro rfl
    exact hvalue
  | cons c cs ih =>
    rw [extend, extends_cons]
    cases hc : digitValue radix c with
    | none =>
      refine ⟨nofun, ?_⟩
      rintro ⟨⟨d, hd, -⟩, -⟩
      rw [(digitValue_eq_some hradix).2 hd] at hc
      cases hc
    | some d =>
      have hd := (digitValue_eq_some hradix).1 hc
      have hrest : (∃ d, IsDigit radix c d ∧ Extends radix (value * radix + d) cs n) ↔
          Extends radix (value * radix + d) cs n := by
        refine ⟨?_, fun h => ⟨d, hd, h⟩⟩
        rintro ⟨d', hd', h⟩
        rwa [hd.unique hradix hd']
      rw [hrest]
      dsimp only
      split
      · next hle => exact ih hle
      · next hlt =>
        refine ⟨nofun, ?_⟩
        rintro ⟨h, hn⟩
        exact absurd (Nat.le_trans h.le hn) hlt

theorem readMagnitude_eq_ok (hradix : radix ≤ 36) {overflow : ReadError} {cs : List Char}
    {n : Nat} :
    readMagnitude radix limit overflow cs = .ok n ↔ Spells radix cs n ∧ n ≤ limit := by
  cases cs with
  | nil =>
    refine ⟨nofun, ?_⟩
    rintro ⟨h, -⟩
    exact absurd h not_spells_nil
  | cons c cs =>
    rw [spells_cons]
    exact extend_eq_ok hradix (Nat.zero_le limit)

theorem Spells.exists_isDigit {cs : List Char} {n : Nat} (h : Spells radix cs n) {c : Char}
    (hc : c ∈ cs) : ∃ d, IsDigit radix c d := by
  obtain ⟨hds, -⟩ := h
  induction hds with
  | nil => cases hc
  | cons hd _ ih =>
    rcases List.mem_cons.1 hc with rfl | hc
    · exact ⟨_, hd⟩
    · exact ih hc

theorem not_spells_plus (hradix : radix ≤ 36) {cs : List Char} {n : Nat} :
    ¬ Spells radix ('+' :: cs) n := by
  intro h
  obtain ⟨d, hd⟩ := h.exists_isDigit List.mem_cons_self
  have hplus := ((isDigit_iff hradix).1 hd).2
  simp only [Char.reduceToNat] at hplus
  split_ifs at hplus <;> omega

/-- The numerals that are read are those of numbers within the limit. -/
theorem readNat_eq_ok (hradix : radix ≤ 36) {cs : List Char} {n : Nat} :
    readNat radix limit cs = .ok n ↔ Denotes radix cs n ∧ n ≤ limit := by
  rw [readNat.eq_def]
  split
  · constructor
    · rintro ⟨⟩
    · rintro ⟨h | h, -⟩
      exact absurd h not_spells_nil
  · rw [readMagnitude_eq_ok hradix]
    refine and_congr_left' ⟨.plus, ?_⟩
    rintro (h | h)
    · exact absurd h (not_spells_plus hradix)
    · exact h
  · next hplus =>
    rw [readMagnitude_eq_ok hradix]
    refine and_congr_left' ⟨.plain, ?_⟩
    rintro (h | h)
    · exact h
    · exact absurd rfl (hplus _)

/-- A text says one number at most. -/
theorem Denotes.unique (hradix : radix ≤ 36) {cs : List Char} {m n : Nat}
    (hm : Denotes radix cs m) (hn : Denotes radix cs n) : m = n := by
  have hmax := (readNat_eq_ok hradix).2 ⟨hm, Nat.le_max_left m n⟩
  rw [(readNat_eq_ok hradix).2 ⟨hn, Nat.le_max_right m n⟩] at hmax
  exact (Except.ok.inj hmax).symm

/-- There are no letters in a decimal numeral. -/
theorem Spells.toNat_toLower_lt {cs : List Char} {n : Nat} (h : Spells 10 cs n) {c : Char}
    (hc : c ∈ cs) : c.toLower.toNat < 58 := by
  obtain ⟨d, hd⟩ := h.exists_isDigit hc
  have hlower := ((isDigit_iff (by decide)).1 hd).2
  rw [Text.toNat_toLower, hlower, if_pos hd.1]
  exact Nat.add_lt_add_left hd.1 48

theorem Denotes.toNat_toLower_lt {cs : List Char} {n : Nat} (h : Denotes 10 cs n) {c : Char}
    (hc : c ∈ cs) : c.toLower.toNat < 58 := by
  rcases h with h | h
  · exact h.toNat_toLower_lt hc
  · rcases List.mem_cons.1 hc with rfl | hc
    · decide
    · exact h.toNat_toLower_lt hc

/-! ## What is written -/

theorem isDigit_digitChar {d : Nat} (h : d < radix) : IsDigit radix (digitChar d) d :=
  ⟨h, .same _⟩

namespace Spells

variable {cs : List Char} {c : Char} {n d : Nat}

theorem singleton (h : IsDigit radix c d) : Spells radix [c] d := by
  have hone := Spells.intro (.cons h .nil) (List.cons_ne_nil d [])
  rwa [List.reverse_singleton, Nat.ofDigits_singleton] at hone

theorem concat (h : Spells radix cs n) (hc : IsDigit radix c d) :
    Spells radix (cs ++ [c]) (n * radix + d) := by
  obtain ⟨hds, hne⟩ := h
  have hall := Spells.intro (List.rel_append hds (.cons hc .nil))
    (List.append_ne_nil_of_left_ne_nil hne _)
  rwa [List.reverse_append, List.reverse_singleton, List.singleton_append, Nat.ofDigits_cons,
    Nat.mul_comm, Nat.add_comm] at hall

theorem zeros (hpos : 0 < radix) (h : Spells radix cs n) (k : Nat) :
    Spells radix (List.replicate k '0' ++ cs) n := by
  obtain ⟨hds, hne⟩ := h
  have hzero : IsDigit radix '0' 0 := isDigit_digitChar hpos
  have hzeros : List.Forall₂ (IsDigit radix) (List.replicate k '0') (List.replicate k 0) := by
    induction k with
    | zero => exact .nil
    | succ k ih => exact .cons hzero ih
  have hall := Spells.intro (List.rel_append hzeros hds)
    (List.append_ne_nil_of_right_ne_nil _ hne)
  rwa [List.reverse_append, List.reverse_replicate, Nat.ofDigits_append_replicate_zero] at hall

end Spells

/-- The digits that are written spell the number. -/
theorem spells_digits (hradix : 2 ≤ radix) (n : Nat) : Spells radix (digits radix n) n := by
  induction n using digits.induct radix with
  | case1 n h ih =>
    have hall := ih.concat (isDigit_digitChar (Nat.mod_lt n (Nat.zero_lt_of_lt hradix)))
    rw [Nat.div_add_mod'] at hall
    rwa [digits, dif_pos h]
  | case2 n h =>
    rw [digits, dif_neg h]
    exact .singleton (isDigit_digitChar (by omega))

theorem spells_padded (hradix : 2 ≤ radix) (width n : Nat) :
    Spells radix (padded radix width n) n :=
  (spells_digits hradix n).zeros (Nat.zero_lt_of_lt hradix) _

end Numeral

end Bcm2835
