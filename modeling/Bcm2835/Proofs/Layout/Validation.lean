import Mathlib.Data.List.Chain
import Bcm2835.Layout

/-! Which tables of regions are accepted, and what becomes of the others. A table is read twice:
first each region on its own, where the first one that does not fit decides, then each region and
the next, where the first overlap decides. Regions that end before the next one begins end before
every region behind it, so an accepted table is disjoint as a whole (`validate_exact`). -/

namespace Bcm2835

namespace Region

/-- The first offset behind the region, which may lie beyond every address. -/
def limit (r : Region) : Nat := r.offset.toNat + r.size.toNat

/-- The region consists of whole words. -/
def Aligned (r : Region) : Prop := 4 ∣ r.offset.toNat ∧ 4 ∣ r.size.toNat

/-- The region does not reach beyond the peripheral block. -/
def Inside (r : Region) : Prop := r.limit ≤ Layout.blockSize.toNat

structure Fits (r : Region) : Prop where
  aligned : r.Aligned
  inside : r.Inside

/-- The region ends before the other one begins. -/
def Precedes (r s : Region) : Prop := r.limit ≤ s.offset.toNat

instance (r : Region) : Decidable r.Aligned := inferInstanceAs (Decidable (_ ∧ _))

instance (r : Region) : Decidable r.Inside := inferInstanceAs (Decidable (_ ≤ _))

instance (r : Region) : Decidable r.Fits :=
  decidable_of_iff (r.Aligned ∧ r.Inside) ⟨fun h => ⟨h.1, h.2⟩, fun h => ⟨h.aligned, h.inside⟩⟩

instance (r s : Region) : Decidable (r.Precedes s) := inferInstanceAs (Decidable (_ ≤ _))

/-- What a region that does not fit is refused with. -/
def refusal (r : Region) : Outcome Unit :=
  if ¬ r.Aligned then .error (.layout (.unaligned r.name r.offset))
  else if r.limit < UInt64.size then
    .error (.layout (.outOfBounds r.name (UInt64.ofNat r.limit)))
  else .fault .additionOverflow

variable {r s t : Region}

theorem Precedes.trans (hrs : r.Precedes s) (hst : s.Precedes t) : r.Precedes t := by
  have hs : s.offset.toNat ≤ s.limit := Nat.le_add_right ..
  exact Nat.le_trans hrs (Nat.le_trans hs hst)

instance : Trans Precedes Precedes Precedes := ⟨Precedes.trans⟩

theorem stop_eq_ok {stop : UInt64} : r.stop = .ok stop ↔ stop.toNat = r.limit :=
  Fault.sum64_eq_ok

theorem stop_eq_error {f : Fault} :
    r.stop = .error f ↔ UInt64.size ≤ r.limit ∧ f = .additionOverflow :=
  Fault.sum64_eq_error

theorem Inside.exists_stop (h : r.Inside) : ∃ stop, r.stop = .ok stop ∧ stop.toNat = r.limit := by
  have hlt : r.limit < UInt64.size := Nat.lt_of_le_of_lt h (by decide)
  have hstop : (UInt64.ofNat r.limit).toNat = r.limit := UInt64.toNat_ofNat_of_lt' hlt
  exact ⟨UInt64.ofNat r.limit, stop_eq_ok.2 hstop, hstop⟩

theorem aligned_iff : r.Aligned ↔ r.offset % 4 = 0 ∧ r.size % 4 = 0 := by
  have hmod (n : UInt64) : n % 4 = 0 ↔ 4 ∣ n.toNat := by
    rw [← UInt64.toNat_inj, UInt64.toNat_mod, Nat.dvd_iff_mod_eq_zero]
    rfl
  rw [Aligned, hmod, hmod]

theorem refusal_ne_ok : r.refusal ≠ .ok () := by
  rw [refusal]
  split
  · exact fun h => nomatch h
  · split
    · exact fun h => nomatch h
    · exact fun h => nomatch h

end Region

namespace Layout

open Region

variable {r s : Region} {before rest table : List Region}

/-! ## Each region on its own -/

theorem validateExtents_cons_of_fits (h : r.Fits) :
    validateExtents (r :: rest) = validateExtents rest := by
  obtain ⟨stop, hstop, hlimit⟩ := h.inside.exists_stop
  obtain ⟨hoffset, hsize⟩ := aligned_iff.1 h.aligned
  have hinside : ¬ blockSize < stop := by
    rw [UInt64.not_lt, UInt64.le_iff_toNat_le, hlimit]
    exact h.inside
  rw [validateExtents, if_neg (by simp [hoffset, hsize]), hstop]
  exact if_neg hinside

theorem validateExtents_cons_of_not_fits (h : ¬ r.Fits) :
    validateExtents (r :: rest) = r.refusal := by
  rw [validateExtents, refusal]
  by_cases haligned : r.Aligned
  · have houtside : ¬ r.Inside := fun hinside => h ⟨haligned, hinside⟩
    obtain ⟨hoffset, hsize⟩ := aligned_iff.1 haligned
    rw [if_neg (by simp [hoffset, hsize]), if_neg (not_not.2 haligned)]
    cases hstop : r.stop with
    | error f =>
      obtain ⟨hsize, rfl⟩ := stop_eq_error.1 hstop
      rw [if_neg (Nat.not_lt.2 hsize)]
    | ok stop =>
      have hlimit : stop.toNat = r.limit := stop_eq_ok.1 hstop
      have hlt : r.limit < UInt64.size := hlimit ▸ stop.toNat_lt
      have hbeyond : blockSize < stop := by
        rw [UInt64.lt_iff_toNat_lt, hlimit]
        exact Nat.lt_of_not_le houtside
      rw [if_pos hlt, ← hlimit, UInt64.ofNat_toNat]
      exact if_pos hbeyond
  · have hmisaligned : r.offset % 4 ≠ 0 ∨ r.size % 4 ≠ 0 := by
      rw [aligned_iff] at haligned
      exact Decidable.not_and_iff_not_or_not.1 haligned
    rw [if_pos hmisaligned, if_pos haligned]

theorem validateExtents_append (h : ∀ q ∈ before, q.Fits) :
    validateExtents (before ++ rest) = validateExtents rest := by
  induction before with
  | nil => rfl
  | cons q before ih =>
    obtain ⟨hq, hbefore⟩ := List.forall_mem_cons.1 h
    rw [List.cons_append, validateExtents_cons_of_fits hq]
    exact ih hbefore

theorem validateExtents_of_fits (h : ∀ r ∈ table, r.Fits) : validateExtents table = .ok () := by
  have happend : validateExtents (table ++ []) = validateExtents [] := validateExtents_append h
  rwa [List.append_nil] at happend

theorem exists_first_misfit (h : ¬ ∀ r ∈ table, r.Fits) :
    ∃ before r rest, table = before ++ r :: rest ∧ (∀ q ∈ before, q.Fits) ∧ ¬ r.Fits := by
  have hsome : (table.find? fun r => ¬ r.Fits).isSome := by
    simpa using h
  obtain ⟨r, hr⟩ := Option.isSome_iff_exists.1 hsome
  obtain ⟨hmisfit, before, rest, htable, hbefore⟩ := List.find?_eq_some_iff_append.1 hr
  exact ⟨before, r, rest, htable, by simpa using hbefore, by simpa using hmisfit⟩

/-! ## Each region and the next -/

theorem validateOrder_cons_of_precedes (hr : r.Inside) (h : r.Precedes s) :
    validateOrder (r :: s :: rest) = validateOrder (s :: rest) := by
  obtain ⟨stop, hstop, hlimit⟩ := hr.exists_stop
  have hapart : ¬ s.offset < stop := by
    rw [UInt64.not_lt, UInt64.le_iff_toNat_le, hlimit]
    exact h
  rw [validateOrder, hstop]
  exact if_neg hapart

theorem validateOrder_cons_of_not_precedes (hr : r.Inside) (h : ¬ r.Precedes s) :
    validateOrder (r :: s :: rest) = .error (.layout (.overlap r.name s.name)) := by
  obtain ⟨stop, hstop, hlimit⟩ := hr.exists_stop
  have hoverlap : s.offset < stop := by
    rw [UInt64.lt_iff_toNat_lt, hlimit]
    exact Nat.lt_of_not_le h
  rw [validateOrder, hstop]
  exact if_pos hoverlap

/-- Regions that end before the next one begins are passed over, up to the last of them. -/
theorem validateOrder_append (hinside : ∀ q ∈ before, q.Inside)
    (hchain : (before ++ [r]).IsChain Precedes) :
    validateOrder (before ++ r :: rest) = validateOrder (r :: rest) := by
  induction before with
  | nil => rfl
  | cons q before ih =>
    obtain ⟨hq, hbefore⟩ := List.forall_mem_cons.1 hinside
    cases before with
    | nil =>
      have hqr : q.Precedes r := List.isChain_pair.1 hchain
      exact validateOrder_cons_of_precedes hq hqr
    | cons p before =>
      obtain ⟨hqp, htail⟩ := List.isChain_cons_cons.1 hchain
      rw [List.cons_append, List.cons_append, validateOrder_cons_of_precedes hq hqp]
      exact ih hbefore htail

theorem validateOrder_of_isChain (hinside : ∀ r ∈ table, r.Inside)
    (hchain : table.IsChain Precedes) : validateOrder table = .ok () := by
  rcases List.eq_nil_or_concat table with rfl | ⟨before, r, rfl⟩
  · rfl
  · have hbefore : ∀ q ∈ before, q.Inside := fun q hq => hinside q (by simp [hq])
    rw [List.concat_eq_append] at hchain ⊢
    exact validateOrder_append hbefore hchain

/-- A table out of order has a first region that does not end before the next one begins. -/
theorem exists_first_overlap (h : ¬ table.IsChain Precedes) :
    ∃ before r s rest, table = before ++ r :: s :: rest ∧
      (before ++ [r]).IsChain Precedes ∧ ¬ r.Precedes s := by
  induction table with
  | nil => exact absurd List.isChain_nil h
  | cons q table ih =>
    cases table with
    | nil => exact absurd (List.isChain_singleton q) h
    | cons p table =>
      by_cases hqp : q.Precedes p
      · have htail : ¬ (p :: table).IsChain Precedes :=
          fun htail => h (List.isChain_cons_cons.2 ⟨hqp, htail⟩)
        obtain ⟨before, r, s, rest, htable, hchain, hrs⟩ := ih htail
        refine ⟨q :: before, r, s, rest, congrArg (q :: ·) htable, ?_, hrs⟩
        -- the region behind the new one is the first of those that were found in order
        obtain ⟨behind, hbehind⟩ : ∃ behind, before ++ [r] = p :: behind := by
          cases before with
          | nil => exact ⟨[], congrArg (· :: []) (List.cons.inj htable).1.symm⟩
          | cons b before => exact ⟨before ++ [r], congrArg (· :: _) (List.cons.inj htable).1.symm⟩
        rw [hbehind] at hchain
        rw [List.cons_append, hbehind]
        exact List.isChain_cons_cons.2 ⟨hqp, hchain⟩
      · exact ⟨[], q, p, table, rfl, List.isChain_singleton q, hqp⟩

/-! ## The whole table -/

theorem validate_of_fits (h : ∀ r ∈ table, r.Fits) : validate table = validateOrder table := by
  rw [validate, validateExtents_of_fits h]

theorem validate_of_not_fits (hbefore : ∀ q ∈ before, q.Fits) (hr : ¬ r.Fits) :
    validate (before ++ r :: rest) = r.refusal := by
  rw [validate, validateExtents_append hbefore, validateExtents_cons_of_not_fits hr]
  split
  · next h => exact absurd h refusal_ne_ok
  · rfl

theorem validate_of_overlap (hfits : ∀ q ∈ before ++ r :: s :: rest, q.Fits)
    (hchain : (before ++ [r]).IsChain Precedes) (hrs : ¬ r.Precedes s) :
    validate (before ++ r :: s :: rest) = .error (.layout (.overlap r.name s.name)) := by
  have hbefore : ∀ q ∈ before, q.Inside := fun q hq => (hfits q (by simp [hq])).inside
  have hr : r.Inside := (hfits r (by simp)).inside
  rw [validate_of_fits hfits, validateOrder_append hbefore hchain]
  exact validateOrder_cons_of_not_precedes hr hrs

theorem validate_eq_ok :
    validate table = .ok () ↔ (∀ r ∈ table, r.Fits) ∧ table.IsChain Precedes := by
  constructor
  · intro hok
    have hfits : ∀ r ∈ table, r.Fits := by
      by_contra hmisfit
      obtain ⟨before, r, rest, rfl, hbefore, hr⟩ := exists_first_misfit hmisfit
      rw [validate_of_not_fits hbefore hr] at hok
      exact refusal_ne_ok hok
    have hchain : table.IsChain Precedes := by
      by_contra hbroken
      obtain ⟨before, r, s, rest, rfl, hbefore, hrs⟩ := exists_first_overlap hbroken
      rw [validate_of_overlap hfits hbefore hrs] at hok
      cases hok
    exact ⟨hfits, hchain⟩
  · rintro ⟨hfits, hchain⟩
    rw [validate_of_fits hfits]
    exact validateOrder_of_isChain (fun r hr => (hfits r hr).inside) hchain

/-- A table is accepted exactly if every region consists of whole words inside the block and ends
before every region behind it begins. Of any other table the first region that does not fit decides
or, if there is none, the first neighbours that overlap. -/
theorem validate_exact (table : List Region) :
    (validate table = .ok () ↔ (∀ r ∈ table, r.Fits) ∧ table.Pairwise Precedes) ∧
    (validate table = .ok () ∨
      (∃ before r rest, table = before ++ r :: rest ∧ (∀ q ∈ before, q.Fits) ∧ ¬ r.Fits ∧
        validate table = r.refusal) ∨
      ∃ before r s rest, table = before ++ r :: s :: rest ∧ (∀ q ∈ table, q.Fits) ∧
        (before ++ [r]).IsChain Precedes ∧ ¬ r.Precedes s ∧
        validate table = .error (.layout (.overlap r.name s.name))) := by
  refine ⟨?_, ?_⟩
  · rw [← List.isChain_iff_pairwise]
    exact validate_eq_ok
  by_cases hfits : ∀ r ∈ table, r.Fits
  · by_cases hchain : table.IsChain Precedes
    · exact .inl (validate_eq_ok.2 ⟨hfits, hchain⟩)
    · obtain ⟨before, r, s, rest, rfl, hbefore, hrs⟩ := exists_first_overlap hchain
      have hoverlap := validate_of_overlap hfits hbefore hrs
      exact .inr (.inr ⟨before, r, s, rest, rfl, hfits, hbefore, hrs, hoverlap⟩)
  · obtain ⟨before, r, rest, rfl, hbefore, hr⟩ := exists_first_misfit hfits
    have hrefused : validate (before ++ r :: rest) = r.refusal := validate_of_not_fits hbefore hr
    exact .inr (.inl ⟨before, r, rest, rfl, hbefore, hr, hrefused⟩)

/-- An empty region may lie where the next one begins. -/
example : validate [⟨"A", 0x1000, 0⟩, ⟨"B", 0x1000, 4⟩] = .ok () := by decide

end Layout

end Bcm2835
