import Mathlib.Algebra.GroupWithZero.Nat
import Bcm2835.Proofs.Layout.Validation

/-! The bytes between the regions. There is a gap behind a region if it ends before what follows it,
which is the next region or the end of the block. So all gaps of a table exist exactly if its
regions are in order and inside the block, and then regions and gaps together fill the block from
the first region on (`paddings_tile`). -/

namespace Bcm2835

open Region

namespace Layout

/-- Where the bytes behind a region end: with the next region, or with the block. -/
def follower (rest : List Region) : UInt64 := (rest.head?.map Region.offset).getD blockSize

/-- The regions of a table in order, each with the bytes up to what follows it. -/
structure Tiling (table : List Region) (entries : List (Region × UInt64)) : Prop where
  regions : entries.map Prod.fst = table
  meet : entries.IsChain fun x y =>
    y.1.offset.toNat = x.1.offset.toNat + x.1.size.toNat + x.2.toNat
  fill : ∀ first ∈ table.head?, first.offset.toNat +
    (entries.map fun x => x.1.size.toNat + x.2.toNat).sum = blockSize.toNat

variable {r : Region} {rest table : List Region} {entries tail : List (Region × UInt64)}
  {gap : UInt64}

theorem paddings_cons_eq_ok :
    paddings (r :: rest) = .ok entries ↔
      ∃ gap tail, (follower rest).toNat = r.limit + gap.toNat ∧ paddings rest = .ok tail ∧
        entries = (r, gap) :: tail := by
  have hcons : paddings (r :: rest) = (do
      let stop ← r.stop
      let gap ← Fault.difference64 (follower rest) stop
      let tail ← paddings rest
      pure ((r, gap) :: tail)) := rfl
  simp only [hcons, Fault.bind_eq_ok, stop_eq_ok, Fault.difference64_eq_ok]
  constructor
  · rintro ⟨stop, hstop, gap, hgap, tail, htail, hentries⟩
    rw [hstop] at hgap
    exact ⟨gap, tail, hgap, htail, (Except.ok.inj hentries).symm⟩
  · rintro ⟨gap, tail, hgap, htail, rfl⟩
    have hlt : r.limit < UInt64.size :=
      Nat.lt_of_le_of_lt (Nat.le.intro hgap.symm) (follower rest).toNat_lt
    have hstop : (UInt64.ofNat r.limit).toNat = r.limit := UInt64.toNat_ofNat_of_lt' hlt
    refine ⟨UInt64.ofNat r.limit, hstop, gap, ?_, tail, htail, rfl⟩
    rw [hstop]
    exact hgap

/-- There is a gap behind each region exactly if the regions are in order and inside the block. -/
theorem exists_paddings_iff :
    (∃ entries, paddings table = .ok entries) ↔
      (∀ r ∈ table, r.Inside) ∧ table.IsChain Precedes := by
  induction table with
  | nil => exact iff_of_true ⟨[], rfl⟩ ⟨List.forall_mem_nil _, List.isChain_nil⟩
  | cons r rest ih =>
    have hcons : (∃ entries, paddings (r :: rest) = .ok entries) ↔
        r.limit ≤ (follower rest).toNat ∧ ∃ tail, paddings rest = .ok tail := by
      simp only [paddings_cons_eq_ok]
      constructor
      · rintro ⟨entries, gap, tail, hgap, htail, -⟩
        exact ⟨Nat.le.intro hgap.symm, tail, htail⟩
      · rintro ⟨hle, tail, htail⟩
        have hlt : (follower rest).toNat - r.limit < UInt64.size :=
          Nat.lt_of_le_of_lt (Nat.sub_le ..) (follower rest).toNat_lt
        refine ⟨_, UInt64.ofNat ((follower rest).toNat - r.limit), tail, ?_, htail, rfl⟩
        rw [UInt64.toNat_ofNat_of_lt' hlt]
        exact (Nat.add_sub_cancel' hle).symm
    rw [hcons, ih, List.forall_mem_cons]
    cases rest with
    | nil =>
      have hlast : r.limit ≤ (follower []).toNat ↔ r.Inside := Iff.rfl
      simp [hlast]
    | cons s rest =>
      have hnext : r.limit ≤ (follower (s :: rest)).toNat ↔ r.Precedes s := Iff.rfl
      rw [hnext, List.isChain_cons_cons]
      constructor
      · rintro ⟨hrs, hinside, hchain⟩
        -- the bound of the block comes from the last region, through all the ones behind
        have hs : s.Inside := hinside s List.mem_cons_self
        have hle : s.offset.toNat ≤ s.limit := Nat.le_add_right ..
        exact ⟨⟨Nat.le_trans hrs (Nat.le_trans hle hs), hinside⟩, hrs, hchain⟩
      · rintro ⟨⟨-, hinside⟩, hrs, hchain⟩
        exact ⟨hrs, hinside, hchain⟩

theorem Tiling.cons (h : Tiling rest tail) (hgap : (follower rest).toNat = r.limit + gap.toNat) :
    Tiling (r :: rest) ((r, gap) :: tail) := by
  obtain ⟨rfl, hmeet, hfill⟩ := h
  have hlimit : r.limit = r.offset.toNat + r.size.toNat := rfl
  cases tail with
  | nil =>
    have hlast : blockSize.toNat = r.limit + gap.toNat := hgap
    refine ⟨rfl, List.isChain_singleton _, fun first hfirst => ?_⟩
    obtain rfl : r = first := Option.mem_some_iff.1 hfirst
    simp only [List.map_cons, List.map_nil, List.sum_cons, List.sum_nil]
    omega
  | cons x tail =>
    have hnext : x.1.offset.toNat = r.limit + gap.toNat := hgap
    have hbehind := hfill x.1 rfl
    refine ⟨rfl, List.isChain_cons_cons.2 ⟨hnext, hmeet⟩, fun first hfirst => ?_⟩
    obtain rfl : r = first := Option.mem_some_iff.1 hfirst
    simp only [List.map_cons, List.sum_cons] at hbehind ⊢
    omega

theorem tiling_of_paddings (h : paddings table = .ok entries) : Tiling table entries := by
  induction table generalizing entries with
  | nil =>
    obtain rfl : [] = entries := Except.ok.inj h
    exact ⟨rfl, List.isChain_nil, fun first hfirst => nomatch hfirst⟩
  | cons r rest ih =>
    obtain ⟨gap, tail, hgap, htail, rfl⟩ := paddings_cons_eq_ok.1 h
    exact (ih htail).cons hgap

/-- Every offset of the block has a bus address. -/
theorem exists_busAddress {offset : UInt64} (h : offset.toNat ≤ blockSize.toNat) :
    ∃ bus, busAddress offset = .ok bus ∧ bus.toNat = busBase.toNat + offset.toNat := by
  have hblock : busBase.toNat + blockSize.toNat < UInt32.size := by decide
  have hlt : busBase.toNat + offset.toNat < UInt32.size :=
    Nat.lt_of_le_of_lt (Nat.add_le_add_left h _) hblock
  have hlow : offset.toUInt32.toNat = offset.toNat := by
    rw [UInt64.toNat_toUInt32]
    exact Nat.mod_eq_of_lt (Nat.lt_of_le_of_lt (Nat.le_add_left ..) hlt)
  have hbus : (UInt32.ofNat (busBase.toNat + offset.toNat)).toNat =
      busBase.toNat + offset.toNat := UInt32.toNat_ofNat_of_lt' hlt
  refine ⟨_, Fault.sum32_eq_ok.2 ?_, hbus⟩
  rw [hbus, hlow]

theorem exists_describe (h : r.Inside) : ∃ line, r.describe = .ok line := by
  have hoffset : r.offset.toNat ≤ blockSize.toNat := Nat.le_trans (Nat.le_add_right ..) h
  obtain ⟨stop, hstop, -⟩ := h.exists_stop
  obtain ⟨bus, hbus, -⟩ := exists_busAddress hoffset
  exact ⟨_, Fault.bind_eq_ok.2 ⟨stop, hstop, Fault.bind_eq_ok.2 ⟨bus, hbus, rfl⟩⟩⟩

/-- A table is accepted exactly if it is aligned and a gap exists behind each of its regions.
Regions and gaps then fill the block from the first region on, and every region can be described. -/
theorem paddings_tile (table : List Region) :
    (validate table = .ok () ↔
      (∀ r ∈ table, r.Aligned) ∧ ∃ entries, paddings table = .ok entries) ∧
    (∀ entries, paddings table = .ok entries → Tiling table entries) ∧
    (validate table = .ok () → ∀ r ∈ table, ∃ line, r.describe = .ok line) := by
  refine ⟨?_, fun entries h => tiling_of_paddings h, fun h r hr => ?_⟩
  · rw [validate_eq_ok, exists_paddings_iff, ← and_assoc]
    refine and_congr_left fun _ => ?_
    rw [← forall₂_and]
    exact forall₂_congr fun r _ => ⟨fun hr => ⟨hr.aligned, hr.inside⟩, fun hr => ⟨hr.1, hr.2⟩⟩
  · have hr : r.Fits := (validate_eq_ok.1 h).1 r hr
    exact exists_describe hr.inside

/-- The documented regions tile the block, but for what lies before the first of them. -/
theorem paddings_tile_regions : validate regions = .ok () ∧
    (∃ entries, paddings regions = .ok entries ∧ Tiling regions entries) ∧
    ∀ r ∈ regions, ∃ line, r.describe = .ok line := by
  have hvalid : validate regions = .ok () := by decide +kernel
  obtain ⟨hiff, htiling, hdescribe⟩ := paddings_tile regions
  obtain ⟨-, entries, hentries⟩ := hiff.1 hvalid
  exact ⟨hvalid, ⟨entries, hentries, htiling entries hentries⟩, hdescribe hvalid⟩

end Layout

end Bcm2835
