/-
  Sides — the two ranges of a mapping, known by the addresses in them.

  A mapping has a trace side and a static side.  What the ledger computes about them in 64-bit words
  is said here in points and natural numbers:

    * the addresses of a range are counted by `AddressRange.size`, one more than the distance of its
      ends; unlike `length` it is exact for the range of all addresses too (`card_contains`);
    * a mapping is consistent exactly if both sides have as many addresses (`isConsistent_iff`);
    * two mappings conflict exactly if at some snap they share a trace address, or a static address
      of one space of one program (`conflictsWith_iff`), and so conflicts go both ways;
    * a range that is computed from a start and a distance, or a start and a length, is the one with
      these measures, and is refused exactly where it would run past the last address
      (`staticSide?_eq_some`, `ofStartLength?_eq_some`).
-/
import Mathlib.Order.Interval.Finset.Nat
import Mathlib.SetTheory.Cardinal.Finite
import RegionAtlas.Ledger.Refusal
import RegionAtlas.Proofs.Extent

namespace RegionAtlas

/-! ## Measures of ranges -/

namespace AddressRange

/-- The number of addresses, exactly. -/
def size (r : AddressRange) : Nat := r.max.toNat - r.min.toNat + 1

theorem toNat_min_le (r : AddressRange) : r.min.toNat ≤ r.max.toNat :=
  UInt64.le_iff_toNat_le.mp r.min_le_max

theorem toNat_extent (r : AddressRange) : r.extent.toNat = r.max.toNat - r.min.toNat :=
  UInt64.toNat_sub_of_le _ _ r.min_le_max

theorem contains_iff_toNat {r : AddressRange} {a : UInt64} :
    r.contains a = true ↔ r.min.toNat ≤ a.toNat ∧ a.toNat ≤ r.max.toNat := by
  rw [contains_iff, UInt64.le_iff_toNat_le, UInt64.le_iff_toNat_le]

/-- **The size of a range counts its addresses.** -/
theorem card_contains (r : AddressRange) : Nat.card {a // r.contains a = true} = r.size := by
  have hbound : r.max.toNat < 2 ^ 64 := r.max.toNat_lt
  -- addresses are numbers between those of the ends
  have e : {a // r.contains a = true} ≃ Finset.Icc r.min.toNat r.max.toNat := {
    toFun := fun a => ⟨a.1.toNat, Finset.mem_Icc.mpr (contains_iff_toNat.mp a.2)⟩
    invFun := fun n => ⟨UInt64.ofNat n.1, by
      obtain ⟨hmin, hmax⟩ := Finset.mem_Icc.mp n.2
      have hn : n.1 < 2 ^ 64 := by omega
      rw [contains_iff_toNat, UInt64.toNat_ofNat_of_lt' hn]
      exact ⟨hmin, hmax⟩⟩
    left_inv := fun a => Subtype.ext (UInt64.ofNat_toNat)
    right_inv := fun n => by
      have hn : n.1 < 2 ^ 64 := by
        have hmax := (Finset.mem_Icc.mp n.2).2
        omega
      exact Subtype.ext (UInt64.toNat_ofNat_of_lt' hn) }
  have hle : r.min.toNat ≤ r.max.toNat := r.toNat_min_le
  rw [Nat.card_congr e, Nat.card_eq_fintype_card, Fintype.card_coe, Nat.card_Icc, size]
  omega

/-- Ranges reach equally far exactly if they have as many addresses. -/
theorem extent_eq_iff {r s : AddressRange} : r.extent = s.extent ↔ r.size = s.size := by
  rw [← UInt64.toNat_inj, toNat_extent, toNat_extent, size, size]
  omega

/-- A range is known by its lowest address and its size. -/
theorem eq_of_size {r s : AddressRange} (hmin : r.min = s.min) (hsize : r.size = s.size) :
    r = s := by
  have hr : r.min.toNat ≤ r.max.toNat := r.toNat_min_le
  have hs : s.min.toNat ≤ s.max.toNat := s.toNat_min_le
  have hmax : r.max.toNat = s.max.toNat := by
    rw [size, size, hmin] at hsize
    rw [hmin] at hr
    omega
  exact AddressRange.ext hmin (UInt64.toNat_inj.mp hmax)

/-- The length counts the addresses, except that it is one short for the range of them all. -/
theorem toNat_length (r : AddressRange) : r.length.toNat = Min.min r.size (2 ^ 64 - 1) := by
  have hextent : r.extent.toNat = r.max.toNat - r.min.toNat := r.toNat_extent
  have hbound : r.extent.toNat < 2 ^ 64 := r.extent.toNat_lt
  rw [length, size]
  split
  · next hall =>
    have hlast : r.extent.toNat = 2 ^ 64 - 1 := by rw [hall]; rfl
    omega
  · next hless =>
    have hlast : r.extent.toNat ≠ 2 ^ 64 - 1 := fun h => hless (UInt64.toNat_inj.mp h)
    have hone : (1 : UInt64).toNat = 1 := rfl
    rw [UInt64.toNat_add, hone]
    omega

theorem of?_eq_some {min max : UInt64} {r : AddressRange} :
    of? min max = some r ↔ r.min = min ∧ r.max = max := by
  constructor
  · intro h
    rw [of?] at h
    split at h
    · cases h
      exact ⟨rfl, rfl⟩
    · cases h
  · rintro ⟨rfl, rfl⟩
    exact dif_pos r.min_le_max

/-- **The range that reaches a distance from its start** is refused where it would run past the last
address: there its end, reduced, lies below its start. -/
theorem of?_add_eq_some {start distance : UInt64} {r : AddressRange} :
    of? start (start + distance) = some r ↔
      r.min = start ∧ r.max.toNat = start.toNat + distance.toNat := by
  have hsum : (start + distance).toNat = (start.toNat + distance.toNat) % 2 ^ 64 :=
    UInt64.toNat_add _ _
  have hstart : start.toNat < 2 ^ 64 := start.toNat_lt
  have hdistance : distance.toNat < 2 ^ 64 := distance.toNat_lt
  rw [of?_eq_some]
  constructor
  · rintro ⟨hmin, hmax⟩
    have hle : r.min.toNat ≤ r.max.toNat := r.toNat_min_le
    rw [hmin, hmax, hsum] at hle
    refine ⟨hmin, ?_⟩
    rw [hmax, hsum]
    omega
  · rintro ⟨hmin, hmax⟩
    have hlt : r.max.toNat < 2 ^ 64 := r.max.toNat_lt
    refine ⟨hmin, UInt64.toNat_inj.mp ?_⟩
    rw [hsum, hmax]
    omega

/-- **The range of some addresses from a start** is refused where there are none to take, and where
it would run past the last address. -/
theorem ofStartLength?_eq_some {start length : UInt64} {r : AddressRange} :
    ofStartLength? start length = some r ↔ r.min = start ∧ r.size = length.toNat := by
  have hle : r.min.toNat ≤ r.max.toNat := r.toNat_min_le
  have hone : (1 : UInt64).toNat = 1 := rfl
  rw [ofStartLength?, size]
  split
  · next hzero =>
    have hnat : length.toNat = 0 := by rw [hzero]; rfl
    constructor
    · intro h
      cases h
    · rintro ⟨-, hsize⟩
      omega
  · next hsome =>
    have hpos : length.toNat ≠ 0 := fun h => hsome (UInt64.toNat_inj.mp h)
    have hone_le : (1 : UInt64) ≤ length := UInt64.le_iff_toNat_le.mpr (by omega)
    have hless : (length - 1).toNat = length.toNat - 1 := by
      rw [UInt64.toNat_sub_of_le _ _ hone_le, hone]
    rw [of?_add_eq_some, hless]
    constructor
    · rintro ⟨rfl, hmax⟩
      exact ⟨rfl, by omega⟩
    · rintro ⟨rfl, hsize⟩
      exact ⟨rfl, by omega⟩

end AddressRange

/-! ## Mappings -/

namespace Mapping

/-- **A mapping is consistent exactly if its sides have as many addresses.** -/
theorem isConsistent_iff {m : Mapping} :
    m.isConsistent = true ↔ m.traceRange.size = m.staticRange.size := by
  rw [isConsistent, beq_iff_eq, AddressRange.extent_eq_iff]

theorem sharesSpace_iff {m n : Mapping} :
    m.sharesSpace n = true ↔ m.program = n.program ∧ m.space = n.space := by
  rw [sharesSpace, Bool.and_eq_true, beq_iff_eq, beq_iff_eq]

/-- **Two mappings conflict exactly if they meet**: at some snap, in a trace address or in a static
address of one space of one program. -/
theorem conflictsWith_iff {m n : Mapping} :
    m.conflictsWith n = true ↔
      (∃ s, m.lifespan.contains s = true ∧ n.lifespan.contains s = true) ∧
      ((∃ a, m.traceRange.contains a = true ∧ n.traceRange.contains a = true) ∨
        (m.program = n.program ∧ m.space = n.space ∧
          ∃ a, m.staticRange.contains a = true ∧ n.staticRange.contains a = true)) := by
  rw [conflictsWith, Bool.and_eq_true, Bool.or_eq_true, Bool.and_eq_true,
    Lifespan.intersects_iff_meet, AddressRange.intersects_iff_meet,
    AddressRange.intersects_iff_meet, sharesSpace_iff, and_assoc]

theorem conflictsWith_comm (m n : Mapping) : m.conflictsWith n = n.conflictsWith m := by
  have hswap : ∀ m n : Mapping, m.conflictsWith n = true → n.conflictsWith m = true := by
    intro m n h
    obtain ⟨⟨s, hm, hn⟩, hmeet⟩ := conflictsWith_iff.mp h
    refine conflictsWith_iff.mpr ⟨⟨s, hn, hm⟩, ?_⟩
    rcases hmeet with ⟨a, hma, hna⟩ | ⟨hprogram, hspace, a, hma, hna⟩
    · exact .inl ⟨a, hna, hma⟩
    · exact .inr ⟨hprogram.symm, hspace.symm, a, hna, hma⟩
  exact Bool.eq_iff_iff.mpr ⟨hswap m n, hswap n m⟩

/-- The static side starts where it is asked to and has as many addresses as the trace side. -/
theorem staticSide?_eq_some {range side : AddressRange} {start : UInt64} :
    staticSide? range start = some side ↔ side.min = start ∧ side.size = range.size := by
  have hrange : range.min.toNat ≤ range.max.toNat := range.toNat_min_le
  have hside : side.min.toNat ≤ side.max.toNat := side.toNat_min_le
  rw [staticSide?, AddressRange.of?_add_eq_some, AddressRange.toNat_extent, AddressRange.size,
    AddressRange.size]
  constructor
  · rintro ⟨rfl, hmax⟩
    exact ⟨rfl, by omega⟩
  · rintro ⟨rfl, hsize⟩
    exact ⟨rfl, by omega⟩

/-- **A mapping that is made** has the range, lifespan, program and place that are given, and as
many static addresses as trace addresses. -/
theorem fit_eq_ok {id : MappingId} {range : AddressRange} {lifespan : Lifespan} {program : String}
    {place : StaticAddress} {m : Mapping} :
    fit id range lifespan program place = .ok m ↔
      ∃ side, side.min = place.offset ∧ side.size = range.size ∧
        m = ⟨id, range, lifespan, program, place.space, side⟩ := by
  rw [fit, make?]
  cases hside : staticSide? range place.offset with
  | none =>
    constructor
    · intro h
      cases h
    · rintro ⟨side, hmin, hsize, -⟩
      rw [staticSide?_eq_some.mpr ⟨hmin, hsize⟩] at hside
      cases hside
  | some side =>
    obtain ⟨hmin, hsize⟩ := staticSide?_eq_some.mp hside
    constructor
    · intro h
      cases h
      exact ⟨side, hmin, hsize, rfl⟩
    · rintro ⟨side', hmin', hsize', rfl⟩
      have hsame : side' = side :=
        AddressRange.eq_of_size (hmin'.trans hmin.symm) (hsize'.trans hsize.symm)
      rw [hsame]
      rfl

/-- It has as many addresses on either side. -/
theorem isConsistent_of_fit {id : MappingId} {range : AddressRange} {lifespan : Lifespan}
    {program : String} {place : StaticAddress} {m : Mapping}
    (h : fit id range lifespan program place = .ok m) : m.isConsistent = true := by
  obtain ⟨side, -, hsize, rfl⟩ := fit_eq_ok.mp h
  exact isConsistent_iff.mpr hsize.symm

end Mapping

end RegionAtlas
