/-
  Extents as sets of points — ranges and lifespans, known by the addresses and snaps in them.

  The tests that the ledger runs compare bounds.  What they are for is said here in points:

    * two ranges intersect exactly if some address lies in both
      (`AddressRange.intersects_iff_meet`);
    * two lifespans intersect exactly if some snap lies in both (`Lifespan.intersects_iff_meet`);
      the test of emptiness is what makes this hold, since a lifespan that stops where it starts
      passes both comparisons and holds nothing;
    * hence a region conflicts with a range and lifespan exactly if they share an address at a
      snap (`Region.conflictsWith_iff`).

  Closing an open lifespan keeps its start and loses snaps, never gains one (`closedAt?_spec`).
-/
import RegionAtlas.Record.Region

namespace RegionAtlas

/-! ## Ranges -/

namespace AddressRange

theorem contains_min (r : AddressRange) : r.contains r.min = true :=
  contains_iff.mpr ⟨UInt64.le_refl _, r.min_le_max⟩

/-- Two ranges intersect exactly if some address lies in both: the higher of the two minima. -/
theorem intersects_iff_meet {r s : AddressRange} :
    r.intersects s = true ↔ ∃ a, r.contains a = true ∧ s.contains a = true := by
  rw [intersects_iff]
  constructor
  · rintro ⟨hrs, hsr⟩
    rcases UInt64.le_total r.min s.min with hle | hle
    · exact ⟨s.min, contains_iff.mpr ⟨hle, hsr⟩, s.contains_min⟩
    · exact ⟨r.min, r.contains_min, contains_iff.mpr ⟨hle, hrs⟩⟩
  · rintro ⟨a, hr, hs⟩
    obtain ⟨hr₁, hr₂⟩ := contains_iff.mp hr
    obtain ⟨hs₁, hs₂⟩ := contains_iff.mp hs
    exact ⟨UInt64.le_trans hr₁ hs₂, UInt64.le_trans hs₁ hr₂⟩

end AddressRange

/-! ## Lifespans -/

namespace Lifespan

theorem startsBefore_iff {s : Snap} {stop : Option Snap} :
    startsBefore s stop = true ↔ ∀ e, stop = some e → s < e := by
  cases stop <;> simp [startsBefore]

theorem contains_iff {l : Lifespan} {s : Snap} :
    l.contains s = true ↔ l.start ≤ s ∧ ∀ e, l.stop = some e → s < e := by
  rw [contains, Bool.and_eq_true, decide_eq_true_iff, startsBefore_iff]

/-- A lifespan holds a snap exactly if it holds its own start. -/
theorem isEmpty_eq_false_iff {l : Lifespan} : l.isEmpty = false ↔ l.contains l.start = true := by
  rw [contains_iff, isEmpty, beq_eq_false_iff_ne]
  constructor
  · intro hne
    refine ⟨Int64.le_refl _, fun e he => Int64.lt_of_le_of_ne (l.start_le_stop e he) ?_⟩
    rintro rfl
    exact hne he
  · rintro ⟨-, hlt⟩ hstop
    exact Int64.lt_irrefl (hlt _ hstop)

/-- Holding any snap at all is holding the start. -/
theorem contains_start_of_contains {l : Lifespan} {s : Snap} (h : l.contains s = true) :
    l.contains l.start = true := by
  obtain ⟨hle, hlt⟩ := contains_iff.mp h
  exact contains_iff.mpr ⟨Int64.le_refl _, fun e he => Int64.lt_of_le_of_lt hle (hlt e he)⟩

/-- Two lifespans intersect exactly if some snap lies in both: the later of the two starts. -/
theorem intersects_iff_meet {l m : Lifespan} :
    l.intersects m = true ↔ ∃ s, l.contains s = true ∧ m.contains s = true := by
  rw [intersects, Bool.and_eq_true, Bool.and_eq_true, Bool.and_eq_true, Bool.not_eq_true',
    Bool.not_eq_true', isEmpty_eq_false_iff, isEmpty_eq_false_iff, startsBefore_iff,
    startsBefore_iff]
  constructor
  · rintro ⟨⟨⟨hl, hm⟩, hlm⟩, hml⟩
    -- neither is empty, so each holds its own start, and the later start is before both stops
    rcases Int64.le_total l.start m.start with hle | hle
    · exact ⟨m.start, contains_iff.mpr ⟨hle, hml⟩, hm⟩
    · exact ⟨l.start, hl, contains_iff.mpr ⟨hle, hlm⟩⟩
  · rintro ⟨s, hl, hm⟩
    obtain ⟨hls, hlt⟩ := contains_iff.mp hl
    obtain ⟨hms, hmt⟩ := contains_iff.mp hm
    refine ⟨⟨⟨contains_start_of_contains hl, contains_start_of_contains hm⟩, ?_⟩, ?_⟩
    · exact fun e he => Int64.lt_of_le_of_lt hls (hmt e he)
    · exact fun e he => Int64.lt_of_le_of_lt hms (hlt e he)

theorem isOpen_iff {l : Lifespan} : l.isOpen = true ↔ l.stop = none := by
  rw [isOpen, Option.isNone_iff_eq_none]

/-- Two open lifespans with one start are the same lifespan. -/
theorem eq_of_isOpen {l m : Lifespan} (hl : l.isOpen = true) (hm : m.isOpen = true)
    (hstart : l.start = m.start) : l = m :=
  Lifespan.ext hstart ((isOpen_iff.mp hl).trans (isOpen_iff.mp hm).symm)

/-- A lifespan can be closed at every snap that does not precede its start; the closed one starts
where the open one did and stops there. -/
theorem closedAt?_spec {l m : Lifespan} {stop : Snap} (h : l.closedAt? stop = some m) :
    m.start = l.start ∧ m.stop = some stop ∧ l.start ≤ stop := by
  unfold closedAt? between? at h
  split at h
  · next hle =>
    obtain rfl := Option.some.inj h
    exact ⟨rfl, rfl, hle⟩
  · cases h

/-- Closing a lifespan only loses snaps. -/
theorem contains_of_closedAt? {l m : Lifespan} {stop : Snap} (hopen : l.isOpen = true)
    (h : l.closedAt? stop = some m) {s : Snap} (hs : m.contains s = true) :
    l.contains s = true := by
  obtain ⟨hstart, -, -⟩ := closedAt?_spec h
  obtain ⟨hle, -⟩ := contains_iff.mp hs
  refine contains_iff.mpr ⟨hstart ▸ hle, fun e he => ?_⟩
  rw [isOpen_iff.mp hopen] at he
  cases he

end Lifespan

/-! ## Regions -/

/-- A region conflicts with a range and lifespan exactly if they share an address at a snap. -/
theorem Region.conflictsWith_iff {r : Region} {range : AddressRange} {l : Lifespan} :
    r.conflictsWith range l = true ↔
      ∃ s a, r.isAliveAt s = true ∧ l.contains s = true ∧
        r.range.contains a = true ∧ range.contains a = true := by
  rw [conflictsWith, Bool.and_eq_true, AddressRange.intersects_iff_meet,
    Lifespan.intersects_iff_meet]
  constructor
  · rintro ⟨⟨a, hr, ha⟩, s, hs, hl⟩
    exact ⟨s, a, hs, hl, hr, ha⟩
  · rintro ⟨s, a, hs, hl, hr, ha⟩
    exact ⟨⟨a, hr, ha⟩, s, hs, hl⟩

end RegionAtlas
