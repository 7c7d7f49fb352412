/-
  Conflicts — what it takes to be in one another's way, whichever of the two is asked.

  There are four tests: of two lifespans, of two ranges, of a region and what is to be beside it,
  and of two mappings.  Each of them holds exactly if some point lies in both, where a point is a
  snap, an address, or an address at a snap (`RegionAtlas.Proofs.Extent`,
  `RegionAtlas.Proofs.Sides`).  The rest needs no bounds any more:

    * points that lie in both lie in both, so every test is symmetric (`intersects_comm`,
      `conflictsWith_comm`);
    * what has no point that another does not have meets nothing that the other does not meet
      (`intersects_mono`, `conflictsWith_mono`), on either side or on both;
    * and closing an open lifespan leaves it the snaps before the stop (`exists_closedAt?`).
-/
import RegionAtlas.Proofs.Sides

namespace RegionAtlas

/-! ## Lifespans -/

namespace Lifespan

/-- **Part of another lifespan**: no snap but those of the other. -/
def PartOf (l' l : Lifespan) : Prop := ∀ s, l'.contains s = true → l.contains s = true

theorem PartOf.refl (l : Lifespan) : l.PartOf l := fun _ hs => hs

/-- **Meeting is mutual**: a snap of both is a snap of both. -/
theorem intersects_comm (l m : Lifespan) : l.intersects m = m.intersects l := by
  have hswap : ∀ l m : Lifespan, l.intersects m = true → m.intersects l = true := by
    intro l m h
    obtain ⟨s, hl, hm⟩ := intersects_iff_meet.mp h
    exact intersects_iff_meet.mpr ⟨s, hm, hl⟩
  exact Bool.eq_iff_iff.mpr ⟨hswap l m, hswap m l⟩

/-- **What meets still meets when either is longer.** -/
theorem intersects_mono {l l' m m' : Lifespan} (hl : l'.PartOf l) (hm : m'.PartOf m)
    (h : l'.intersects m' = true) : l.intersects m = true := by
  obtain ⟨s, hl', hm'⟩ := intersects_iff_meet.mp h
  exact intersects_iff_meet.mpr ⟨s, hl s hl', hm s hm'⟩

/-- **An open lifespan can be closed at every snap from its start on**, and keeps the snaps before
that one. -/
theorem exists_closedAt? {l : Lifespan} {stop : Snap} (hopen : l.isOpen = true)
    (hlegal : l.start ≤ stop) :
    ∃ closed, l.closedAt? stop = some closed ∧
      ∀ s, closed.contains s = true ↔ l.contains s = true ∧ s < stop := by
  have hclosed : l.closedAt? stop = some ⟨l.start, some stop, fun _ he =>
      Option.some.inj he ▸ hlegal⟩ := dif_pos hlegal
  refine ⟨_, hclosed, fun s => ?_⟩
  rw [contains_iff, contains_iff, isOpen_iff.mp hopen]
  constructor
  · rintro ⟨hstart, hstop⟩
    refine ⟨⟨hstart, ?_⟩, hstop stop rfl⟩
    intro e he
    cases he
  · rintro ⟨⟨hstart, -⟩, hstop⟩
    exact ⟨hstart, fun e he => Option.some.inj he ▸ hstop⟩

end Lifespan

/-! ## Ranges -/

namespace AddressRange

/-- **Part of another range**: no address but those of the other. -/
def PartOf (r' r : AddressRange) : Prop := ∀ a, r'.contains a = true → r.contains a = true

theorem PartOf.refl (r : AddressRange) : r.PartOf r := fun _ ha => ha

/-- Of ranges the test itself shows it: its two halves change places. -/
theorem intersects_comm (r q : AddressRange) : r.intersects q = q.intersects r := by
  rw [intersects, intersects, Bool.and_comm]

/-- As with lifespans, by an address instead of a snap. -/
theorem intersects_mono {r r' q q' : AddressRange} (hr : r'.PartOf r) (hq : q'.PartOf q)
    (h : r'.intersects q' = true) : r.intersects q = true := by
  obtain ⟨a, hr', hq'⟩ := intersects_iff_meet.mp h
  exact intersects_iff_meet.mpr ⟨a, hr a hr', hq a hq'⟩

end AddressRange

/-! ## Regions -/

namespace Region

/-- **Conflicts of regions are mutual**, since both of their tests are. -/
theorem conflictsWith_comm (r q : Region) :
    r.conflictsWith q.range q.lifespan = q.conflictsWith r.range r.lifespan := by
  rw [conflictsWith, conflictsWith, AddressRange.intersects_comm, Lifespan.intersects_comm]

/-- And they stay when ranges and lifespans grow. -/
theorem conflictsWith_mono {r r' : Region} {range range' : AddressRange} {l l' : Lifespan}
    (hr : r'.range.PartOf r.range) (halive : r'.lifespan.PartOf r.lifespan)
    (hrange : range'.PartOf range) (hl : l'.PartOf l) (h : r'.conflictsWith range' l' = true) :
    r.conflictsWith range l = true := by
  rw [conflictsWith, Bool.and_eq_true] at h ⊢
  exact ⟨AddressRange.intersects_mono hr hrange h.1, Lifespan.intersects_mono halive hl h.2⟩

end Region

/-! ## Mappings -/

namespace Mapping

/-- **Part of another mapping**: into the same space of the same program, with no snap and no
address on either side but those of the other. -/
structure PartOf (m' m : Mapping) : Prop where
  lifespan : m'.lifespan.PartOf m.lifespan
  traceRange : m'.traceRange.PartOf m.traceRange
  program : m'.program = m.program
  space : m'.space = m.space
  staticRange : m'.staticRange.PartOf m.staticRange

variable {m m' n n' : Mapping}

theorem PartOf.refl (m : Mapping) : m.PartOf m where
  lifespan := .refl m.lifespan
  traceRange := .refl m.traceRange
  program := rfl
  space := rfl
  staticRange := .refl m.staticRange

/-- With a shorter lifespan a mapping is part of what it was. -/
theorem partOf_of_lifespan {l : Lifespan} (h : l.PartOf m.lifespan) :
    { m with lifespan := l }.PartOf m :=
  { PartOf.refl m with lifespan := h }

/-- Conflicts of mappings stay when sides and lifespans grow within one space. -/
theorem conflictsWith_mono (hm : m'.PartOf m) (hn : n'.PartOf n)
    (h : m'.conflictsWith n' = true) : m.conflictsWith n = true := by
  obtain ⟨⟨s, hs, hs'⟩, hmeet⟩ := conflictsWith_iff.mp h
  refine conflictsWith_iff.mpr ⟨⟨s, hm.lifespan s hs, hn.lifespan s hs'⟩, ?_⟩
  rcases hmeet with ⟨a, ha, ha'⟩ | ⟨hprogram, hspace, a, ha, ha'⟩
  · exact .inl ⟨a, hm.traceRange a ha, hn.traceRange a ha'⟩
  · rw [hm.program, hn.program] at hprogram
    rw [hm.space, hn.space] at hspace
    exact .inr ⟨hprogram, hspace, a, hm.staticRange a ha, hn.staticRange a ha'⟩

end Mapping

/-! ## The four tests -/

/-- **Conflicts are shared points.**  Two lifespans intersect exactly if some snap lies in both, two
ranges if some address does; a region and what is to be beside it conflict exactly if some address
at some snap lies in both, and two mappings if at some snap they share a trace address, or a static
address of one space of one program.  All four tests are symmetric, and none finds in parts what it
does not find in the whole.  What is left of an open lifespan that is closed, at any snap from its
start on, is part of it; so closing creates no conflict, on whichever side and of whatever. -/
theorem conflicts_are_shared_points :
    (∀ l m : Lifespan,
      (l.intersects m = true ↔ ∃ s, l.contains s = true ∧ m.contains s = true) ∧
      l.intersects m = m.intersects l ∧
      ∀ l' m' : Lifespan, l'.PartOf l → m'.PartOf m →
        l'.intersects m' = true → l.intersects m = true) ∧
    (∀ r q : AddressRange,
      (r.intersects q = true ↔ ∃ a, r.contains a = true ∧ q.contains a = true) ∧
      r.intersects q = q.intersects r ∧
      ∀ r' q' : AddressRange, r'.PartOf r → q'.PartOf q →
        r'.intersects q' = true → r.intersects q = true) ∧
    (∀ (r : Region) (range : AddressRange) (l : Lifespan),
      (r.conflictsWith range l = true ↔
        ∃ s a, (r.lifespan.contains s = true ∧ r.range.contains a = true) ∧
          l.contains s = true ∧ range.contains a = true) ∧
      (∀ q : Region, q.range = range → q.lifespan = l →
        r.conflictsWith range l = q.conflictsWith r.range r.lifespan) ∧
      ∀ (r' : Region) (range' : AddressRange) (l' : Lifespan), r'.range.PartOf r.range →
        r'.lifespan.PartOf r.lifespan → range'.PartOf range → l'.PartOf l →
          r'.conflictsWith range' l' = true → r.conflictsWith range l = true) ∧
    (∀ m n : Mapping,
      (m.conflictsWith n = true ↔
        (∃ s, m.lifespan.contains s = true ∧ n.lifespan.contains s = true) ∧
        ((∃ a, m.traceRange.contains a = true ∧ n.traceRange.contains a = true) ∨
          (m.program = n.program ∧ m.space = n.space ∧
            ∃ a, m.staticRange.contains a = true ∧ n.staticRange.contains a = true))) ∧
      m.conflictsWith n = n.conflictsWith m ∧
      ∀ m' n' : Mapping, m'.PartOf m → n'.PartOf n →
        m'.conflictsWith n' = true → m.conflictsWith n = true) ∧
    (∀ (l : Lifespan) (stop : Snap), l.isOpen = true → l.start ≤ stop →
      ∃ closed, l.closedAt? stop = some closed ∧
        (∀ m : Lifespan, closed.intersects m = true → l.intersects m = true) ∧
        (∀ (r : Region) (range : AddressRange),
          r.conflictsWith range closed = true → r.conflictsWith range l = true) ∧
        (∀ (r : Region) (range : AddressRange) (m : Lifespan), r.lifespan = l →
          (r.withLifespan closed).conflictsWith range m = true → r.conflictsWith range m = true) ∧
        ∀ m n : Mapping, m.lifespan = l →
          { m with lifespan := closed }.conflictsWith n = true → m.conflictsWith n = true) := by
  refine ⟨fun l m => ⟨Lifespan.intersects_iff_meet, l.intersects_comm m, ?_⟩,
    fun r q => ⟨AddressRange.intersects_iff_meet, r.intersects_comm q, ?_⟩,
    fun r range l => ⟨?_, ?_, ?_⟩,
    fun m n => ⟨Mapping.conflictsWith_iff, m.conflictsWith_comm n, ?_⟩, ?_⟩
  · intro l' m' hl hm
    exact Lifespan.intersects_mono hl hm
  · intro r' q' hr hq
    exact AddressRange.intersects_mono hr hq
  · rw [Region.conflictsWith_iff]
    constructor
    · rintro ⟨s, a, hs, hl, hr, ha⟩
      exact ⟨s, a, ⟨hs, hr⟩, hl, ha⟩
    · rintro ⟨s, a, ⟨hs, hr⟩, hl, ha⟩
      exact ⟨s, a, hs, hl, hr, ha⟩
  · rintro q rfl rfl
    exact r.conflictsWith_comm q
  · intro r' range' l' hr halive hrange hl
    exact Region.conflictsWith_mono hr halive hrange hl
  · intro m' n' hm hn
    exact Mapping.conflictsWith_mono hm hn
  · intro l stop hopen hlegal
    obtain ⟨closed, hclosed, hsnaps⟩ := Lifespan.exists_closedAt? hopen hlegal
    have hpart : closed.PartOf l := fun s hs => ((hsnaps s).mp hs).1
    refine ⟨closed, hclosed, ?_, ?_, ?_, ?_⟩
    · intro m
      exact Lifespan.intersects_mono hpart (.refl m)
    · intro r range
      exact Region.conflictsWith_mono (.refl r.range) (.refl r.lifespan) (.refl range) hpart
    · rintro r range m rfl
      exact Region.conflictsWith_mono (.refl r.range) hpart (.refl range) (.refl m)
    · rintro m n rfl
      exact Mapping.conflictsWith_mono (Mapping.partOf_of_lifespan hpart) (.refl n)

/-- A lifespan that stops where it starts passes both comparisons with one around it, and meets
nothing all the same. -/
example : (Lifespan.between? 5 5).map (·.intersects (.since 0)) = some false := by decide

end RegionAtlas
