/-
  Exclusivity — at every snap, every address belongs to at most one region.

  Only adding a region is checked for overlap.  Lifespans are set and set back without any check,
  so exclusivity holds along a run for two reasons that have nothing to do with each other:

    * every lifespan that a transaction can stage closes an open one, and closing only loses snaps
      (`exclusive_setLifespan`);
    * undo and redo, which reopen lifespans and put regions back, return to contents that were in
      force before — the business of `RegionAtlas.Proofs.Timeline`.

  What is left is that exclusivity is `Lasting`: kept by the records of a database and by single
  operations (`exclusive_lasting`).
-/
import RegionAtlas.Proofs.Origin

namespace RegionAtlas

/-- **At most one region is alive at an address at a snap.** -/
def Contents.Exclusive (c : Contents) : Prop :=
  ∀ (s : Snap) (a : UInt64) (id₁ id₂ : RegionId) (r₁ r₂ : Region),
    c.region? id₁ = some r₁ → c.region? id₂ = some r₂ →
    r₁.isAliveAt s = true → r₂.isAliveAt s = true →
    r₁.range.contains a = true → r₂.range.contains a = true → id₁ = id₂

section Kept

variable {c : Contents}

/-- What conflicts with nothing shares no address at a snap with any region. -/
theorem not_shared_of_regionConflict? {r : Region}
    (hfree : c.regionConflict? r.range r.lifespan = none) {id : RegionId} {r' : Region}
    (hr' : c.region? id = some r') {s : Snap} {a : UInt64} (halive' : r'.isAliveAt s = true)
    (halive : r.isAliveAt s = true) (ha' : r'.range.contains a = true)
    (ha : r.range.contains a = true) : False := by
  have hnone := firstRegionConflict?_eq_none.mp hfree r' (Contents.mem_regions.mpr ⟨id, hr'⟩)
  have hsome : r'.conflictsWith r.range r.lifespan = true :=
    Region.conflictsWith_iff.mpr ⟨s, a, halive', halive, ha', ha⟩
  rw [hnone] at hsome
  cases hsome

/-- Adding a region that conflicts with nothing. -/
theorem exclusive_insertRegion {r : Region} (h : c.Exclusive)
    (hfree : c.regionConflict? r.range r.lifespan = none) : (c.insertRegion r).Exclusive := by
  intro s a id₁ id₂ r₁ r₂ hr₁ hr₂ halive₁ halive₂ ha₁ ha₂
  rw [Contents.region?_insertRegion] at hr₁ hr₂
  split at hr₁
  · next hid₁ =>
    cases hr₁
    split at hr₂
    · next hid₂ => exact hid₁.symm.trans hid₂
    · exact (not_shared_of_regionConflict? hfree hr₂ halive₂ halive₁ ha₂ ha₁).elim
  · split at hr₂
    · cases hr₂
      exact (not_shared_of_regionConflict? hfree hr₁ halive₁ halive₂ ha₁ ha₂).elim
    · exact h s a id₁ id₂ r₁ r₂ hr₁ hr₂ halive₁ halive₂ ha₁ ha₂

/-- Giving a region a lifespan with no snap that it did not have. -/
theorem exclusive_setLifespan {id : RegionId} {r : Region} {new : Lifespan} (h : c.Exclusive)
    (hr : c.region? id = some r)
    (hless : ∀ s, new.contains s = true → r.lifespan.contains s = true) :
    (c.setLifespan id new).Exclusive := by
  -- what is alive after the change was alive before it, at the same addresses
  have hbefore : ∀ j r', (c.setLifespan id new).region? j = some r' →
      ∃ r₀, c.region? j = some r₀ ∧ r₀.range = r'.range ∧
        ∀ s, r'.isAliveAt s = true → r₀.isAliveAt s = true := by
    intro j r' hr'
    rw [Contents.region?_setLifespan] at hr'
    split at hr'
    · next hid =>
      subst hid
      rw [hr] at hr'
      cases hr'
      exact ⟨r, hr, rfl, hless⟩
    · exact ⟨r', hr', rfl, fun _ hs => hs⟩
  intro s a id₁ id₂ r₁ r₂ hr₁ hr₂ halive₁ halive₂ ha₁ ha₂
  obtain ⟨q₁, hq₁, hrange₁, hsnaps₁⟩ := hbefore id₁ r₁ hr₁
  obtain ⟨q₂, hq₂, hrange₂, hsnaps₂⟩ := hbefore id₂ r₂ hr₂
  exact h s a id₁ id₂ q₁ q₂ hq₁ hq₂ (hsnaps₁ s halive₁) (hsnaps₂ s halive₂) (hrange₁ ▸ ha₁)
    (hrange₂ ▸ ha₂)

end Kept

/-- **Exclusivity is lasting.** -/
theorem exclusive_lasting : Lasting Contents.Exclusive where
  empty := by
    intro s a id₁ id₂ r₁ r₂ hr₁
    cases hr₁
  ownedBy c id h := by
    intro s a id₁ id₂ r₁ r₂ hr₁ hr₂
    rw [Contents.region?_ownedBy] at hr₁ hr₂
    obtain ⟨q₁, hq₁, rfl⟩ := Option.map_eq_some_iff.mp hr₁
    obtain ⟨q₂, hq₂, rfl⟩ := Option.map_eq_some_iff.mp hr₂
    exact h s a id₁ id₂ q₁ q₂ hq₁ hq₂
  region c r c' h hadd := by
    obtain ⟨-, -, hfree, rfl⟩ := Database.addRegion_spec hadd
    exact exclusive_insertRegion h hfree
  mapping c m c' h hadd := by
    obtain ⟨-, -, -, -, rfl⟩ := Database.addMapping_spec hadd
    exact h
  operation R p op c c' change hrecords _ h hfits := by
    cases hfits with
    | createRegion hfree => exact exclusive_insertRegion h hfree
    | setLifespan new hfound =>
      cases hrecords with
      | lifespan hlive _ hclosed =>
        exact exclusive_setLifespan h hfound fun s hs =>
          Lifespan.contains_of_closedAt? hlive hclosed hs
    | createMapping _ => exact h

/-- **Regions are exclusive along every run** of a trace that starts from contents there can be:
no address has two regions at a snap, every region is stored under its own number, no lifespan
stops before it starts, and every region refers back to the trace. -/
theorem regions_exclusive {c : Contents} (hc : c.Attained) (id : TraceId) (name : String)
    (limit : Nat) (steps : List Trace.Step) :
    let t := (Trace.ofContents id name c limit).run steps
    t.contents.Exclusive ∧
      (∀ rid r, t.contents.region? rid = some r → r.id = rid) ∧
      (∀ rid r e, t.contents.region? rid = some r → r.lifespan.stop = some e →
        r.lifespan.start ≤ e) ∧
      (∀ mid m e, t.contents.mapping? mid = some m → m.lifespan.stop = some e →
        m.lifespan.start ≤ e) ∧
      (∀ rid r, t.contents.region? rid = some r → r.owner = t.id) ∧
      t.ownsRegions = true := by
  intro t
  have hkeyed : c.Keyed := keyed_of_attained hc
  obtain ⟨ht, -⟩ := course_ofContents id name c limit steps
  obtain ⟨R, hj⟩ := journaled_ofContents id name c limit hkeyed steps
  have hstems : t.contents.StemsFrom R := hj.regions _ ht.visits
  have howner : ∀ rid r, t.contents.region? rid = some r → r.owner = t.id :=
    fun rid r hr => (hstems.id_owner hr).2.trans hj.owned.symm
  refine ⟨exclusive_lasting.run hkeyed (exclusive_lasting.attained hc) id name limit steps,
    fun rid r hr => (hstems.id_owner hr).1, fun rid r e _ he => r.lifespan.start_le_stop e he,
    fun mid m e _ he => m.lifespan.start_le_stop e he, howner, ?_⟩
  rw [Trace.ownsRegions, List.all_eq_true]
  intro r hr
  obtain ⟨rid, hfound⟩ := Contents.mem_regions.mp hr
  exact beq_iff_eq.mpr (howner rid r hfound)

/-- A region makes room for another, while a third party that still sees the first has staged a
bid for the same addresses. -/
def successionSteps : List Trace.Step :=
  [.begin "map", .edit ⟨0⟩ (.createRegion "text" ⟨0x1000, 0x1fff, by decide⟩ 0 ⟨true, false, true⟩),
   .commit ⟨0⟩, .begin "replace", .begin "bid",
   .edit ⟨1⟩ (.destroyRegion ⟨0⟩ 10), .edit ⟨2⟩ (.destroyRegion ⟨0⟩ 20),
   .edit ⟨1⟩ (.createRegion "data" ⟨0x1800, 0x27ff, by decide⟩ 10 ⟨true, true, false⟩),
   .edit ⟨2⟩ (.createRegion "heap" ⟨0x1000, 0x2fff, by decide⟩ 20 ⟨true, true, false⟩),
   .commit ⟨1⟩, .undo, .redo, .commit ⟨2⟩]

/-- The bid again, where the predecessor is gone. -/
def bidSteps : List Trace.Step :=
  [.begin "bid", .edit ⟨0⟩ (.destroyRegion ⟨1⟩ 20),
   .edit ⟨0⟩ (.createRegion "heap" ⟨0x1000, 0x2fff, by decide⟩ 20 ⟨true, true, false⟩),
   .commit ⟨0⟩]

/-- Three regions on the same addresses, one after the other, in a trace and in one that goes on
from a copy of it. -/
theorem succession_exclusive :
    let c := ((Trace.ofContents ⟨1⟩ "echo" .empty 50).run successionSteps).contents
    let t := (Trace.ofContents ⟨2⟩ "copy" c 1).run bidSteps
    c.Attained ∧ c.regions.values.map (fun r => (r.lifespan.start, r.lifespan.stop)) =
        [(0, some 10), (10, none)] ∧
      t.contents.regions.values.map (fun r => (r.lifespan.start, r.lifespan.stop)) =
        [(0, some 10), (10, some 20), (20, none)] ∧
      t.contents.Exclusive ∧ t.ownsRegions = true := by
  intro c t
  have hc : c.Attained := .copied ⟨1⟩ "echo" 50 successionSteps .empty
  obtain ⟨hexclusive, -, -, -, -, howns⟩ := regions_exclusive hc ⟨2⟩ "copy" 1 bidSteps
  exact ⟨hc, by decide, by decide, hexclusive, howns⟩

end RegionAtlas
