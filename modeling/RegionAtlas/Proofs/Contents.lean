/-
  Contents by number — what is found in contents after each thing that can be done to them.

  Contents are two tables.  Everything proved about them goes through what is found under a number:

    * each operation has one lemma a table that says what is found after it (`region?_…`,
      `mapping?_…`);
    * contents in which the same is found are the same (`Contents.ext_find`);
    * what contents *hold* is a set of subjects, region and mapping numbers alike, so that one
      statement covers both tables (`Contents.Holds`).

  Conflicts are known by what they are with: none is found exactly if no record that is listed
  conflicts.
-/
import RegionAtlas.Ledger.Change
import RegionAtlas.Ledger.Contents
import RegionAtlas.Ledger.Lookup

namespace RegionAtlas

open Change (Subject)

/-! ## Tables -/

namespace Table

variable {κ α : Type} [Ord κ] [Std.LawfulEqOrd κ]

/-- Every key of a table is at most its last key. -/
theorem exists_lastKey?_of_find? {t : Table κ α} {k : κ} {a : α} (h : t.find? k = some a) :
    ∃ last, t.lastKey? = some last ∧ (k = last ∨ compare k last = .lt) := by
  have hmem : (k, a) ∈ t.rows := find?_eq_some.mp h
  obtain ⟨init, row, hrows⟩ : ∃ init row, t.rows = init ++ [row] := by
    rcases List.eq_nil_or_concat t.rows with hnil | ⟨init, row, hrows⟩
    · rw [hnil] at hmem
      cases hmem
    · exact ⟨init, row, by rw [hrows, List.concat_eq_append]⟩
  refine ⟨row.1, by rw [lastKey?, hrows, List.getLast?_concat]; rfl, ?_⟩
  rw [hrows] at hmem
  rcases List.mem_append.mp hmem with hinit | hlast
  · -- rows ascend, so the last one is above every other
    have hpair := t.ascending
    rw [hrows, List.pairwise_append] at hpair
    exact .inr (hpair.2.2 _ hinit _ List.mem_cons_self)
  · obtain rfl := List.mem_singleton.mp hlast
    exact .inl rfl

end Table

namespace Contents

/-! ## Regions -/

/-- A region that is inserted takes the place of one with its number. -/
theorem region?_insertRegion (c : Contents) (r : Region) (id : RegionId) :
    (c.insertRegion r).region? id = if r.id = id then some r else c.region? id := by
  rw [region?, insertRegion, Table.find?_insert]
  simp only [Std.LawfulEqCmp.compare_eq_iff_eq]
  rfl

/-- One region goes, and the others stay. -/
theorem region?_eraseRegion (c : Contents) (id j : RegionId) :
    (c.eraseRegion id).region? j = if id = j then none else c.region? j := by
  rw [region?, eraseRegion, Table.find?_erase]
  simp only [Std.LawfulEqCmp.compare_eq_iff_eq]
  rfl

/-- Nothing but the lifespan of one region is changed, and nothing at all where there is none. -/
theorem region?_setLifespan (c : Contents) (id : RegionId) (l : Lifespan) (j : RegionId) :
    (c.setLifespan id l).region? j =
      if id = j then (c.region? j).map (·.withLifespan l) else c.region? j := by
  rw [region?, setLifespan, Table.find?_adjust]
  simp only [Std.LawfulEqCmp.compare_eq_iff_eq]
  rfl

/-- Every region changes hands. -/
theorem region?_ownedBy (c : Contents) (t : TraceId) (id : RegionId) :
    (c.ownedBy t).region? id = (c.region? id).map (·.ownedBy t) :=
  Table.find?_map _ _ _

/-- The two tables do not touch each other; these two and the four below say so. -/
@[simp] theorem region?_insertMapping (c : Contents) (m : Mapping) (id : RegionId) :
    (c.insertMapping m).region? id = c.region? id := rfl

@[simp] theorem region?_eraseMapping (c : Contents) (id : MappingId) (j : RegionId) :
    (c.eraseMapping id).region? j = c.region? j := rfl

/-! ## Mappings -/

/-- A mapping that is inserted takes the place of one with its number. -/
theorem mapping?_insertMapping (c : Contents) (m : Mapping) (id : MappingId) :
    (c.insertMapping m).mapping? id = if m.id = id then some m else c.mapping? id := by
  rw [mapping?, insertMapping, Table.find?_insert]
  simp only [Std.LawfulEqCmp.compare_eq_iff_eq]
  rfl

/-- One mapping goes, and the others stay. -/
theorem mapping?_eraseMapping (c : Contents) (id j : MappingId) :
    (c.eraseMapping id).mapping? j = if id = j then none else c.mapping? j := by
  rw [mapping?, eraseMapping, Table.find?_erase]
  simp only [Std.LawfulEqCmp.compare_eq_iff_eq]
  rfl

@[simp] theorem mapping?_insertRegion (c : Contents) (r : Region) (id : MappingId) :
    (c.insertRegion r).mapping? id = c.mapping? id := rfl

@[simp] theorem mapping?_eraseRegion (c : Contents) (id : RegionId) (j : MappingId) :
    (c.eraseRegion id).mapping? j = c.mapping? j := rfl

@[simp] theorem mapping?_setLifespan (c : Contents) (id : RegionId) (l : Lifespan)
    (j : MappingId) : (c.setLifespan id l).mapping? j = c.mapping? j := rfl

@[simp] theorem mapping?_ownedBy (c : Contents) (t : TraceId) (id : MappingId) :
    (c.ownedBy t).mapping? id = c.mapping? id := rfl

/-! ## Equality -/

/-- Contents in which the same is found under every number are the same. -/
theorem ext_find {c c' : Contents} (hregions : ∀ id, c.region? id = c'.region? id)
    (hmappings : ∀ id, c.mapping? id = c'.mapping? id) : c = c' := by
  have hr : c.regions = c'.regions := Table.ext_find? hregions
  have hm : c.mappings = c'.mappings := Table.ext_find? hmappings
  cases c
  cases c'
  cases hr
  cases hm
  rfl

/-! ## What contents hold -/

/-- Contents hold a region or mapping exactly if something is found under its number. -/
def Holds (c : Contents) : Subject → Prop
  | .region id => ∃ r, c.region? id = some r
  | .mapping id => ∃ m, c.mapping? id = some m

/-- To hold no region of a number is to find none under it. -/
theorem not_holds_region {c : Contents} {id : RegionId} :
    ¬ c.Holds (.region id) ↔ c.region? id = none := by
  simp only [Holds, not_exists, ← Option.eq_none_iff_forall_ne_some]

/-- The same of mappings. -/
theorem not_holds_mapping {c : Contents} {id : MappingId} :
    ¬ c.Holds (.mapping id) ↔ c.mapping? id = none := by
  simp only [Holds, not_exists, ← Option.eq_none_iff_forall_ne_some]

/-- One more subject is held, or as many as before where the number was taken. -/
theorem holds_insertRegion {c : Contents} {r : Region} {s : Subject} :
    (c.insertRegion r).Holds s ↔ c.Holds s ∨ s = .region r.id := by
  cases s with
  | mapping id => simp only [Holds, mapping?_insertRegion, reduceCtorEq, or_false]
  | region id =>
    simp only [Holds, region?_insertRegion, Subject.region.injEq]
    by_cases h : r.id = id
    · simp only [h, or_true, iff_true]
      exact ⟨r, rfl⟩
    · simp only [if_neg h, Ne.symm h, or_false]

/-- The same of a mapping. -/
theorem holds_insertMapping {c : Contents} {m : Mapping} {s : Subject} :
    (c.insertMapping m).Holds s ↔ c.Holds s ∨ s = .mapping m.id := by
  cases s with
  | region id => simp only [Holds, region?_insertMapping, reduceCtorEq, or_false]
  | mapping id =>
    simp only [Holds, mapping?_insertMapping, Subject.mapping.injEq]
    by_cases h : m.id = id
    · simp only [h, or_true, iff_true]
      exact ⟨m, rfl⟩
    · simp only [if_neg h, Ne.symm h, or_false]

/-- Another lifespan makes no region come or go. -/
theorem holds_setLifespan {c : Contents} {id : RegionId} {l : Lifespan} {s : Subject} :
    (c.setLifespan id l).Holds s ↔ c.Holds s := by
  cases s with
  | mapping j => simp only [Holds, mapping?_setLifespan]
  | region j =>
    simp only [Holds, region?_setLifespan]
    by_cases h : id = j
    · simp only [if_pos h, Option.map_eq_some_iff]
      exact ⟨fun ⟨_, r, hr, _⟩ => ⟨r, hr⟩, fun ⟨r, hr⟩ => ⟨_, r, hr, rfl⟩⟩
    · simp only [if_neg h]

/-- Nor does another owner. -/
theorem holds_ownedBy {c : Contents} {t : TraceId} {s : Subject} :
    (c.ownedBy t).Holds s ↔ c.Holds s := by
  cases s with
  | mapping j => simp only [Holds, mapping?_ownedBy]
  | region j =>
    simp only [Holds, region?_ownedBy, Option.map_eq_some_iff]
    exact ⟨fun ⟨_, r, hr, _⟩ => ⟨r, hr⟩, fun ⟨r, hr⟩ => ⟨_, r, hr, rfl⟩⟩

/-! ## Conflicts -/

/-- The regions that are listed are those that are found under some number. -/
theorem mem_regions {c : Contents} {r : Region} :
    r ∈ c.regions.values ↔ ∃ id, c.region? id = some r := Table.mem_values

/-- The same of mappings. -/
theorem mem_mappings {c : Contents} {m : Mapping} :
    m ∈ c.mappings.values ↔ ∃ id, c.mapping? id = some m := Table.mem_values

end Contents

/-- **No conflict is found exactly if there is none**: the search passes over nobody. -/
theorem firstRegionConflict?_eq_none {regions : List Region} {range : AddressRange}
    {l : Lifespan} :
    firstRegionConflict? regions range l = none ↔
      ∀ r ∈ regions, r.conflictsWith range l = false := by
  rw [firstRegionConflict?, Option.map_eq_none_iff, List.find?_eq_none]
  simp only [Bool.not_eq_true]

/-- The same of mappings. -/
theorem firstMappingConflict?_eq_none {mappings : List Mapping} {m : Mapping} :
    firstMappingConflict? mappings m = none ↔ ∀ n ∈ mappings, n.conflictsWith m = false := by
  rw [firstMappingConflict?, Option.map_eq_none_iff, List.find?_eq_none]
  simp only [Bool.not_eq_true]

/-- Whether something conflicts depends on which regions are listed and not on their order. -/
theorem firstRegionConflict?_congr {xs ys : List Region} (h : ∀ r, r ∈ xs ↔ r ∈ ys)
    {range : AddressRange} {l : Lifespan} :
    firstRegionConflict? xs range l = none ↔ firstRegionConflict? ys range l = none := by
  simp only [firstRegionConflict?_eq_none, h]

/-- Whether something conflicts depends on which mappings are listed and not on their order. -/
theorem firstMappingConflict?_congr {xs ys : List Mapping} (h : ∀ m, m ∈ xs ↔ m ∈ ys)
    {m : Mapping} : firstMappingConflict? xs m = none ↔ firstMappingConflict? ys m = none := by
  simp only [firstMappingConflict?_eq_none, h]

end RegionAtlas
