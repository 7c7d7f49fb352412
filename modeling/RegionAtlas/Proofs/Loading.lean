/-
  Loading — which databases are accepted, and what is said against those that are not.

  A database is read in one pass: every record is checked against contents that hold those listed
  before it, and the first that breaks a rule decides the fault.

  1. **What is accepted** — `Database.Valid`: numbers are distinct and never the reserved one, no
     two regions meet, the sides of a mapping have as many addresses, no two mappings meet.  Nothing
     in this is about the order of the records, although the pass goes by that order alone.

  2. **What is refused** — `FirstOffence`: the records before the first that offends are acceptable
     by themselves, and its fault is decided by them and by nothing that is listed after it
     (`RegionOffence`, `MappingOffence`).

  3. **The crux** — `foldlM_onePass`, one induction for regions and mappings alike, on the list from
     its end: the contents so far hold exactly the records so far, so the test that the ledger makes
     against contents is a test against records, and a list with one more record is acceptable
     exactly if it was before and the new record offends against none of it.

  The contents that a database describes follow from which records are in it, hence
  `toContents_eq_ok_iff`: `toContents` gives contents exactly if the database is valid and they hold
  what it lists.
-/
import RegionAtlas.Archive.Load
import RegionAtlas.Proofs.Listing
import RegionAtlas.Proofs.Origin
import RegionAtlas.Proofs.Sides

namespace RegionAtlas

/-! ## Records that meet -/

/-- **Two regions meet** if they share an address at a snap at which both are alive. -/
def Region.Meets (r q : Region) : Prop :=
  ∃ s a, r.isAliveAt s = true ∧ q.isAliveAt s = true ∧
    r.range.contains a = true ∧ q.range.contains a = true

/-- **Two mappings meet** if at a snap they share a trace address, or a static address of one space
of one program. -/
def Mapping.Meets (m n : Mapping) : Prop :=
  (∃ s, m.lifespan.contains s = true ∧ n.lifespan.contains s = true) ∧
  ((∃ a, m.traceRange.contains a = true ∧ n.traceRange.contains a = true) ∨
    (m.program = n.program ∧ m.space = n.space ∧
      ∃ a, m.staticRange.contains a = true ∧ n.staticRange.contains a = true))

/-- **A mapping is even** if it has as many static addresses as trace addresses. -/
def Mapping.Even (m : Mapping) : Prop :=
  Nat.card {a // m.traceRange.contains a = true} = Nat.card {a // m.staticRange.contains a = true}

theorem Mapping.isConsistent_iff_even {m : Mapping} : m.isConsistent = true ↔ m.Even := by
  rw [Even, AddressRange.card_contains, AddressRange.card_contains, isConsistent_iff]

theorem Region.conflictsWith_iff_meets {r q : Region} :
    r.conflictsWith q.range q.lifespan = true ↔ r.Meets q := Region.conflictsWith_iff

theorem Mapping.conflictsWith_iff_meets {m n : Mapping} :
    m.conflictsWith n = true ↔ m.Meets n := Mapping.conflictsWith_iff

theorem Region.Meets.symm {r q : Region} (h : r.Meets q) : q.Meets r := by
  obtain ⟨s, a, hr, hq, har, haq⟩ := h
  exact ⟨s, a, hq, hr, haq, har⟩

theorem Mapping.Meets.symm {m n : Mapping} (h : m.Meets n) : n.Meets m := by
  rw [← Mapping.conflictsWith_iff_meets] at h ⊢
  rw [Mapping.conflictsWith_comm]
  exact h

/-! ## Acceptable lists -/

/-- **Records that can be listed together**, in whatever order: their numbers are distinct, none is
the reserved one, and no two records meet. -/
structure Acceptable {α ι : Type} (number : α → ι) (raw : ι → UInt64) (Meets : α → α → Prop)
    (records : List α) : Prop where
  unreserved : ∀ a ∈ records, raw (number a) ≠ reservedId
  distinct : (records.map number).Nodup
  apart : records.Pairwise fun a b => ¬ Meets a b

/-- What makes a record acceptable behind others. -/
structure Admits {α ι : Type} (number : α → ι) (raw : ι → UInt64) (Meets : α → α → Prop)
    (before : List α) (a : α) : Prop where
  unreserved : raw (number a) ≠ reservedId
  new : ∀ b ∈ before, number b ≠ number a
  free : ∀ b ∈ before, ¬ Meets b a

namespace Acceptable

variable {α ι : Type} {number : α → ι} {raw : ι → UInt64} {Meets : α → α → Prop}
  {before xs ys : List α} {a : α}

theorem nil : Acceptable number raw Meets ([] : List α) where
  unreserved _ ha := absurd ha List.not_mem_nil
  distinct := List.nodup_nil
  apart := .nil

/-- A list with one more record is acceptable exactly if it was before and admits the record. -/
theorem append_singleton_iff :
    Acceptable number raw Meets (before ++ [a]) ↔
      Acceptable number raw Meets before ∧ Admits number raw Meets before a := by
  constructor
  · rintro ⟨hunreserved, hdistinct, hapart⟩
    rw [List.map_append, List.nodup_append] at hdistinct
    rw [List.pairwise_append] at hapart
    have ha : a ∈ before ++ [a] := List.mem_append_right _ List.mem_cons_self
    refine ⟨⟨fun b hb => hunreserved b (List.mem_append_left _ hb), hdistinct.1, hapart.1⟩,
      hunreserved a ha, fun b hb => ?_, fun b hb => hapart.2.2 b hb a List.mem_cons_self⟩
    exact hdistinct.2.2 _ (List.mem_map_of_mem hb) _ List.mem_cons_self
  · rintro ⟨⟨hunreserved, hdistinct, hapart⟩, ha, hnew, hfree⟩
    refine ⟨fun b hb => ?_, ?_, ?_⟩
    · rcases List.mem_append.mp hb with hold | hlast
      · exact hunreserved b hold
      · rw [List.mem_singleton.mp hlast]
        exact ha
    · rw [List.map_append, List.nodup_append]
      refine ⟨hdistinct, List.nodup_singleton _, ?_⟩
      intro n hn k hk
      obtain ⟨b, hb, rfl⟩ := List.mem_map.mp hn
      rw [List.mem_singleton.mp hk]
      exact hnew b hb
    · refine List.pairwise_append.mpr ⟨hapart, List.pairwise_singleton _ _, ?_⟩
      intro b hb k hk
      rw [List.mem_singleton.mp hk]
      exact hfree b hb

/-- **The order of the records does not matter.** -/
theorem perm (hsymm : ∀ {a b}, Meets a b → Meets b a) (hperm : xs.Perm ys)
    (h : Acceptable number raw Meets xs) : Acceptable number raw Meets ys where
  unreserved a ha := h.unreserved a (hperm.mem_iff.mpr ha)
  distinct := (hperm.map number).nodup_iff.mp h.distinct
  apart := (hperm.pairwise_iff fun hab hba => hab (hsymm hba)).mp h.apart

end Acceptable

/-! ## One pass -/

/-- **The fault of the first record that offends**: those before it are sound, and it offends
against them. -/
def FirstOffence {α F : Type} (Sound : List α → Prop) (Offends : List α → α → F → Prop)
    (records : List α) (fault : F) : Prop :=
  ∃ before a after, records = before ++ a :: after ∧ Sound before ∧ Offends before a fault

/-- **One pass over records**, each checked against a state that holds those before it.  If a step
either takes a record in or tells how it offends, so does the pass: it ends with a state that holds
them all if the list is sound, and otherwise with the fault of the first record that offends. -/
theorem foldlM_onePass {α C F : Type} {add : C → α → Except F C} {Sound : List α → Prop}
    {Offends : List α → α → F → Prop} {start : C} (Holds : C → List α → Prop)
    (hstart : Sound [] ∧ Holds start [])
    (hadd : ∀ c before a, Sound before → Holds c before →
      (∃ c', add c a = .ok c' ∧ Sound (before ++ [a]) ∧ Holds c' (before ++ [a])) ∨
      ∃ fault, add c a = .error fault ∧ ¬ Sound (before ++ [a]) ∧ Offends before a fault)
    (hless : ∀ before a, Sound (before ++ [a]) → Sound before) (records : List α) :
    (∃ c', records.foldlM add start = .ok c' ∧ Sound records ∧ Holds c' records) ∨
    ∃ fault, records.foldlM add start = .error fault ∧ ¬ Sound records ∧
      FirstOffence Sound Offends records fault := by
  -- from the end: what has been read is what stands before the last record
  induction records using List.reverseRecOn with
  | nil => exact .inl ⟨start, rfl, hstart.1, hstart.2⟩
  | append_singleton before a ih =>
    rw [List.foldlM_append]
    rcases ih with ⟨c, hread, hsound, hholds⟩ | ⟨fault, hread, hunsound, first⟩
    · rw [hread]
      rcases hadd c before a hsound hholds with ⟨c', htaken, hsound', hholds'⟩ |
        ⟨fault, hrefused, hunsound, hoffends⟩
      · refine .inl ⟨c', ?_, hsound', hholds'⟩
        show (add c a).bind _ = _
        rw [htaken]
        rfl
      · refine .inr ⟨fault, ?_, hunsound, before, a, [], rfl, hsound, hoffends⟩
        show (add c a).bind _ = _
        rw [hrefused]
        rfl
    · obtain ⟨earlier, b, later, rfl, hsound, hoffends⟩ := first
      refine .inr ⟨fault, ?_, fun h => hunsound (hless _ _ h), earlier, b, later ++ [a], ?_, hsound,
        hoffends⟩
      · rw [hread]
        rfl
      · rw [List.append_assoc, List.cons_append]

/-! ## Offences -/

/-- **How a region offends** against those listed before it, and the fault that is found.  Of
several regions that it meets the one with the lowest number is named. -/
inductive RegionOffence (before : List Region) (r : Region) : DatabaseFault → Prop where
  | outOfRange (reserved : r.id.raw = reservedId) :
      RegionOffence before r (.regionIdOutOfRange r.id)
  | duplicate (unreserved : r.id.raw ≠ reservedId) (again : ∃ q ∈ before, q.id = r.id) :
      RegionOffence before r (.duplicateRegion r.id)
  | overlapping {q : Region} (unreserved : r.id.raw ≠ reservedId)
      (new : ∀ q ∈ before, q.id ≠ r.id) (listed : q ∈ before) (meets : q.Meets r)
      (lowest : ∀ q' ∈ before, q'.Meets r → q.id.raw ≤ q'.id.raw) :
      RegionOffence before r (.overlappingRegions r.id q.id)

/-- **How a mapping offends** against those listed before it, and the fault that is found. -/
inductive MappingOffence (before : List Mapping) (m : Mapping) : DatabaseFault → Prop where
  | outOfRange (reserved : m.id.raw = reservedId) :
      MappingOffence before m (.mappingIdOutOfRange m.id)
  | duplicate (unreserved : m.id.raw ≠ reservedId) (again : ∃ n ∈ before, n.id = m.id) :
      MappingOffence before m (.duplicateMapping m.id)
  | inconsistent (unreserved : m.id.raw ≠ reservedId) (new : ∀ n ∈ before, n.id ≠ m.id)
      (uneven : ¬ m.Even) : MappingOffence before m (.inconsistentMapping m.id)
  | overlapping {n : Mapping} (unreserved : m.id.raw ≠ reservedId)
      (new : ∀ n ∈ before, n.id ≠ m.id) (even : m.Even) (listed : n ∈ before) (meets : n.Meets m)
      (lowest : ∀ n' ∈ before, n'.Meets m → n.id.raw ≤ n'.id.raw) :
      MappingOffence before m (.overlappingMappings m.id n.id)

/-! ## Contents that hold what is listed -/

section Listed

variable {α ι : Type} {key : α → ι} {found : ι → Option α} {xs : List α}
  (h : ∀ k a, found k = some a ↔ a ∈ xs ∧ key a = k)

include h

/-- What is found once a record with a new key is there, is listed with that record behind. -/
theorem listed_append [DecidableEq ι] {a : α} (hnew : ∀ b ∈ xs, key b ≠ key a) (k : ι) (b : α) :
    (if key a = k then some a else found k) = some b ↔ b ∈ xs ++ [a] ∧ key b = k := by
  rw [List.mem_append, List.mem_singleton]
  split
  · next hk =>
    constructor
    · intro hb
      cases hb
      exact ⟨.inr rfl, hk⟩
    · rintro ⟨hold | rfl, hbk⟩
      · exact absurd (hbk.trans hk.symm) (hnew b hold)
      · rfl
  · next hk =>
    rw [h k b]
    constructor
    · rintro ⟨hold, hbk⟩
      exact ⟨.inl hold, hbk⟩
    · rintro ⟨hold | rfl, hbk⟩
      · exact ⟨hold, hbk⟩
      · exact absurd hbk hk

/-- What is found under some key is what is listed. -/
theorem exists_listed_iff {a : α} : (∃ k, found k = some a) ↔ a ∈ xs := by
  constructor
  · rintro ⟨k, ha⟩
    exact ((h k a).mp ha).1
  · intro ha
    exact ⟨key a, (h (key a) a).mpr ⟨ha, rfl⟩⟩

end Listed

namespace Contents

/-- **Contents hold exactly the regions of a list**, each under its own number. -/
def ListsRegions (c : Contents) (regions : List Region) : Prop :=
  ∀ id r, c.region? id = some r ↔ r ∈ regions ∧ r.id = id

/-- **Contents hold exactly the mappings of a list**, each under its own number. -/
def ListsMappings (c : Contents) (mappings : List Mapping) : Prop :=
  ∀ id m, c.mapping? id = some m ↔ m ∈ mappings ∧ m.id = id

variable {c : Contents} {regions : List Region} {mappings : List Mapping}

/-- A region whose number is not listed is listed last. -/
theorem ListsRegions.insertRegion (h : c.ListsRegions regions) {r : Region}
    (hnew : ∀ q ∈ regions, q.id ≠ r.id) : (c.insertRegion r).ListsRegions (regions ++ [r]) := by
  intro id q
  rw [region?_insertRegion]
  exact listed_append h hnew id q

/-- A mapping whose number is not listed is listed last. -/
theorem ListsMappings.insertMapping (h : c.ListsMappings mappings) {m : Mapping}
    (hnew : ∀ n ∈ mappings, n.id ≠ m.id) :
    (c.insertMapping m).ListsMappings (mappings ++ [m]) := by
  intro id n
  rw [mapping?_insertMapping]
  exact listed_append h hnew id n

theorem ListsRegions.mem_values (h : c.ListsRegions regions) {r : Region} :
    r ∈ c.regions.values ↔ r ∈ regions := mem_regions.trans (exists_listed_iff h)

theorem ListsMappings.mem_values (h : c.ListsMappings mappings) {m : Mapping} :
    m ∈ c.mappings.values ↔ m ∈ mappings := mem_mappings.trans (exists_listed_iff h)

end Contents

/-- Where every value is stored under a key of its own, the first value with a property is the one
with the lowest key. -/
theorem Table.lowest_of_find? {κ α : Type} [Ord κ] [Std.LawfulEqOrd κ] {t : Table κ α}
    {key : α → κ} (hkeyed : ∀ k a, t.find? k = some a → key a = k) {p : α → Bool} {a : α}
    (h : t.values.find? p = some a) :
    a ∈ t.values ∧ p a = true ∧
      ∀ b ∈ t.values, p b = true → key a = key b ∨ compare (key a) (key b) = .lt := by
  have hkeys : (t.values.map key).Pairwise fun j k => compare j k = .lt := by
    rw [Table.map_values_eq_keys hkeyed]
    exact List.pairwise_map.mpr t.ascending
  have hascending : t.values.Pairwise fun x y => compare (key x) (key y) = .lt :=
    List.pairwise_map.mp hkeys
  obtain ⟨hp, earlier, later, hvalues, hnone⟩ := List.find?_eq_some_iff_append.mp h
  rw [hvalues] at hascending ⊢
  have hafter := (List.pairwise_append.mp hascending).2.1
  refine ⟨List.mem_append_right _ List.mem_cons_self, hp, fun b hb hpb => ?_⟩
  rcases List.mem_append.mp hb with hearlier | hrest
  · have hnot := hnone b hearlier
    rw [hpb] at hnot
    cases hnot
  · rcases List.mem_cons.mp hrest with rfl | hlater
    · exact .inl rfl
    · exact .inr ((List.pairwise_cons.mp hafter).1 b hlater)

theorem RegionId.raw_le {i j : RegionId} (h : i = j ∨ compare i j = .lt) : i.raw ≤ j.raw := by
  rcases h with rfl | hlt
  · exact UInt64.le_refl _
  · exact UInt64.le_of_lt (compareOfLessAndEq_eq_lt.mp hlt)

theorem MappingId.raw_le {i j : MappingId} (h : i = j ∨ compare i j = .lt) : i.raw ≤ j.raw := by
  rcases h with rfl | hlt
  · exact UInt64.le_refl _
  · exact UInt64.le_of_lt (compareOfLessAndEq_eq_lt.mp hlt)

/-! ## The steps of the pass -/

namespace Database

variable {c : Contents}

/-- **The step for regions**: a region is taken in if the list admits it, and otherwise refused for
how it offends. -/
theorem addRegion_step {before : List Region} (hc : c.ListsRegions before) (r : Region) :
    (addRegion c r = .ok (c.insertRegion r) ∧
      Admits Region.id RegionId.raw Region.Meets before r) ∨
    ∃ fault, addRegion c r = .error fault ∧
      ¬ Admits Region.id RegionId.raw Region.Meets before r ∧ RegionOffence before r fault := by
  unfold addRegion
  by_cases hreserved : r.id.raw = reservedId
  · rw [if_pos hreserved]
    exact .inr ⟨_, rfl, fun h => h.unreserved hreserved, .outOfRange hreserved⟩
  rw [if_neg hreserved]
  by_cases hknown : c.regions.contains r.id = true
  · rw [if_pos hknown]
    obtain ⟨q, hq⟩ := Option.isSome_iff_exists.mp hknown
    obtain ⟨hlisted, hid⟩ := (hc r.id q).mp hq
    exact .inr ⟨_, rfl, fun h => h.new q hlisted hid, .duplicate hreserved ⟨q, hlisted, hid⟩⟩
  rw [if_neg hknown]
  have hnew : ∀ q ∈ before, q.id ≠ r.id := by
    intro q hq hid
    have hfound : c.region? r.id = some q := (hc r.id q).mpr ⟨hq, hid⟩
    exact hknown (Option.isSome_iff_exists.mpr ⟨q, hfound⟩)
  cases hconflict : c.regionConflict? r.range r.lifespan with
  | none =>
    refine .inl ⟨rfl, hreserved, hnew, fun q hq hmeets => ?_⟩
    have hfree := firstRegionConflict?_eq_none.mp hconflict q (hc.mem_values.mpr hq)
    rw [Region.conflictsWith_iff_meets.mpr hmeets] at hfree
    cases hfree
  | some other =>
    obtain ⟨q, hfirst, rfl⟩ := Option.map_eq_some_iff.mp hconflict
    obtain ⟨hq, hmeets, hlowest⟩ :=
      Table.lowest_of_find? (fun id r' hr' => ((hc id r').mp hr').2) hfirst
    rw [hc.mem_values] at hq
    rw [Region.conflictsWith_iff_meets] at hmeets
    refine .inr ⟨_, rfl, fun h => h.free q hq hmeets, .overlapping hreserved hnew hq hmeets ?_⟩
    intro q' hq' hmeets'
    exact RegionId.raw_le
      (hlowest q' (hc.mem_values.mpr hq') (Region.conflictsWith_iff_meets.mpr hmeets'))

/-- **The step for mappings**: a mapping is taken in if it is even and the list admits it, and
otherwise refused for how it offends. -/
theorem addMapping_step {before : List Mapping} (hc : c.ListsMappings before) (m : Mapping) :
    (addMapping c m = .ok (c.insertMapping m) ∧
      Admits Mapping.id MappingId.raw Mapping.Meets before m ∧ m.Even) ∨
    ∃ fault, addMapping c m = .error fault ∧
      ¬ (Admits Mapping.id MappingId.raw Mapping.Meets before m ∧ m.Even) ∧
      MappingOffence before m fault := by
  unfold addMapping
  by_cases hreserved : m.id.raw = reservedId
  · rw [if_pos hreserved]
    exact .inr ⟨_, rfl, fun h => h.1.unreserved hreserved, .outOfRange hreserved⟩
  rw [if_neg hreserved]
  by_cases hknown : c.mappings.contains m.id = true
  · rw [if_pos hknown]
    obtain ⟨n, hn⟩ := Option.isSome_iff_exists.mp hknown
    obtain ⟨hlisted, hid⟩ := (hc m.id n).mp hn
    exact .inr ⟨_, rfl, fun h => h.1.new n hlisted hid, .duplicate hreserved ⟨n, hlisted, hid⟩⟩
  rw [if_neg hknown]
  have hnew : ∀ n ∈ before, n.id ≠ m.id := by
    intro n hn hid
    have hfound : c.mapping? m.id = some n := (hc m.id n).mpr ⟨hn, hid⟩
    exact hknown (Option.isSome_iff_exists.mpr ⟨n, hfound⟩)
  by_cases heven : m.Even
  · rw [if_pos (Mapping.isConsistent_iff_even.mpr heven)]
    cases hconflict : c.mappingConflict? m with
    | none =>
      refine .inl ⟨rfl, ⟨hreserved, hnew, fun n hn hmeets => ?_⟩, heven⟩
      have hfree := firstMappingConflict?_eq_none.mp hconflict n (hc.mem_values.mpr hn)
      rw [Mapping.conflictsWith_iff_meets.mpr hmeets] at hfree
      cases hfree
    | some other =>
      obtain ⟨n, hfirst, rfl⟩ := Option.map_eq_some_iff.mp hconflict
      obtain ⟨hn, hmeets, hlowest⟩ :=
        Table.lowest_of_find? (fun id m' hm' => ((hc id m').mp hm').2) hfirst
      rw [hc.mem_values] at hn
      rw [Mapping.conflictsWith_iff_meets] at hmeets
      refine .inr ⟨_, rfl, fun h => h.1.free n hn hmeets,
        .overlapping hreserved hnew heven hn hmeets ?_⟩
      intro n' hn' hmeets'
      exact MappingId.raw_le
        (hlowest n' (hc.mem_values.mpr hn') (Mapping.conflictsWith_iff_meets.mpr hmeets'))
  · rw [if_neg fun hconsistent => heven (Mapping.isConsistent_iff_even.mp hconsistent)]
    exact .inr ⟨_, rfl, fun h => heven h.2, .inconsistent hreserved hnew heven⟩

/-! ## What is accepted -/

/-- Regions that can be listed together. -/
abbrev SoundRegions (regions : List Region) : Prop :=
  Acceptable Region.id RegionId.raw Region.Meets regions

/-- Mappings that can be listed together. -/
structure SoundMappings (mappings : List Mapping) : Prop where
  acceptable : Acceptable Mapping.id MappingId.raw Mapping.Meets mappings
  even : ∀ m ∈ mappings, m.Even

theorem soundMappings_append_singleton_iff {before : List Mapping} {m : Mapping} :
    SoundMappings (before ++ [m]) ↔
      SoundMappings before ∧ Admits Mapping.id MappingId.raw Mapping.Meets before m ∧ m.Even := by
  constructor
  · rintro ⟨hacceptable, heven⟩
    obtain ⟨hbefore, hadmits⟩ := Acceptable.append_singleton_iff.mp hacceptable
    exact ⟨⟨hbefore, fun n hn => heven n (List.mem_append_left _ hn)⟩, hadmits,
      heven m (List.mem_append_right _ List.mem_cons_self)⟩
  · rintro ⟨⟨hbefore, heven⟩, hadmits, hm⟩
    refine ⟨Acceptable.append_singleton_iff.mpr ⟨hbefore, hadmits⟩, fun n hn => ?_⟩
    rcases List.mem_append.mp hn with hold | hlast
    · exact heven n hold
    · rw [List.mem_singleton.mp hlast]
      exact hm

/-- **A valid database**: the regions can be listed together, and so can the mappings. -/
structure Valid (db : Database) : Prop where
  regions : SoundRegions db.regions
  mappings : SoundMappings db.mappings

/-- **What is wrong with a database** that is not valid: the first region that offends, or where
none does the first mapping. -/
inductive Faulty (db : Database) (fault : DatabaseFault) : Prop where
  | region (first : FirstOffence SoundRegions RegionOffence db.regions fault)
  | mapping (regions : SoundRegions db.regions)
      (first : FirstOffence SoundMappings MappingOffence db.mappings fault)

/-- The pass over the regions. -/
theorem foldlM_addRegion (regions : List Region) :
    (∃ c, regions.foldlM addRegion .empty = .ok c ∧ SoundRegions regions ∧
      c.ListsRegions regions ∧ c.mappings = .empty) ∨
    ∃ fault, regions.foldlM addRegion .empty = .error fault ∧ ¬ SoundRegions regions ∧
      FirstOffence SoundRegions RegionOffence regions fault := by
  have hempty : Contents.empty.ListsRegions [] := by
    intro id r
    constructor
    · intro hr
      cases hr
    · rintro ⟨hr, -⟩
      cases hr
  refine foldlM_onePass (fun (c : Contents) before => c.ListsRegions before ∧ c.mappings = .empty)
    ⟨.nil, hempty, rfl⟩ ?_ (fun before r h => (Acceptable.append_singleton_iff.mp h).1) regions
  rintro c before r hsound ⟨hlists, hnone⟩
  rcases addRegion_step hlists r with ⟨htaken, hadmits⟩ | ⟨fault, hrefused, hnot, hoffends⟩
  · exact .inl ⟨_, htaken, Acceptable.append_singleton_iff.mpr ⟨hsound, hadmits⟩,
      hlists.insertRegion hadmits.new, hnone⟩
  · exact .inr ⟨fault, hrefused, fun h => hnot (Acceptable.append_singleton_iff.mp h).2, hoffends⟩

/-- The pass over the mappings leaves the regions as they are. -/
theorem foldlM_addMapping (hnone : c.mappings = .empty) (mappings : List Mapping) :
    (∃ c', mappings.foldlM addMapping c = .ok c' ∧ SoundMappings mappings ∧
      c'.ListsMappings mappings ∧ c'.regions = c.regions) ∨
    ∃ fault, mappings.foldlM addMapping c = .error fault ∧ ¬ SoundMappings mappings ∧
      FirstOffence SoundMappings MappingOffence mappings fault := by
  have hempty : c.ListsMappings [] := by
    intro id m
    rw [Contents.mapping?, hnone]
    constructor
    · intro hm
      cases hm
    · rintro ⟨hm, -⟩
      cases hm
  have hnil : SoundMappings [] := ⟨.nil, fun m hm => absurd hm List.not_mem_nil⟩
  refine foldlM_onePass
    (fun (c' : Contents) before => c'.ListsMappings before ∧ c'.regions = c.regions)
    ⟨hnil, hempty, rfl⟩ ?_ (fun before m h => (soundMappings_append_singleton_iff.mp h).1) mappings
  rintro c' before m hsound ⟨hlists, hregions⟩
  rcases addMapping_step hlists m with ⟨htaken, hadmits⟩ | ⟨fault, hrefused, hnot, hoffends⟩
  · exact .inl ⟨_, htaken, soundMappings_append_singleton_iff.mpr ⟨hsound, hadmits⟩,
      hlists.insertMapping hadmits.1.new, hregions⟩
  · exact .inr ⟨fault, hrefused, fun h => hnot (soundMappings_append_singleton_iff.mp h).2,
      hoffends⟩

/-- Contents that hold exactly what a database lists. -/
structure Describes (db : Database) (c : Contents) : Prop where
  regions : c.ListsRegions db.regions
  mappings : c.ListsMappings db.mappings

/-- **The whole pass**: contents that hold what is listed if the database is valid, and otherwise
the fault of the first record that offends. -/
theorem toContents_cases (db : Database) :
    (∃ c, db.toContents = .ok c ∧ db.Valid ∧ db.Describes c) ∨
    ∃ fault, db.toContents = .error fault ∧ ¬ db.Valid ∧ db.Faulty fault := by
  unfold toContents
  rcases foldlM_addRegion db.regions with ⟨c, hread, hregions, hlists, hnone⟩ |
    ⟨fault, hread, hunsound, first⟩
  · rw [hread]
    rcases foldlM_addMapping hnone db.mappings with ⟨c', hread', hmappings, hlists', hsame⟩ |
      ⟨fault, hread', hunsound, first⟩
    · refine .inl ⟨c', hread', ⟨hregions, hmappings⟩, fun id r => ?_, hlists'⟩
      rw [Contents.region?, hsame]
      exact hlists id r
    · exact .inr ⟨fault, hread', fun h => hunsound h.mappings, .mapping hregions first⟩
  · rw [hread]
    exact .inr ⟨fault, rfl, fun h => hunsound h.regions, .region first⟩

/-- What a database describes follows from which records are in it. -/
theorem Describes.eq {db : Database} {c c' : Contents} (h : db.Describes c) (h' : db.Describes c') :
    c = c' := by
  refine Contents.ext_find (fun id => Option.ext fun r => ?_) (fun id => Option.ext fun m => ?_)
  · rw [h.regions id r, h'.regions id r]
  · rw [h.mappings id m, h'.mappings id m]

/-- **Contents are read from a database exactly if it is valid and describes them.** -/
theorem toContents_eq_ok_iff {db : Database} {c : Contents} :
    db.toContents = .ok c ↔ db.Valid ∧ db.Describes c := by
  rcases toContents_cases db with ⟨c', hread, hvalid, hdescribes⟩ | ⟨fault, hread, hinvalid, -⟩
  · rw [hread]
    constructor
    · intro h
      cases h
      exact ⟨hvalid, hdescribes⟩
    · rintro ⟨-, h⟩
      rw [hdescribes.eq h]
  · rw [hread]
    constructor
    · intro h
      cases h
    · rintro ⟨hvalid, -⟩
      exact absurd hvalid hinvalid

/-! ## The order of records -/

section Reordered

variable {db db' : Database} (hregions : db.regions.Perm db'.regions)
  (hmappings : db.mappings.Perm db'.mappings)

include hregions hmappings

theorem Valid.perm (h : db.Valid) : db'.Valid where
  regions := h.regions.perm Region.Meets.symm hregions
  mappings := ⟨h.mappings.acceptable.perm Mapping.Meets.symm hmappings,
    fun m hm => h.mappings.even m (hmappings.mem_iff.mpr hm)⟩

theorem Describes.perm {c : Contents} (h : db.Describes c) : db'.Describes c where
  regions id r := by rw [h.regions id r, hregions.mem_iff]
  mappings id m := by rw [h.mappings id m, hmappings.mem_iff]

/-- **Databases that list the same records in another order describe the same contents.** -/
theorem toContents_perm (c : Contents) : db.toContents = .ok c ↔ db'.toContents = .ok c := by
  rw [toContents_eq_ok_iff, toContents_eq_ok_iff]
  constructor
  · rintro ⟨hvalid, hdescribes⟩
    exact ⟨hvalid.perm hregions hmappings, hdescribes.perm hregions hmappings⟩
  · rintro ⟨hvalid, hdescribes⟩
    exact ⟨hvalid.perm hregions.symm hmappings.symm, hdescribes.perm hregions.symm hmappings.symm⟩

end Reordered

end Database

/-! ## Documents -/

open Json

/-- The two bounds that a node has for a range, in whatever order they are. -/
def AddressRange.bounds : Decoder (UInt64 × UInt64) := decodeTuple ⟨none, none⟩ fields Found.make

/-- The start that a node has for a lifespan, and the stop if there is one. -/
def Lifespan.ends : Decoder (Snap × Option Snap) := decodeRecord ⟨none, none⟩ fields Found.make

/-- **A range is decoded from its bounds, and only if they are in order.** -/
theorem AddressRange.decode_eq_ok_iff {node : Node} {r : AddressRange} :
    decode node = .ok r ↔ bounds node = .ok (r.min, r.max) := by
  show (bounds node).bind _ = _ ↔ _
  cases hbounds : bounds node with
  | error why =>
    constructor
    · intro h
      cases h
    · intro h
      cases h
  | ok found =>
    obtain ⟨min, max⟩ := found
    dsimp only [Except.bind]
    rw [Except.ok.injEq, Prod.mk.injEq]
    cases hrange : of? min max with
    | none =>
      constructor
      · intro h
        cases h
      · rintro ⟨rfl, rfl⟩
        rw [of?_eq_some.mpr ⟨rfl, rfl⟩] at hrange
        cases hrange
    | some range =>
      obtain ⟨rfl, rfl⟩ := of?_eq_some.mp hrange
      constructor
      · intro h
        cases h
        exact ⟨rfl, rfl⟩
      · rintro ⟨hmin, hmax⟩
        rw [AddressRange.ext hmin hmax]
        rfl

/-- **A lifespan is decoded from its ends, and only if they are in order.** -/
theorem Lifespan.decode_eq_ok_iff {node : Node} {l : Lifespan} :
    decode node = .ok l ↔ ends node = .ok (l.start, l.stop) := by
  show (ends node).bind _ = _ ↔ _
  cases hends : ends node with
  | error why =>
    constructor
    · intro h
      cases h
    · intro h
      cases h
  | ok found =>
    obtain ⟨start, stop⟩ := found
    show check start stop = Except.ok l ↔ _
    rw [Except.ok.injEq, Prod.mk.injEq]
    cases stop with
    | none =>
      constructor
      · intro h
        cases h
        exact ⟨rfl, rfl⟩
      · rintro ⟨hstart, hstop⟩
        exact congrArg Except.ok (Lifespan.ext hstart hstop)
    | some e =>
      rw [check, between?]
      by_cases horder : start ≤ e
      · rw [dif_pos horder]
        constructor
        · intro h
          cases h
          exact ⟨rfl, rfl⟩
        · rintro ⟨hstart, hstop⟩
          exact congrArg Except.ok (Lifespan.ext hstart hstop)
      · rw [dif_neg horder]
        constructor
        · intro h
          cases h
        · rintro ⟨rfl, hstop⟩
          exact absurd (l.start_le_stop e hstop.symm) horder

/-- **The loader accepts exactly the valid databases.**  A document gives ranges and lifespans whose
ends are in order, and no others.  What it lists is accepted exactly if it is valid; the contents
then hold just those records; otherwise the fault is that of the first record that offends against
those before it, regions before mappings.  In what order the records are listed makes no difference
to what is accepted or to the contents. -/
theorem databases_load_iff_valid :
    (∀ node r, AddressRange.decode node = .ok r ↔ AddressRange.bounds node = .ok (r.min, r.max)) ∧
    (∀ node l, Lifespan.decode node = .ok l ↔ Lifespan.ends node = .ok (l.start, l.stop)) ∧
    (∀ text db, Database.read (.ofText text) = .ok db →
      (∀ r ∈ db.regions, r.range.min ≤ r.range.max ∧
        ∀ e, r.lifespan.stop = some e → r.lifespan.start ≤ e) ∧
      ∀ m ∈ db.mappings, m.traceRange.min ≤ m.traceRange.max ∧
        m.staticRange.min ≤ m.staticRange.max ∧
        ∀ e, m.lifespan.stop = some e → m.lifespan.start ≤ e) ∧
    ∀ db : Database,
      ((∃ c, db.toContents = .ok c) ↔ db.Valid) ∧
      (∀ c, db.toContents = .ok c → db.Describes c) ∧
      (∀ fault, db.toContents = .error fault → db.Faulty fault) ∧
      ∀ db' : Database, db.regions.Perm db'.regions → db.mappings.Perm db'.mappings →
        ∀ c, db.toContents = .ok c ↔ db'.toContents = .ok c := by
  refine ⟨fun _ _ => AddressRange.decode_eq_ok_iff, fun _ _ => Lifespan.decode_eq_ok_iff,
    fun text db _ => ⟨fun r _ => ⟨r.range.min_le_max, r.lifespan.start_le_stop⟩,
      fun m _ => ⟨m.traceRange.min_le_max, m.staticRange.min_le_max, m.lifespan.start_le_stop⟩⟩, ?_⟩
  intro db
  refine ⟨?_, fun c hc => (Database.toContents_eq_ok_iff.mp hc).2, ?_,
    fun db' hregions hmappings c => Database.toContents_perm hregions hmappings c⟩
  · rcases db.toContents_cases with ⟨c, hread, hvalid, -⟩ | ⟨fault, hread, hinvalid, -⟩
    · exact ⟨fun _ => hvalid, fun _ => ⟨c, hread⟩⟩
    · constructor
      · rintro ⟨c, hc⟩
        rw [hc] at hread
        cases hread
      · exact fun hvalid => absurd hvalid hinvalid
  · intro fault hfault
    rcases db.toContents_cases with ⟨c, hread, -, -⟩ | ⟨fault', hread, -, hfaulty⟩
    · rw [hfault] at hread
      cases hread
    · rw [hfault] at hread
      cases hread
      exact hfaulty

/-- A document whose second region takes over addresses at the snap at which the first is gone, with
a mapping of the first. -/
def tenancyText : String :=
  "\x7b\"regions\":[" ++
  "\x7b\"id\":7,\"name\":\"a\",\"range\":[16,31],\"flags\":\"r\",\"lifespan\":[0,5]\x7d," ++
  "\x7b\"id\":2,\"name\":\"b\",\"range\":[24,24],\"flags\":\"w\",\"lifespan\":[5]\x7d]," ++
  "\"mappings\":[[0,[16,31],[0,5],\"p\",\"s\",[0,15]]]\x7d"

/-- The snaps that the first region and its mapping have in the document. -/
def untilFive : Lifespan := ⟨0, some 5, fun | _, rfl => by decide⟩

/-- What the document lists. -/
def tenancy : Database where
  regions :=
    [⟨⟨7⟩, unownedId, "a", ⟨16, 31, by decide⟩, ⟨true, false, false⟩, untilFive⟩,
     ⟨⟨2⟩, unownedId, "b", ⟨24, 24, by decide⟩, ⟨false, true, false⟩, .since 5⟩]
  mappings :=
    [⟨⟨0⟩, ⟨16, 31, by decide⟩, untilFive, "p", "s", ⟨0, 15, by decide⟩⟩]

/-- The document is read and accepted, in whichever order the regions stand; with the first region
listed once more it is not, and it is the repetition that is found wrong. -/
theorem tenancy_loads :
    Database.read (.ofText tenancyText) = .ok tenancy ∧
    (∀ r ∈ tenancy.regions, r.range.min ≤ r.range.max ∧
      ∀ e, r.lifespan.stop = some e → r.lifespan.start ≤ e) ∧
    tenancy.Valid ∧
    (∃ c, tenancy.toContents = .ok c ∧ tenancy.Describes c ∧
      Database.toContents ⟨tenancy.regions.reverse, tenancy.mappings⟩ = .ok c) ∧
    Database.Faulty ⟨tenancy.regions ++ tenancy.regions.take 1, tenancy.mappings⟩
      (.duplicateRegion ⟨7⟩) := by
  have hread : Database.read (.ofText tenancyText) = .ok tenancy := by decide +kernel
  obtain ⟨-, -, hdocument, hload⟩ := databases_load_iff_valid
  obtain ⟨hordered, -⟩ := hdocument tenancyText tenancy hread
  obtain ⟨haccepts, hdescribes, -, hperm⟩ := hload tenancy
  obtain ⟨-, -, hfaulty, -⟩ :=
    hload ⟨tenancy.regions ++ tenancy.regions.take 1, tenancy.mappings⟩
  have hcontents : ∃ c, tenancy.toContents = .ok c := ⟨_, rfl⟩
  obtain ⟨c, hc⟩ := hcontents
  refine ⟨hread, hordered, haccepts.mp ⟨c, hc⟩, ⟨c, hc, hdescribes c hc, ?_⟩, hfaulty _ rfl⟩
  exact (hperm ⟨tenancy.regions.reverse, tenancy.mappings⟩ (List.reverse_perm _).symm
    (.refl _) c).mp hc

end RegionAtlas
