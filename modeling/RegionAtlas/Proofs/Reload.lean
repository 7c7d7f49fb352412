/-
  Reloading — a trace that is saved and loaded again is the same trace without its history.

  Saving writes the records of the contents down and nothing else; loading checks every one of them
  afresh.  So there are two things to prove, and they meet at `Database.Valid`, which is about
  records only:

  1. **What is saved is accepted.**  Everything the loader asks for is a lasting property of
     contents: regions are exclusive (`exclusive_lasting`), mappings are a correspondence
     (`Contents.Corresponds.lasting`), and no record has the reserved number (`unreserved_lasting`).
     So it holds after every run of calls, whatever was undone, aborted or refused on the way
     (`Database.valid_ofContents`).

  2. **What is loaded is what was saved.**  Contents are read off the records that are listed
     (`Database.toContents_eq_ok_iff`), and these are the contents that list them
     (`Database.describes_ofContents`).

  The trace that starts from what was loaded differs in who owns the regions, and no query, no check
  and no saved record depends on that.
-/
import RegionAtlas.Proofs.Correspondence
import RegionAtlas.Proofs.Exclusivity
import RegionAtlas.Proofs.Loading

namespace RegionAtlas

open Change (Subject)

/-! ## 1. Numbers that are in use -/

/-- **No record has the reserved number.** -/
def Contents.Unreserved (c : Contents) : Prop := ∀ s, c.Holds s → s.raw ≠ reservedId

namespace Contents.Unreserved

variable {c : Contents}

theorem insertRegion (h : c.Unreserved) {r : Region} (hr : r.id.raw ≠ reservedId) :
    (c.insertRegion r).Unreserved := by
  intro s hs
  rcases holds_insertRegion.mp hs with hold | rfl
  · exact h s hold
  · exact hr

theorem insertMapping (h : c.Unreserved) {m : Mapping} (hm : m.id.raw ≠ reservedId) :
    (c.insertMapping m).Unreserved := by
  intro s hs
  rcases holds_insertMapping.mp hs with hold | rfl
  · exact h s hold
  · exact hm

end Contents.Unreserved

/-- **Not to use the reserved number is lasting**: it is neither handed out nor loaded. -/
theorem unreserved_lasting : Lasting Contents.Unreserved where
  empty := by
    intro s hs
    cases s with
    | region id =>
      obtain ⟨r, hr⟩ := hs
      cases hr
    | mapping id =>
      obtain ⟨m, hm⟩ := hs
      cases hm
  ownedBy c id h := fun s hs => h s (Contents.holds_ownedBy.mp hs)
  region c r c' h hadd := by
    obtain ⟨hr, -, -, rfl⟩ := Database.addRegion_spec hadd
    exact h.insertRegion hr
  mapping c m c' h hadd := by
    obtain ⟨hm, -, -, -, rfl⟩ := Database.addMapping_spec hadd
    exact h.insertMapping hm
  operation R p op c c' change hrecords _ h hfits := by
    cases hfits with
    | createRegion _ =>
      cases hrecords with
      | region _ hr => exact h.insertRegion hr
    | setLifespan new _ => exact fun s hs => h s (Contents.holds_setLifespan.mp hs)
    | createMapping _ =>
      cases hrecords with
      | mapping _ hm => exact h.insertMapping hm

/-! ## 2. What is saved is accepted -/

/-- Values that no two keys may share a property of are apart in the list of them. -/
theorem Table.pairwise_values {κ α : Type} [Ord κ] [Std.LawfulEqOrd κ] {t : Table κ α}
    {P : α → α → Prop}
    (h : ∀ j k a b, t.find? j = some a → t.find? k = some b → j ≠ k → P a b) :
    t.values.Pairwise P := by
  refine List.pairwise_map.mpr (t.ascending.imp_of_mem ?_)
  intro row row' hrow hrow' hlt
  refine h row.1 row'.1 row.2 row'.2 (Table.find?_eq_some.mpr hrow)
    (Table.find?_eq_some.mpr hrow') ?_
  intro heq
  have hself : compare row'.1 row'.1 = .eq := Std.ReflCmp.compare_self
  rw [heq, hself] at hlt
  cases hlt

namespace Database

variable {c : Contents}

/-- What is listed is what the contents hold. -/
theorem describes_ofContents (hkeyed : c.Keyed)
    (hkeyed' : ∀ id m, c.mapping? id = some m → m.id = id) : (ofContents c).Describes c where
  regions id r := by
    show _ ↔ r ∈ c.regions.values ∧ r.id = id
    rw [Contents.mem_regions]
    constructor
    · intro hr
      exact ⟨⟨id, hr⟩, hkeyed id r hr⟩
    · rintro ⟨⟨j, hr⟩, hid⟩
      rw [← hid, hkeyed j r hr]
      exact hr
  mappings id m := by
    show _ ↔ m ∈ c.mappings.values ∧ m.id = id
    rw [Contents.mem_mappings]
    constructor
    · intro hm
      exact ⟨⟨id, hm⟩, hkeyed' id m hm⟩
    · rintro ⟨⟨j, hm⟩, hid⟩
      rw [← hid, hkeyed' j m hm]
      exact hm

/-- **What is saved is valid**, for all contents there can be. -/
theorem valid_ofContents (hc : c.Attained) : (ofContents c).Valid := by
  have hkeyed : c.Keyed := keyed_of_attained hc
  have hexclusive : c.Exclusive := exclusive_lasting.attained hc
  have hcorresponds : c.Corresponds := Contents.Corresponds.lasting.attained hc
  have hunreserved : c.Unreserved := unreserved_lasting.attained hc
  refine ⟨⟨fun r hr => ?_, hkeyed.nodup_ids, ?_⟩, ⟨⟨fun m hm => ?_, ?_, ?_⟩, fun m hm => ?_⟩⟩
  · obtain ⟨id, hfound⟩ := Contents.mem_regions.mp hr
    rw [hkeyed id r hfound]
    exact hunreserved (.region id) ⟨r, hfound⟩
  · refine Table.pairwise_values fun i j r q hr hq hne hmeets => hne ?_
    obtain ⟨s, a, hralive, hqalive, har, haq⟩ := hmeets
    exact hexclusive s a i j r q hr hq hralive hqalive har haq
  · obtain ⟨id, hfound⟩ := Contents.mem_mappings.mp hm
    rw [hcorresponds.keyed id m hfound]
    exact hunreserved (.mapping id) ⟨m, hfound⟩
  · show (c.mappings.values.map Mapping.id).Nodup
    rw [Table.map_values_eq_keys hcorresponds.keyed]
    exact c.mappings.nodup_keys
  · refine Table.pairwise_values fun i j m n hm hn hne hmeets => ?_
    have hfree : m.conflictsWith n = false := hcorresponds.apart i j m n hm hn hne
    rw [Mapping.conflictsWith_iff_meets.mpr hmeets] at hfree
    cases hfree
  · obtain ⟨id, hfound⟩ := Contents.mem_mappings.mp hm
    exact Mapping.isConsistent_iff_even.mp (hcorresponds.consistent id m hfound)

/-- **What is saved is loaded**, for all contents there can be. -/
theorem toContents_ofContents (hc : c.Attained) : (ofContents c).toContents = .ok c :=
  toContents_eq_ok_iff.mpr ⟨valid_ofContents hc,
    describes_ofContents (keyed_of_attained hc) (Contents.Corresponds.lasting.attained hc).keyed⟩

/-- The same records, every region referring to a trace. -/
def ownedBy (db : Database) (t : TraceId) : Database :=
  ⟨db.regions.map (·.ownedBy t), db.mappings⟩

theorem ofContents_ownedBy (c : Contents) (t : TraceId) :
    ofContents (c.ownedBy t) = (ofContents c).ownedBy t := by
  have hvalues : (c.ownedBy t).regions.values = c.regions.values.map (·.ownedBy t) := by
    show (c.regions.rows.map _).map _ = (c.regions.rows.map _).map _
    rw [List.map_map, List.map_map]
    rfl
  rw [ofContents, hvalues]
  rfl

/-- Who owns a region is not written. -/
theorem toJson_ownedBy (db : Database) (t : TraceId) : (db.ownedBy t).toJson = db.toJson := by
  have hregions : (db.ownedBy t).regions.map Region.toJson = db.regions.map Region.toJson :=
    List.map_map
  rw [toJson, hregions]
  rfl

end Database

/-! ## 3. What does not depend on the owner -/

/-- The regions alive at a snap are the same, whoever owns them, and in the same order. -/
theorem Contents.regionsAt_ownedBy (c : Contents) (t : TraceId) (s : Snap) :
    (c.ownedBy t).regionsAt s = (c.regionsAt s).map (·.ownedBy t) := by
  have hvalues : (c.ownedBy t).regions.values = c.regions.values.map (·.ownedBy t) :=
    congrArg Database.regions (Database.ofContents_ownedBy c t)
  have horder : ∀ r ∈ c.regions.values.filter (·.isAliveAt s),
      ∀ q ∈ c.regions.values.filter (·.isAliveAt s),
        r.address_le q = (r.ownedBy t).address_le (q.ownedBy t) := fun r _ q _ => rfl
  rw [regionsAt, regionsAt, hvalues, aliveAt, aliveAt, List.filter_map, List.map_mergeSort horder]
  rfl

theorem Contents.query_ownedBy (c : Contents) (t : TraceId) (s : Snap) :
    (c.ownedBy t).query s = c.query s := by
  rw [query, regionsAt_ownedBy, List.map_map]
  rfl

/-! ## 4. The trace that starts from what is loaded -/

namespace Counters

variable {c : Contents} {k : Counters}

/-- The region number that is handed out first is above every one in use. -/
theorem lt_of_takeRegion?_above {new : RegionId} (h : (above c).takeRegion? = some (new, k))
    {id : RegionId} (hid : c.Holds (.region id)) : id.raw < new.raw := by
  obtain ⟨-, hnot, -, -⟩ := takeRegion?_spec h
  obtain ⟨hfree, hle⟩ := not_or.mp hnot
  rcases covers_above hid with hreserved | hlt
  · exact absurd hreserved hfree
  · exact UInt64.lt_of_lt_of_le hlt (UInt64.not_lt.mp hle)

/-- The mapping number that is handed out first is above every one in use. -/
theorem lt_of_takeMapping?_above {new : MappingId} (h : (above c).takeMapping? = some (new, k))
    {id : MappingId} (hid : c.Holds (.mapping id)) : id.raw < new.raw := by
  obtain ⟨-, hnot, -, -⟩ := takeMapping?_spec h
  obtain ⟨hfree, hle⟩ := not_or.mp hnot
  rcases covers_above hid with hreserved | hlt
  · exact absurd hreserved hfree
  · exact UInt64.lt_of_lt_of_le hlt (UInt64.not_lt.mp hle)

end Counters

/-- **One trace is another without its history**: every record is the same but for the owner,
nothing can be undone or redone, numbers are handed out above those in use, and it is saved as the
other is. -/
structure Trace.Renews (t t' : Trace) : Prop where
  regions : ∀ id, t'.contents.region? id = (t.contents.region? id).map (·.ownedBy t'.id)
  mappings : ∀ id, t'.contents.mapping? id = t.contents.mapping? id
  queries : ∀ s, t'.contents.query s = t.contents.query s
  nothingToUndo : t'.undo = (t', .refused .nothingToUndo)
  nothingToRedo : t'.redo = (t', .refused .nothingToRedo)
  regionNumbers : ∀ new k, t'.counters.takeRegion? = some (new, k) →
    ∀ id r, t'.contents.region? id = some r → id.raw < new.raw
  mappingNumbers : ∀ new k, t'.counters.takeMapping? = some (new, k) →
    ∀ id m, t'.contents.mapping? id = some m → id.raw < new.raw
  captured : Database.ofContents t'.contents = (Database.ofContents t.contents).ownedBy t'.id
  savedText : t'.savedText = t.savedText

/-- A trace that starts from the contents of another renews it. -/
theorem Trace.renews_ofContents (t : Trace) (id : TraceId) (name : String) (limit : Nat) :
    t.Renews (.ofContents id name t.contents limit) where
  regions := t.contents.region?_ownedBy id
  mappings := t.contents.mapping?_ownedBy id
  queries := t.contents.query_ownedBy id
  nothingToUndo := rfl
  nothingToRedo := rfl
  regionNumbers new k htaken rid r hr :=
    Counters.lt_of_takeRegion?_above htaken (Contents.holds_ownedBy.mp ⟨r, hr⟩)
  mappingNumbers new k htaken mid m hm := Counters.lt_of_takeMapping?_above htaken ⟨m, hm⟩
  captured := Database.ofContents_ownedBy t.contents id
  savedText := by
    show (Database.ofContents (t.contents.ownedBy id)).toJson.pretty = _
    rw [Database.ofContents_ownedBy, Database.toJson_ownedBy]
    rfl

/-- **Nothing is lost by saving and loading a trace**, whatever it was asked to do: what is saved of
it is accepted, and every trace that starts from what was loaded is the same one without its
history. -/
theorem saved_traces_renewed {c : Contents} (hc : c.Attained) (id : TraceId) (name : String)
    (limit : Nat) (calls : List Trace.Call) :
    let t := (Trace.ofContents id name c limit).calls calls
    ∃ loaded, (Database.ofContents t.contents).toContents = .ok loaded ∧
      ∀ id' name' limit', t.Renews (.ofContents id' name' loaded limit') := by
  intro t
  refine ⟨t.contents, Database.toContents_ofContents (attained_of_calls hc id name limit calls), ?_⟩
  exact fun id' name' limit' => t.renews_ofContents id' name' limit'

/-- A life with numbers that are taken and never used, a transaction that is given up, and the end
of one region undone and redone. -/
def shelvedCalls : List Trace.Call :=
  [.step (.begin "map"),
   .step (.edit ⟨0⟩ (.createRegion "text" ⟨0x11000, 0x11fff, by decide⟩ 0 ⟨true, false, true⟩)),
   .step (.edit ⟨0⟩ (.addMapping ⟨0x11000, 0x11fff, by decide⟩ (.since 0) "echo"
     ⟨"ram", 0xfffffffffffffff0⟩)),
   .step (.edit ⟨0⟩ (.addMapping ⟨0x11000, 0x11fff, by decide⟩ (.since 0) "echo" ⟨"ram", 0x400⟩)),
   .step (.commit ⟨0⟩), .step (.begin "given up"),
   .step (.edit ⟨1⟩ (.createRegion "lost" ⟨0x12000, 0x12fff, by decide⟩ 0 ⟨true, true, false⟩)),
   .step (.abort ⟨1⟩), .step (.begin "replace"), .step (.edit ⟨2⟩ (.destroyRegion ⟨0⟩ 10)),
   .step (.edit ⟨2⟩ (.createRegion "data" ⟨0x11800, 0x127ff, by decide⟩ 10 ⟨true, true, false⟩)),
   .step (.commit ⟨2⟩), .step .undo, .step .redo]

/-- What is left of it is loaded again, and numbers go on after those in use and not after those
that were taken. -/
theorem shelved_renewed :
    let t := (Trace.ofContents ⟨1⟩ "echo" .empty 50).calls shelvedCalls
    t.contents.regions.keys = [⟨0⟩, ⟨2⟩] ∧ t.contents.mappings.keys = [⟨1⟩] ∧
      ∃ loaded, (Database.ofContents t.contents).toContents = .ok loaded ∧
        t.Renews (.ofContents ⟨2⟩ "echo" loaded 50) := by
  intro t
  obtain ⟨loaded, hread, hrenews⟩ := saved_traces_renewed .empty ⟨1⟩ "echo" 50 shelvedCalls
  exact ⟨by decide, by decide, loaded, hread, hrenews ⟨2⟩ "echo" 50⟩

end RegionAtlas
