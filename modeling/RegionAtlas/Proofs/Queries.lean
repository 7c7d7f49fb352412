/-
  Queries — the regions alive at a snap, from the lowest address up, no two on one address.

  A query sorts by lowest address, and that alone would let one region begin inside another.  That
  it does not is the doing of the ledger:

    1. regions that share no address at a snap, sorted by lowest address, have gaps between them:
       if one began no higher than its predecessor ends, its lowest address would be in both
       (`gapped_aliveAt`);
    2. contents share none (`Contents.Exclusive`), at any snap of any run;
    3. nor does what a transaction shows, if its operations can be carried out, since then it sees
       what they lead to (`gapOrdered_query_of_carryOut`): there the regions it destroys have made
       room for those that it makes.

  The third asks that what it is laid over has not changed under the transaction.  Where that has,
  a region it moved into the room of another may be shown beside that other, come back to life.
-/
import Mathlib.Data.List.Infix
import RegionAtlas.Proofs.Exclusivity
import RegionAtlas.Proofs.Foresight

namespace RegionAtlas

/-! ## Covers -/

/-- **A gap-ordered cover of what is alive at a snap**: every region that is found and alive then is
listed, once and nothing else, and each ends below where the next begins. -/
structure GapOrdered (look : RegionId → Option Region) (s : Snap) (ids : List RegionId) : Prop where
  listed : ∀ id, id ∈ ids ↔ ∃ r, look id = some r ∧ r.isAliveAt s = true
  once : ids.Nodup
  gapped : (ids.filterMap look).Pairwise fun r q => r.range.max < q.range.min

section Sorted

variable {regions : List Region} {s : Snap}

theorem nodup_ids_aliveAt (hids : (regions.map (·.id)).Nodup) :
    ((aliveAt regions s).map (·.id)).Nodup := by
  have halive : ((regions.filter (·.isAliveAt s)).map (·.id)).Nodup :=
    hids.sublist (List.filter_sublist.map _)
  exact ((List.mergeSort_perm _ _).map _).nodup_iff.mpr halive

/-- **Sorted by lowest address, regions that share none have gaps between them.** -/
theorem gapped_aliveAt (hids : (regions.map (·.id)).Nodup)
    (hapart : ∀ r ∈ regions, ∀ q ∈ regions, r.isAliveAt s = true → q.isAliveAt s = true →
      ∀ a, r.range.contains a = true → q.range.contains a = true → r.id = q.id) :
    (aliveAt regions s).Pairwise fun r q => r.range.max < q.range.min := by
  have hpairs := (sorted_aliveAt regions s).and (List.pairwise_map.mp (nodup_ids_aliveAt hids))
  refine hpairs.imp_of_mem ?_
  rintro r q hr hq ⟨hle, hne⟩
  obtain ⟨hr, hralive⟩ := mem_aliveAt.mp hr
  obtain ⟨hq, hqalive⟩ := mem_aliveAt.mp hq
  by_contra hnot
  -- the lowest address of the second would lie in both
  have hinside : r.range.contains q.range.min = true := by
    rw [AddressRange.contains_iff]
    rw [Region.address_le_iff] at hle
    simp only [UInt64.le_iff_toNat_le, UInt64.lt_iff_toNat_lt] at hnot ⊢
    omega
  exact hne (hapart r hr q hq hralive hqalive _ hinside q.range.contains_min)

variable {look : RegionId → Option Region}

/-- What is listed by number is found again. -/
theorem filterMap_aliveAt (hfound : ∀ r ∈ regions, look r.id = some r) :
    ((aliveAt regions s).map (·.id)).filterMap look = aliveAt regions s := by
  rw [List.filterMap_map]
  have hsome : ∀ r ∈ aliveAt regions s, (look ∘ (·.id)) r = some r := fun r hr =>
    hfound r (mem_aliveAt.mp hr).1
  rw [List.filterMap_congr hsome, List.filterMap_some]

/-- **The regions of a list that are alive cover in order**, if they are what is found and share no
address. -/
theorem gapOrdered_aliveAt (hids : (regions.map (·.id)).Nodup)
    (hfound : ∀ id r, look id = some r ↔ r ∈ regions ∧ r.id = id)
    (hapart : ∀ r ∈ regions, ∀ q ∈ regions, r.isAliveAt s = true → q.isAliveAt s = true →
      ∀ a, r.range.contains a = true → q.range.contains a = true → r.id = q.id) :
    GapOrdered look s ((aliveAt regions s).map (·.id)) := by
  constructor
  · intro id
    rw [List.mem_map]
    simp only [mem_aliveAt, hfound]
    constructor
    · rintro ⟨r, ⟨hr, halive⟩, hid⟩
      exact ⟨r, ⟨hr, hid⟩, halive⟩
    · rintro ⟨r, ⟨hr, hid⟩, halive⟩
      exact ⟨r, ⟨hr, halive⟩, hid⟩
  · exact nodup_ids_aliveAt hids
  · rw [filterMap_aliveAt fun r hr => (hfound r.id r).mpr ⟨hr, rfl⟩]
    exact gapped_aliveAt hids hapart

end Sorted

/-! ## Contents -/

namespace Contents

variable {c : Contents} {s : Snap}

/-- **A query of contents covers in order.** -/
theorem gapOrdered_query (hkeyed : c.Keyed) (hexclusive : c.Exclusive) :
    GapOrdered c.region? s (c.query s) := by
  have hfound : ∀ id r, c.region? id = some r ↔ r ∈ c.regions.values ∧ r.id = id := by
    intro id r
    rw [mem_regions]
    constructor
    · intro h
      exact ⟨⟨id, h⟩, hkeyed id r h⟩
    · rintro ⟨⟨j, h⟩, rfl⟩
      rwa [hkeyed j r h]
  refine gapOrdered_aliveAt hkeyed.nodup_ids hfound ?_
  intro r hr q hq hralive hqalive a hra hqa
  exact hexclusive s a r.id q.id r q ((hfound _ r).mpr ⟨hr, rfl⟩) ((hfound _ q).mpr ⟨hq, rfl⟩)
    hralive hqalive hra hqa

/-- Looking up what a query lists gives the regions themselves, in the same order. -/
theorem filterMap_query (hkeyed : c.Keyed) : (c.query s).filterMap c.region? = c.regionsAt s := by
  refine filterMap_aliveAt fun r hr => ?_
  obtain ⟨id, h⟩ := mem_regions.mp hr
  rwa [hkeyed id r h]

/-- **Those that intersect some ranges** are those that share an address with one of them. -/
theorem mem_regionsIntersecting {ranges : List AddressRange} {r : Region} :
    r ∈ c.regionsIntersecting s ranges ↔ r ∈ c.regionsAt s ∧
      ∃ range ∈ ranges, ∃ a, r.range.contains a = true ∧ range.contains a = true := by
  rw [regionsIntersecting, List.mem_filter, AddressRange.intersectsAny, List.any_eq_true]
  simp only [AddressRange.intersects_iff_meet]

end Contents

/-! ## Transactions -/

/-- **What a transaction lists covers in order**, if its operations can be carried out. -/
theorem gapOrdered_query_of_carryOut {owner : TraceId} {R : Register owner}
    {log : DraftId → List (Edit × Staged)} {t : Trace} {T : Timeline} {d : DraftId}
    {tx : Transaction} {c : Contents} (hj : Journaled R log t T)
    (ht : Tells t.contents t.history T) (hd : t.draft? d = some tx)
    (hcarried : Operation.carryOut t.contents tx.operations = .ok c)
    (hsees : tx.Sees t.contents c) (hexclusive : t.contents.Exclusive) (s : Snap) :
    GapOrdered (tx.region? t.contents) s (tx.query t.contents s) := by
  have hstems : t.contents.StemsFrom R := hj.regions _ ht.visits
  have hkeyed : t.contents.Keyed := fun id r hr => (hstems.id_owner hr).1
  have hstems' : c.StemsFrom R := stemsFrom_of_carryOut (hj.written d tx hd) hstems hcarried
  have hkeyed' : c.Keyed := fun id r hr => (hstems'.id_owner hr).1
  have hown : ∀ id r, tx.regions.find? id = some r → r.id = id := by
    intro id r hr
    rw [(hj.shown d tx hd id r hr).1.1]
    exact R.id_made id
  have hexclusive' : c.Exclusive :=
    exclusive_lasting.carryOut (hj.written d tx hd) hstems hexclusive hcarried
  rw [funext hsees.regions, Transaction.query_of_sees hsees hkeyed hkeyed' hown]
  exact Contents.gapOrdered_query hkeyed' hexclusive'

/-- **Queries cover what is alive from the lowest address up.**  On every trace that a run can lead
to and at every snap: a query lists each region that is alive exactly once and nothing else, and
each ends below where the next begins; the regions themselves come in the same order; of these the
ones that intersect some ranges are left in their order, namely those that share an address with one
of the ranges.  The same cover is given by the query of an open transaction, of what that
transaction sees, if the contents have not changed since it was begun. -/
theorem queries_cover_alive {c : Contents} (hc : c.Attained) (id : TraceId) (name : String)
    (limit : Nat) (steps : List Trace.Step) (s : Snap) :
    let opened := Trace.ofContents id name c limit
    let t := opened.run steps
    GapOrdered t.contents.region? s (t.contents.query s) ∧
    (t.contents.query s).filterMap t.contents.region? = t.contents.regionsAt s ∧
    (∀ ranges, (t.contents.regionsIntersecting s ranges).Sublist (t.contents.regionsAt s) ∧
      ∀ r, r ∈ t.contents.regionsIntersecting s ranges ↔ r ∈ t.contents.regionsAt s ∧
        ∃ range ∈ ranges, ∃ a, r.range.contains a = true ∧ range.contains a = true) ∧
    ∀ before opening since tx, steps = before ++ .begin opening :: since →
      t.draft? ⟨(opened.run before).nextDraft⟩ = some tx →
      (∀ p, p <+: since → (opened.run (before ++ .begin opening :: p)).contents =
        (opened.run before).contents) →
      GapOrdered (tx.region? t.contents) s (tx.query t.contents s) := by
  intro opened t
  have hkeyed₀ : c.Keyed := keyed_of_attained hc
  have hkeyed : t.contents.Keyed := keyed_of_attained (.copied id name limit steps hc)
  have hexclusive : t.contents.Exclusive :=
    exclusive_lasting.attained (.copied id name limit steps hc)
  refine ⟨Contents.gapOrdered_query hkeyed hexclusive, Contents.filterMap_query hkeyed,
    fun ranges => ⟨List.filter_sublist, fun r => Contents.mem_regionsIntersecting⟩, ?_⟩
  intro before opening since tx hsteps hd hsame
  have hundisturbed : t.Undisturbed ⟨(opened.run before).nextDraft⟩ := by
    subst hsteps
    exact undisturbed_since hc id name limit before since opening hsame
  obtain ⟨c', hcarried, hsees⟩ := hundisturbed tx hd
  obtain ⟨ht, -⟩ := course_ofContents id name c limit steps
  obtain ⟨R, hj⟩ := journaled_ofContents id name c limit hkeyed₀ steps
  exact gapOrdered_query_of_carryOut hj ht hd hcarried hsees hexclusive s

/-- A region that begins where another could grow to. -/
def tenantSteps : List Trace.Step :=
  [.begin "map",
   .edit ⟨0⟩ (.createRegion "heap" ⟨0xa1000, 0xa17ff, by decide⟩ 3 ⟨true, true, false⟩),
   .edit ⟨0⟩ (.createRegion "text" ⟨0xa2000, 0xa2fff, by decide⟩ 0 ⟨true, false, true⟩),
   .commit ⟨0⟩]

/-- It moves, to addresses of which some were its own. -/
def movingSteps : List Trace.Step :=
  [.edit ⟨1⟩ (.destroyRegion ⟨1⟩ 10),
   .edit ⟨1⟩ (.createRegion "text" ⟨0xa1900, 0xa28ff, by decide⟩ 10 ⟨true, false, true⟩)]

/-- Everybody sees it where it was, and the transaction that moves it where it will be. -/
theorem moving_covers_alive :
    let t := (Trace.ofContents ⟨1⟩ "echo" .empty 50).run
      (tenantSteps ++ .begin "move" :: movingSteps)
    Contents.Attained .empty ∧ ∃ tx, t.draft? ⟨1⟩ = some tx ∧
      GapOrdered t.contents.region? 10 [⟨0⟩, ⟨1⟩] ∧
      GapOrdered (tx.region? t.contents) 10 [⟨0⟩, ⟨2⟩] := by
  intro t
  have hopen : (t.draft? ⟨1⟩).isSome = true := by decide
  obtain ⟨tx, hd⟩ := Option.isSome_iff_exists.mp hopen
  have hsame : ∀ p ∈ movingSteps.inits, ((Trace.ofContents ⟨1⟩ "echo" .empty 50).run
      (tenantSteps ++ .begin "move" :: p)).contents =
        ((Trace.ofContents ⟨1⟩ "echo" .empty 50).run tenantSteps).contents := by decide
  obtain ⟨hcommitted, -, -, hstaged⟩ := queries_cover_alive .empty ⟨1⟩ "echo" 50
    (tenantSteps ++ .begin "move" :: movingSteps) 10
  have hcover := hstaged tenantSteps "move" movingSteps tx rfl hd fun p hp =>
    hsame p ((List.mem_inits p movingSteps).mpr hp)
  have hquery : t.contents.query 10 = [⟨0⟩, ⟨1⟩] := by
    rw [Contents.query, Contents.regionsAt, aliveAt_of_sorted (by decide)]
    decide
  have hvisible : (t.draft? ⟨1⟩).map (fun tx => tx.visibleRegions t.contents) = some
      [⟨⟨0⟩, ⟨1⟩, "heap", ⟨0xa1000, 0xa17ff, by decide⟩, ⟨true, true, false⟩, .since 3⟩,
       ⟨⟨1⟩, ⟨1⟩, "text", ⟨0xa2000, 0xa2fff, by decide⟩, ⟨true, false, true⟩,
         ⟨0, some 10, by rintro _ ⟨⟩; decide⟩⟩,
       ⟨⟨2⟩, ⟨1⟩, "text", ⟨0xa1900, 0xa28ff, by decide⟩, ⟨true, false, true⟩, .since 10⟩] := by
    decide +kernel
  rw [hd, Option.map_some] at hvisible
  have hstagedQuery : tx.query t.contents 10 = [⟨0⟩, ⟨2⟩] := by
    rw [Transaction.query, Option.some.inj hvisible, aliveAt_of_sorted (by decide)]
    decide
  exact ⟨.empty, tx, hd, hquery ▸ hcommitted, hstagedQuery ▸ hcover⟩

end RegionAtlas
