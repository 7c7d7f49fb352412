/-
  Views — what an open transaction sees is what its operations would make of the contents.

  There are two ways to check an operation.  Staging checks it against the committed contents with
  the transaction's own edits laid over them; committing checks it against contents to which the
  operations before it have been applied.  They come to the same because they look at the same
  regions and mappings (`Transaction.Sees`), if not in the same order:

    1. a transaction that has staged nothing sees the contents as they are (`sees_start`);
    2. an edit that is staged fits what the transaction sees, and what it sees afterwards is what
       fitting leads to (`sees_of_stages`).

  Hence a transaction whose contents never change under it cannot be refused: step by step, all
  that it staged can be carried out (`undisturbed_run`).
-/
import RegionAtlas.Proofs.Journal

namespace RegionAtlas

open Change (Subject)

namespace Transaction

variable {tx tx' : Transaction} {owner : TraceId} {c c' : Contents}

/-! ## The view -/

/-- **Over some contents, a transaction sees others**: the same region under every number, and the
same mappings. -/
structure Sees (tx : Transaction) (c c' : Contents) : Prop where
  regions : ∀ id, tx.region? c id = c'.region? id
  mappings : ∀ m, m ∈ tx.visibleMappings c ↔ m ∈ c'.mappings.values

/-- The regions listed are the regions found, since contents list a region that is hidden under the
number it is hidden by. -/
theorem mem_visibleRegions (hkeyed : c.Keyed) {r : Region} :
    r ∈ tx.visibleRegions c ↔ ∃ id, tx.region? c id = some r := by
  rw [visibleRegions, List.mem_append, List.mem_filter, Contents.mem_regions, Table.mem_values]
  constructor
  · rintro (⟨⟨id, hid⟩, hshown⟩ | ⟨id, hid⟩)
    · have hnone : tx.regions.find? id = none := by
        rw [hkeyed id r hid, Table.contains, Bool.not_eq_true', Option.isSome_eq_false_iff,
          Option.isNone_iff_eq_none] at hshown
        exact hshown
      refine ⟨id, ?_⟩
      rw [region?, hnone]
      exact hid
    · refine ⟨id, ?_⟩
      rw [region?, hid]
  · rintro ⟨id, hid⟩
    unfold region? at hid
    split at hid
    · next r' hfound =>
      cases hid
      exact .inr ⟨id, hfound⟩
    · next hnone =>
      refine .inl ⟨⟨id, hid⟩, ?_⟩
      rw [hkeyed id r hid, Table.contains, hnone]
      rfl

/-- Both checks of a region agree. -/
theorem Sees.regionConflict? (h : tx.Sees c c') (hkeyed : c.Keyed) {range : AddressRange}
    {l : Lifespan} :
    tx.regionConflict? c range l = none ↔ c'.regionConflict? range l = none := by
  refine firstRegionConflict?_congr fun r => ?_
  rw [mem_visibleRegions hkeyed, Contents.mem_regions]
  simp only [h.regions]

/-- Both checks of a mapping agree. -/
theorem Sees.mappingConflict? (h : tx.Sees c c') {m : Mapping} :
    tx.mappingConflict? c m = none ↔ c'.mappingConflict? m = none :=
  firstMappingConflict?_congr h.mappings

/-! ## Staging moves the view -/

theorem sees_start (description : String) (c : Contents) : (start description).Sees c c where
  regions _ := rfl
  mappings m := by rw [visibleMappings, start, List.append_nil]

theorem region?_stageRegion (tx : Transaction) (c : Contents) (r : Region) (id : RegionId) :
    (tx.stageRegion r).region? c id = if r.id = id then some r else tx.region? c id := by
  rw [region?, find?_stageRegion]
  by_cases hid : r.id = id
  · rw [if_pos hid, if_pos hid]
  · rw [if_neg hid, if_neg hid]
    rfl

theorem region?_stageLifespan (tx : Transaction) (c : Contents) (id : RegionId) (r : Region)
    (new : Lifespan) (j : RegionId) :
    (tx.stageLifespan id r new).region? c j =
      if id = j then some (r.withLifespan new) else tx.region? c j := by
  rw [region?, find?_stageLifespan]
  by_cases hid : id = j
  · rw [if_pos hid, if_pos hid]
  · rw [if_neg hid, if_neg hid]
    rfl

theorem sees_stageRegion (h : tx.Sees c c') (r : Region) :
    (tx.stageRegion r).Sees c (c'.insertRegion r) where
  regions id := by rw [region?_stageRegion, Contents.region?_insertRegion, h.regions]
  mappings := h.mappings

theorem sees_stageLifespan (h : tx.Sees c c') {id : RegionId} {r : Region} (new : Lifespan)
    (hr : c'.region? id = some r) :
    (tx.stageLifespan id r new).Sees c (c'.setLifespan id new) where
  regions j := by
    rw [region?_stageLifespan, Contents.region?_setLifespan, h.regions]
    by_cases hid : id = j
    · rw [if_pos hid, if_pos hid, ← hid, hr]
      rfl
    · rw [if_neg hid, if_neg hid]
  mappings := h.mappings

/-- A mapping is added, and none is replaced. -/
theorem sees_stageMapping (h : tx.Sees c c') {m : Mapping} (hnew : c'.mapping? m.id = none) :
    (tx.stageMapping m).Sees c (c'.insertMapping m) where
  regions := h.regions
  mappings m' := by
    have hlist : m' ∈ (tx.stageMapping m).visibleMappings c ↔
        m' ∈ tx.visibleMappings c ∨ m' = m := by
      show m' ∈ c.mappings.values ++ (tx.mappings ++ [m]) ↔ _
      rw [← List.append_assoc, List.mem_append, List.mem_singleton]
      rfl
    rw [hlist, h.mappings, Contents.mem_mappings, Contents.mem_mappings]
    simp only [Contents.mapping?_insertMapping]
    constructor
    · rintro (⟨id, hid⟩ | rfl)
      · refine ⟨id, ?_⟩
        rw [if_neg, hid]
        rintro rfl
        rw [hnew] at hid
        cases hid
      · exact ⟨m'.id, if_pos rfl⟩
    · rintro ⟨id, hid⟩
      split at hid
      · cases hid
        exact .inr rfl
      · exact .inl ⟨id, hid⟩

/-- **What an edit stages fits what the transaction sees**, and takes the view along. -/
theorem sees_of_stages (h : tx.Sees c c') (hkeyed : c.Keyed) {k k' : Counters} {e : Edit}
    {what : Staged} (hstages : tx.Stages owner c k e k' tx' what)
    (hnew : ∀ id, what = .mapping id → c'.mapping? id = none) :
    ∃ op c'' change, tx'.operations = tx.operations ++ [op] ∧
      Operation.Fits c' op c'' change ∧ tx'.Sees c c'' := by
  cases hstages with
  | @region r _ _ hfree _ =>
    exact ⟨_, _, _, rfl, .createRegion ((h.regionConflict? hkeyed).mp hfree),
      sees_stageRegion h r⟩
  | @lifespan id _ r new hfound _ _ =>
    rw [h.regions] at hfound
    exact ⟨_, _, _, rfl, .setLifespan new hfound, sees_stageLifespan h new hfound⟩
  | @mapping m _ _ _ _ _ _ _ hfree =>
    exact ⟨_, _, _, rfl, .createMapping (h.mappingConflict?.mp hfree),
      sees_stageMapping h (hnew m.id rfl)⟩

end Transaction

/-! ## Undisturbed transactions -/

/-- All that a transaction has staged can be carried out, and leads to what it sees. -/
def Trace.Undisturbed (t : Trace) (d : DraftId) : Prop :=
  ∀ tx, t.draft? d = some tx →
    ∃ c, Operation.carryOut t.contents tx.operations = .ok c ∧ tx.Sees t.contents c

section Undisturbed

variable {t t' : Trace} {T T' : Timeline} {s : Trace.Step} {d : DraftId}

theorem undisturbed_begin (t : Trace) (description : String) :
    (t.begin description).1.Undisturbed ⟨t.nextDraft⟩ := by
  intro tx hd
  rw [Trace.draft?_begin, if_pos rfl] at hd
  cases hd
  exact ⟨t.contents, rfl, Transaction.sees_start description t.contents⟩

/-- A step that leaves the contents as they are disturbs no transaction. -/
theorem undisturbed_step (h : t.Undisturbed d) (ha : Apart t T)
    (ht : Tells t.contents t.history T) (hkeyed : t.contents.Keyed)
    (hadvance : Advance t T s t' T') (hsame : t'.contents = t.contents) : t'.Undisturbed d := by
  intro tx' hd'
  rw [hsame]
  cases hadvance with
  | quiet hkept _ _ _ _ => exact h tx' (hkept d tx' hd')
  | @begun description hopened _ _ =>
    rw [hopened, Trace.draft?_begin] at hd'
    split at hd'
    · cases hd'
      exact ⟨t.contents, rfl, Transaction.sees_start description t.contents⟩
    · exact h tx' hd'
  | @staged j e tx tx₁ what k _ hd hstages hmoved _ _ =>
    subst hmoved
    rcases Trace.draft?_staged hd' with ⟨rfl, rfl⟩ | ⟨-, hold⟩
    · obtain ⟨c, hcarried, hsees⟩ := h tx hd
      -- what the operations so far lead to holds covered numbers only
      have hnew : ∀ id, what = .mapping id → c.mapping? id = none := by
        intro id hid
        refine Contents.not_holds_mapping.mp fun hheld => ?_
        refine Transaction.not_covers_of_stages hstages hid ?_
        rcases (Operation.holds_carryOut hcarried).mp hheld with hbefore | hmade
        · exact ha.heldCovered t.contents ht.visits _ hbefore
        · exact ha.madeCovered j tx hd _ hmade
      obtain ⟨op, c', change, hops, hfits, hsees'⟩ :=
        Transaction.sees_of_stages hsees hkeyed hstages hnew
      refine ⟨c', ?_, hsees'⟩
      rw [hops, Operation.carryOut_append hcarried, Operation.carryOut_cons_of_fits hfits]
      rfl
    · exact h tx' hold
  | committed _ _ hkept _ _ _ _ => exact h tx' (hkept d tx' hd').2

/-- **A transaction whose contents never change under it stays undisturbed.** -/
theorem undisturbed_run (h : t.Undisturbed d) (ha : Apart t T)
    (ht : Tells t.contents t.history T) (hkeyed : t.contents.Keyed) {steps : List Trace.Step}
    (hsame : ∀ p, p <+: steps → (t.run p).contents = t.contents) : (t.run steps).Undisturbed d := by
  induction steps generalizing t T with
  | nil => exact h
  | cons s rest ih =>
    obtain ⟨ht', hadvance⟩ := course_step ht ha s
    have hstep : (t.step s).1.contents = t.contents := hsame [s] ⟨rest, rfl⟩
    refine ih (undisturbed_step h ha ht hkeyed hadvance hstep) (apart_step ha ht hadvance) ht'
      (hstep ▸ hkeyed) fun p hp => ?_
    rw [hstep]
    exact hsame (s :: p) (List.cons_prefix_cons.mpr ⟨rfl, hp⟩)

end Undisturbed

end RegionAtlas
