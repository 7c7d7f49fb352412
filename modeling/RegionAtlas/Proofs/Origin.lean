/-
  Origins — the contents that there can be, and one induction for what holds of them all.

  Contents are never made up: a trace starts from empty contents, from a database that was read and
  checked, or from the contents of another trace, and after that only commits, undo and redo put
  contents in force (`Contents.Attained`).

  A property of contents is *lasting* (`Lasting`) if empty contents have it, the checks of a
  database keep it, and every operation that an edit can stage keeps it.  Undo and redo are not
  among the cases: they only return to contents that were in force before, which is what the
  timeline is for.  A lasting property holds of all contents there can be (`Lasting.attained`) and
  of all that a run visits (`Lasting.visits`).

  The first use of the scheme is by hand, since the register of a run needs it: regions are stored
  under their own numbers (`keyed_of_attained`).
-/
import RegionAtlas.Archive.Database
import RegionAtlas.Proofs.Journal

namespace RegionAtlas

/-- **Contents that a trace can start from**, or have after any run. -/
inductive Contents.Attained : Contents → Prop where
  | empty : Attained .empty
  | loaded {db : Database} {c : Contents} (read : db.toContents = .ok c) : Attained c
  | copied {c : Contents} (id : TraceId) (name : String) (limit : Nat) (steps : List Trace.Step)
      (start : Attained c) : Attained ((Trace.ofContents id name c limit).run steps).contents

/-! ## Databases -/

namespace Database

/-- What is kept by each record that is added is kept by a list of them. -/
theorem foldlM_induct {α : Type} {P : Contents → Prop}
    {add : Contents → α → Except DatabaseFault Contents}
    (hadd : ∀ c a c', P c → add c a = .ok c' → P c') {c c' : Contents} {records : List α}
    (hstart : P c) (h : records.foldlM add c = .ok c') : P c' := by
  induction records generalizing c with
  | nil =>
    cases h
    exact hstart
  | cons a rest ih =>
    rw [List.foldlM_cons] at h
    cases hadded : add c a with
    | error fault =>
      rw [hadded] at h
      cases h
    | ok c₁ =>
      rw [hadded] at h
      exact ih (hadd c a c₁ hstart hadded) h

/-- A region that is accepted has a number of its own, and nothing conflicts with it. -/
theorem addRegion_spec {c c' : Contents} {r : Region} (h : addRegion c r = .ok c') :
    r.id.raw ≠ reservedId ∧ c.regions.contains r.id = false ∧
      c.regionConflict? r.range r.lifespan = none ∧ c' = c.insertRegion r := by
  unfold addRegion at h
  split at h
  · cases h
  · next hreserved =>
    split at h
    · cases h
    · next hnew =>
      split at h
      · cases h
      · next hfree =>
        cases h
        exact ⟨hreserved, Bool.not_eq_true _ ▸ hnew, hfree, rfl⟩

/-- A mapping that is accepted has a number of its own and sides that reach equally far, and
nothing conflicts with it. -/
theorem addMapping_spec {c c' : Contents} {m : Mapping} (h : addMapping c m = .ok c') :
    m.id.raw ≠ reservedId ∧ c.mappings.contains m.id = false ∧ m.isConsistent = true ∧
      c.mappingConflict? m = none ∧ c' = c.insertMapping m := by
  unfold addMapping at h
  split at h
  · cases h
  · next hreserved =>
    split at h
    · cases h
    · next hnew =>
      split at h
      · next hconsistent =>
        split at h
        · cases h
        · next hfree =>
          cases h
          exact ⟨hreserved, Bool.not_eq_true _ ▸ hnew, hconsistent, hfree, rfl⟩
      · cases h

/-- What empty contents have and both kinds of records keep, the contents of a database have. -/
theorem toContents_induct {P : Contents → Prop} {db : Database} {c : Contents}
    (hempty : P .empty) (hregion : ∀ c r c', P c → addRegion c r = .ok c' → P c')
    (hmapping : ∀ c m c', P c → addMapping c m = .ok c' → P c')
    (h : db.toContents = .ok c) : P c := by
  unfold toContents at h
  cases hregions : db.regions.foldlM addRegion .empty with
  | error fault =>
    rw [hregions] at h
    cases h
  | ok c₁ =>
    rw [hregions] at h
    exact foldlM_induct hmapping (foldlM_induct hregion hempty hregions) h

end Database

/-! ## Numbers -/

theorem keyed_insertRegion {c : Contents} (h : c.Keyed) (r : Region) :
    (c.insertRegion r).Keyed := by
  intro id r' hr'
  rw [Contents.region?_insertRegion] at hr'
  split at hr'
  · next hid =>
    cases hr'
    exact hid
  · exact h id r' hr'

/-- **Every region is stored under its own number**, in all contents there can be. -/
theorem keyed_of_attained {c : Contents} (h : c.Attained) : c.Keyed := by
  induction h with
  | empty =>
    intro id r hr
    cases hr
  | loaded hread =>
    refine Database.toContents_induct (P := Contents.Keyed) ?_ (fun c r c' hc hadd => ?_)
      (fun c m c' hc hadd => ?_) hread
    · intro id r hr
      cases hr
    · obtain ⟨-, -, -, rfl⟩ := Database.addRegion_spec hadd
      exact keyed_insertRegion hc r
    · obtain ⟨-, -, -, -, rfl⟩ := Database.addMapping_spec hadd
      exact hc
  | @copied c id name limit steps _ hkeyed =>
    obtain ⟨ht, -⟩ := course_ofContents id name c limit steps
    obtain ⟨R, hj⟩ := journaled_ofContents id name c limit hkeyed steps
    exact fun rid r hr => ((hj.regions _ ht.visits).id_owner hr).1

/-! ## Lasting properties -/

/-- **A property that no way of making contents loses.** -/
structure Lasting (P : Contents → Prop) : Prop where
  empty : P .empty
  ownedBy : ∀ c id, P c → P (c.ownedBy id)
  region : ∀ c r c', P c → Database.addRegion c r = .ok c' → P c'
  mapping : ∀ c m c', P c → Database.addMapping c m = .ok c' → P c'
  operation : ∀ {owner : TraceId} (R : Register owner) (p : Edit × Staged) (op : Operation)
    (c c' : Contents) (change : Change), Records R p op → c.StemsFrom R → P c →
    Operation.Fits c op c' change → P c'

namespace Lasting

variable {P : Contents → Prop}

/-- The operations of an open transaction keep a lasting property. -/
theorem carryOut (h : Lasting P) {owner : TraceId} {R : Register owner}
    {log : List (Edit × Staged)} {ops : List Operation} {c c' : Contents}
    (hlog : List.Forall₂ (Records R) log ops) (hstems : c.StemsFrom R) (hc : P c)
    (hcarried : Operation.carryOut c ops = .ok c') : P c' := by
  refine (Operation.carryOut_induct (P := fun c => c.StemsFrom R ∧ P c)
    (fun op hop c₁ c₂ change h₁ hfits => ?_) ⟨hstems, hc⟩ hcarried).2
  obtain ⟨p, -, hrecords⟩ := exists_records_of_mem hlog hop
  exact ⟨stemsFrom_of_fits hrecords h₁.1 hfits,
    h.operation R p op c₁ c₂ change hrecords h₁.1 h₁.2 hfits⟩

/-- **What a step reaches has every lasting property that what was there had.** -/
theorem step (h : Lasting P) {owner : TraceId} {R : Register owner}
    {log : DraftId → List (Edit × Staged)} {t t' : Trace} {T T' : Timeline} {s : Trace.Step}
    (hj : Journaled R log t T) (ht : Tells t.contents t.history T)
    (hadvance : Advance t T s t' T') (hT : ∀ c, T.Visits c → P c) :
    ∀ c, T'.Visits c → P c := by
  intro c hc
  -- only a commit reaches contents that were not reached before
  cases hadvance with
  | quiet _ _ _ hreached _ => exact hT c (hreached c hc)
  | begun _ hsame _ => exact hT c (hsame ▸ hc)
  | staged _ _ _ _ hsame _ => exact hT c (hsame ▸ hc)
  | @committed d tx c' hd hcarried _ _ _ hreached _ =>
    rcases hreached c hc with hold | rfl
    · exact hT c hold
    · exact h.carryOut (hj.written d tx hd) (hj.regions _ ht.visits) (hT _ ht.visits) hcarried

/-- A lasting property of what a trace can reach holds along its runs. -/
theorem along (h : Lasting P) {owner : TraceId} {R : Register owner}
    {log : DraftId → List (Edit × Staged)} {t : Trace} {T : Timeline}
    (hj : Journaled R log t T) (ha : Apart t T) (ht : Tells t.contents t.history T)
    (hT : ∀ c, T.Visits c → P c) (steps : List Trace.Step) :
    ∀ c, (T.along t steps).Visits c → P c := by
  induction steps generalizing R log t T with
  | nil => exact hT
  | cons s rest ih =>
    obtain ⟨ht', hadvance⟩ := course_step ht ha s
    obtain ⟨R₁, -, h₁⟩ := journaled_step hj ha ht (t.id_step s) hadvance
    exact ih h₁ (apart_step ha ht hadvance) ht' (h.step hj ht hadvance hT)

/-- **A lasting property holds of all contents that a run visits**, if it holds of those the run
starts from. -/
theorem visits (h : Lasting P) {c : Contents} (hkeyed : c.Keyed) (hc : P c) (id : TraceId)
    (name : String) (limit : Nat) (steps : List Trace.Step) :
    ∀ c', ((Timeline.start (c.ownedBy id) limit).along (.ofContents id name c limit) steps).Visits
      c' → P c' := by
  refine h.along (journaled_start id name c limit hkeyed) (apart_start id name c limit)
    (tells_start (c.ownedBy id) limit) (fun c' hc' => ?_) steps
  rcases hc' with rfl | ⟨e, he, -⟩
  · exact h.ownedBy c id hc
  · exact absurd he List.not_mem_nil

/-- A lasting property of what a run starts from holds of the contents after it. -/
theorem run (h : Lasting P) {c : Contents} (hkeyed : c.Keyed) (hc : P c) (id : TraceId)
    (name : String) (limit : Nat) (steps : List Trace.Step) :
    P ((Trace.ofContents id name c limit).run steps).contents := by
  obtain ⟨ht, -⟩ := course_ofContents id name c limit steps
  exact h.visits hkeyed hc id name limit steps _ ht.visits

/-- **A lasting property holds of all contents there can be.** -/
theorem attained (h : Lasting P) {c : Contents} (hc : c.Attained) : P c := by
  induction hc with
  | empty => exact h.empty
  | loaded hread => exact Database.toContents_induct h.empty h.region h.mapping hread
  | copied id name limit steps hstart ih =>
    exact h.run (keyed_of_attained hstart) ih id name limit steps

end Lasting

end RegionAtlas
