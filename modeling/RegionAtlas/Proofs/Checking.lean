/-
  Checking — what becomes of the entries of a proposal, one after the other.

  The check goes through the entries once and keeps going after a failure.  What it leaves behind in
  the trace is no more than a transaction that holds the mappings staged so far
  (`Trace.staging`), so an entry is judged by the committed contents, the counters and those
  mappings alone.  `Verdict` lists the cases, with everything that was checked on the way; `Judged`
  strings verdicts together, one for each entry (`check_eq`).

  From there on nothing mentions traces any more.  By induction along the verdicts

    * whatever is staged is sound (`Cleared`): each is the prospect of an entry that has one, it
      conflicts with nothing that is committed and with no other, and numbers ascend;
    * if no entry fails, then an entry is staged for each, in order (`Judged.map_fst`);
    * if the entries are committable, then none fails, as long as there are numbers to give
      (`Judged.failures_of_committable`).

  The condition for the whole proposal is about all pairs of entries, the check of an entry only
  about the entries before it.  They agree because conflicts go both ways.
-/
import Mathlib.Data.List.Forall2
import RegionAtlas.Proofs.Calls
import RegionAtlas.Proofs.Correspondence
import RegionAtlas.Proofs.Prospects

namespace RegionAtlas

/-! ## Tables -/

namespace Table

variable {κ α : Type} [Ord κ] [Std.TransOrd κ] [Std.LawfulEqOrd κ]

theorem insert_insert (t : Table κ α) (k : κ) (a b : α) :
    (t.insert k a).insert k b = t.insert k b := by
  refine ext_find? fun j => ?_
  rw [find?_insert, find?_insert, find?_insert]
  split <;> rfl

/-- Erasing what was inserted under a free key leaves the table as it was. -/
theorem erase_insert {t : Table κ α} {k : κ} (h : t.find? k = none) (a : α) :
    (t.insert k a).erase k = t := by
  refine ext_find? fun j => ?_
  rw [find?_erase, find?_insert]
  split
  · next heq =>
    rw [← Std.LawfulEqOrd.eq_of_compare heq, h]
  · rfl

end Table

/-! ## A trace with staged mappings -/

/-- A transaction that has staged mappings and nothing else. -/
def Transaction.ofMappings (description : String) (ms : List Mapping) : Transaction :=
  ⟨description, ms.map .createMapping, .empty, ms⟩

theorem Transaction.stageMapping_ofMappings (description : String) (ms : List Mapping)
    (m : Mapping) :
    (ofMappings description ms).stageMapping m = ofMappings description (ms ++ [m]) := by
  rw [stageMapping, ofMappings, ofMappings, List.map_append]
  rfl

namespace Trace

variable {t : Trace} {description : String} {k k' : Counters} {ms : List Mapping}

/-- A trace with one more transaction open, which has staged mappings, and other counters. -/
def staging (t : Trace) (description : String) (k : Counters) (ms : List Mapping) : Trace :=
  { t with
    counters := k
    drafts := t.drafts.insert ⟨t.nextDraft⟩ (.ofMappings description ms)
    nextDraft := t.nextDraft + 1 }

theorem draft?_staging (t : Trace) (description : String) (k : Counters) (ms : List Mapping) :
    (t.staging description k ms).draft? ⟨t.nextDraft⟩ = some (.ofMappings description ms) :=
  Table.find?_insert_self _ _ _

/-- What that transaction sees of regions is what is committed. -/
theorem region?_staging (t : Trace) (description : String) (k : Counters) (ms : List Mapping)
    (id : RegionId) :
    (((t.staging description k ms).draft? ⟨t.nextDraft⟩).bind fun tx =>
      tx.region? (t.staging description k ms).contents id) = t.contents.region? id := by
  rw [draft?_staging]
  rfl

/-- Aborting it leaves the trace as it was, except that numbers have been used. -/
theorem abort_staging (hfree : t.draft? ⟨t.nextDraft⟩ = none) (description : String) (k : Counters)
    (ms : List Mapping) :
    (t.staging description k ms).abort ⟨t.nextDraft⟩ =
      { t with counters := k, nextDraft := t.nextDraft + 1 } := by
  have hdrafts : (t.drafts.insert ⟨t.nextDraft⟩ (.ofMappings description ms)).erase ⟨t.nextDraft⟩ =
      t.drafts := Table.erase_insert hfree _
  rw [abort, staging]
  dsimp only
  rw [hdrafts]

section Edits

variable {range : AddressRange} {lifespan : Lifespan} {program : String} {place : StaticAddress}
  {m : Mapping}

/-- An edit that is refused changes the counters and nothing else. -/
theorem edit_staging_refused {e : Edit} {why : Refusal}
    (h : (Transaction.ofMappings description ms).edit t.id t.contents k e = ⟨k', .error why⟩) :
    (t.staging description k ms).edit ⟨t.nextDraft⟩ e =
      (t.staging description k' ms, .refused why) := by
  have hresult : ((Transaction.ofMappings description ms).edit (t.staging description k ms).id
      (t.staging description k ms).contents (t.staging description k ms).counters e).result =
        .error why := congrArg Transaction.Edited.result h
  have hrefused := edit_of_refused (t.draft?_staging description k ms) hresult
  have hcounters : ((Transaction.ofMappings description ms).edit (t.staging description k ms).id
      (t.staging description k ms).contents (t.staging description k ms).counters e).counters =
        k' := congrArg Transaction.Edited.counters h
  rw [hrefused, hcounters]
  rfl

/-- Mapping a range where no number is left. -/
theorem edit_staging_exhausted (hnone : k.takeMapping? = none) :
    (t.staging description k ms).edit ⟨t.nextDraft⟩ (.addMapping range lifespan program place) =
      (t.staging description k ms, .refused (.idsExhausted .mappings)) := by
  refine edit_staging_refused ?_
  simp only [Transaction.edit, Transaction.addMapping, hnone]

/-- Mapping a range where something is in the way. -/
theorem edit_staging_clash {id : MappingId} (htaken : k.takeMapping? = some (m.id, k'))
    (hfit : Mapping.fit m.id range lifespan program place = .ok m)
    (hclash : firstMappingConflict? (t.contents.mappings.values ++ ms) m = some id) :
    (t.staging description k ms).edit ⟨t.nextDraft⟩ (.addMapping range lifespan program place) =
      (t.staging description k' ms, .refused (.overlap range (.mapping id))) := by
  have hconflict :
      (Transaction.ofMappings description ms).mappingConflict? t.contents m = some id := hclash
  refine edit_staging_refused ?_
  simp only [Transaction.edit, Transaction.addMapping, htaken, hfit, hconflict]

/-- Mapping a range where nothing is in the way. -/
theorem edit_staging_free (htaken : k.takeMapping? = some (m.id, k'))
    (hfit : Mapping.fit m.id range lifespan program place = .ok m)
    (hfree : firstMappingConflict? (t.contents.mappings.values ++ ms) m = none) :
    (t.staging description k ms).edit ⟨t.nextDraft⟩ (.addMapping range lifespan program place) =
      (t.staging description k' (ms ++ [m]), .staged (.mapping m.id)) := by
  have hconflict : (Transaction.ofMappings description ms).mappingConflict? t.contents m = none :=
    hfree
  have hstages : (Transaction.ofMappings description ms).Stages t.id t.contents k
      (.addMapping range lifespan program place) k'
      ((Transaction.ofMappings description ms).stageMapping m) (.mapping m.id) :=
    .mapping htaken hfit hconflict
  have hedit := edit_of_stages (t := t.staging description k ms)
    (t.draft?_staging description k ms) hstages
  rw [hedit, Transaction.stageMapping_ofMappings]
  simp only [staging, Table.insert_insert]

end Edits

end Trace

/-! ## Verdicts -/

/-- Which entry each mapping was staged for, as the check notes it. -/
def madeFor (staged : List (Entry × Mapping)) : List Made :=
  staged.map fun p => ⟨p.2.id, p.1.region.id⟩

/-- **The verdict on an entry**, given the committed contents, the counters and what was staged for
the entries before it: the counters afterwards, and the mapping that is staged or why none is. -/
inductive Verdict (c : Contents) (image : Image) (s : Snap) (k : Counters)
    (staged : List (Entry × Mapping)) (e : Entry) : Counters → Except FailureReason Mapping → Prop
    where
  /-- The region is gone, or not alive. -/
  | staleRegion (dead : ¬ e.Alive c s) : Verdict c image s k staged e k (.error .staleRegion)
  /-- There is no block, or it is not in the image. -/
  | staleBlock (alive : e.Alive c s) (unlisted : ¬ e.Listed image) :
      Verdict c image s k staged e k (.error .staleBlock)
  /-- No number is left to be taken. -/
  | exhausted (alive : e.Alive c s) (listed : e.Listed image) (none : k.takeMapping? = none) :
      Verdict c image s k staged e k (.error (.invalid (.idsExhausted .mappings)))
  /-- Something that is committed or staged is in the way of its prospect. -/
  | clash {k' : Counters} {m : Mapping} {id : MappingId} {range : AddressRange}
      (alive : e.Alive c s) (listed : e.Listed image) (prospect : e.Prospect c image m)
      (taken : k.takeMapping? = some (m.id, k'))
      (first : firstMappingConflict? (c.mappings.values ++ staged.map (·.2)) m = some id) :
      Verdict c image s k staged e k'
        (.error (.ofRefusal (madeFor staged) (.overlap range (.mapping id))))
  /-- Its prospect is staged. -/
  | staged {k' : Counters} {m : Mapping} (alive : e.Alive c s) (listed : e.Listed image)
      (prospect : e.Prospect c image m) (taken : k.takeMapping? = some (m.id, k'))
      (free : firstMappingConflict? (c.mappings.values ++ staged.map (·.2)) m = none) :
      Verdict c image s k staged e k' (.ok m)

/-- The check with mappings staged, and failures noted. -/
def Trace.checked (t : Trace) (description : String) (k : Counters)
    (staged : List (Entry × Mapping)) (failures : List Failure) : Checked :=
  ⟨t.staging description k (staged.map (·.2)), madeFor staged, failures⟩

/-- **Every entry gets a verdict**, and the check acts on it. -/
theorem exists_verdict {t : Trace} {e : Entry} (hcurrent : e.Current t.contents) (image : Image)
    (s : Snap) (description : String) (k : Counters) (staged : List (Entry × Mapping))
    (failures : List Failure) :
    ∃ k' verdict, Verdict t.contents image s k staged e k' verdict ∧
      (t.checked description k staged failures).next ⟨t.nextDraft⟩ image s e =
        match verdict with
        | .ok m => t.checked description k' (staged ++ [(e, m)]) failures
        | .error reason =>
          t.checked description k' staged (failures ++ [⟨e.region.id, reason⟩]) := by
  have hregion := t.region?_staging description k (staged.map (·.2)) e.region.id
  have hfailed : ∀ reason, e.mappingEdit (t.contents.region? e.region.id) image s = .error reason →
      (t.checked description k staged failures).next ⟨t.nextDraft⟩ image s e =
        t.checked description k staged (failures ++ [⟨e.region.id, reason⟩]) := by
    intro reason hreason
    simp only [Checked.next, Trace.checked, hregion, hreason]
  have hasks := e.asks_mappingEdit hcurrent image s
  cases hedit : e.mappingEdit (t.contents.region? e.region.id) image s with
  | error reason =>
    rw [hedit] at hasks
    cases hasks with
    | staleRegion hdead => exact ⟨k, .error .staleRegion, .staleRegion hdead, hfailed _ hedit⟩
    | staleBlock halive hunlisted =>
      exact ⟨k, .error .staleBlock, .staleBlock halive hunlisted, hfailed _ hedit⟩
  | ok edit =>
    rw [hedit] at hasks
    cases hasks with
    | @mapping r b side halive hlisted hr hb hside =>
      cases htaken : k.takeMapping? with
      | none =>
        refine ⟨k, .error (.invalid (.idsExhausted .mappings)),
          .exhausted halive hlisted htaken, ?_⟩
        simp only [Checked.next, Trace.checked, hregion, hedit,
          Trace.edit_staging_exhausted htaken]
        rfl
      | some taken =>
        obtain ⟨id, k'⟩ := taken
        -- the mapping that the trace makes of what it is asked for is a prospect
        obtain ⟨side', m, hside', hfit, rfl, hmaps⟩ :=
          b.exists_maps r.range r.lifespan image.name id
        rw [hside] at hside'
        cases hside'
        have hprospect : e.Prospect t.contents image m := ⟨r, b, hr, hb, hmaps⟩
        cases hfirst : firstMappingConflict?
            (t.contents.mappings.values ++ staged.map (·.2)) m with
        | some other =>
          refine ⟨k', .error (.ofRefusal (madeFor staged) (.overlap side (.mapping other))),
            .clash halive hlisted hprospect htaken hfirst, ?_⟩
          simp only [Checked.next, Trace.checked, hregion, hedit,
            Trace.edit_staging_clash htaken hfit hfirst]
        | none =>
          refine ⟨k', .ok m, .staged halive hlisted hprospect htaken hfirst, ?_⟩
          simp only [Checked.next, Trace.checked, hregion, hedit,
            Trace.edit_staging_free htaken hfit hfirst, madeFor, List.map_append,
            List.map_cons, List.map_nil]

/-! ## All entries -/

/-- **Verdicts on entries in order**: from the counters and what is staged before them to the
counters and what is staged after them, with the failures on the way. -/
inductive Judged (c : Contents) (image : Image) (s : Snap) :
    Counters → List (Entry × Mapping) → List Entry →
      Counters → List (Entry × Mapping) → List Failure → Prop where
  | nil (k : Counters) (made : List (Entry × Mapping)) : Judged c image s k made [] k made []
  | staged {k k₁ k' : Counters} {before made : List (Entry × Mapping)} {failures : List Failure}
      {e : Entry} {m : Mapping} {rest : List Entry}
      (verdict : Verdict c image s k before e k₁ (.ok m))
      (later : Judged c image s k₁ (before ++ [(e, m)]) rest k' made failures) :
      Judged c image s k before (e :: rest) k' made failures
  | failed {k k₁ k' : Counters} {before made : List (Entry × Mapping)} {failures : List Failure}
      {e : Entry} {reason : FailureReason} {rest : List Entry}
      (verdict : Verdict c image s k before e k₁ (.error reason))
      (later : Judged c image s k₁ before rest k' made failures) :
      Judged c image s k before (e :: rest) k' made (⟨e.region.id, reason⟩ :: failures)

/-- The check goes through the entries by verdicts. -/
theorem exists_judged {t : Trace} {entries : List Entry}
    (hcurrent : ∀ e ∈ entries, e.Current t.contents) (image : Image) (s : Snap)
    (description : String) (k : Counters) (before : List (Entry × Mapping))
    (failures : List Failure) :
    ∃ k' made more, Judged t.contents image s k before entries k' made more ∧
      entries.foldl (fun x e => x.next ⟨t.nextDraft⟩ image s e)
          (t.checked description k before failures) =
        t.checked description k' made (failures ++ more) := by
  induction entries generalizing k before failures with
  | nil =>
    refine ⟨k, before, [], .nil k before, ?_⟩
    rw [List.foldl_nil, List.append_nil]
  | cons e rest ih =>
    have hrest : ∀ f ∈ rest, f.Current t.contents :=
      fun f hf => hcurrent f (List.mem_cons_of_mem _ hf)
    obtain ⟨k₁, verdict, hverdict, hnext⟩ :=
      exists_verdict (hcurrent e List.mem_cons_self) image s description k before failures
    rw [List.foldl_cons, hnext]
    cases verdict with
    | ok m =>
      obtain ⟨k', made, more, hjudged, hfold⟩ := ih hrest k₁ (before ++ [(e, m)]) failures
      exact ⟨k', made, more, .staged hverdict hjudged, hfold⟩
    | error reason =>
      obtain ⟨k', made, more, hjudged, hfold⟩ :=
        ih hrest k₁ before (failures ++ [⟨e.region.id, reason⟩])
      refine ⟨k', made, ⟨e.region.id, reason⟩ :: more, .failed hverdict hjudged, ?_⟩
      rw [hfold, List.append_assoc, List.singleton_append]

/-- **The check of a proposal is verdicts on its accepted entries.** -/
theorem check_eq {t : Trace} {p : Proposal} (hcurrent : ∀ e ∈ p.accepted, e.Current t.contents)
    (image : Image) (s : Snap) :
    ∃ k made failures, Judged t.contents image s t.counters [] p.accepted k made failures ∧
      p.check t image s = t.checked ("Map regions to " ++ p.program) k made failures :=
  exists_judged hcurrent image s ("Map regions to " ++ p.program) t.counters [] []

/-! ## What is staged -/

theorem Counters.takeMapping?_eq_some {k k' : Counters} {id : MappingId}
    (h : k.takeMapping? = some (id, k')) : id.raw = k.mapping ∧ k.mapping < k'.mapping := by
  rw [takeMapping?] at h
  split at h
  · cases h
  · next hfree =>
    cases h
    exact ⟨rfl, lt_succ hfree⟩

theorem exists_of_firstMappingConflict? {mappings : List Mapping} {m : Mapping} {id : MappingId}
    (h : firstMappingConflict? mappings m = some id) :
    ∃ n ∈ mappings, n.conflictsWith m = true := by
  obtain ⟨n, hn, -⟩ := Option.map_eq_some_iff.mp h
  refine ⟨n, List.mem_of_find?_eq_some hn, ?_⟩
  exact List.find?_some (p := fun n : Mapping => n.conflictsWith m) hn

/-- **What is staged is sound**: prospects of entries that have one, none in the way of anything
that is committed or of each other, with numbers that ascend and have all been taken. -/
structure Cleared (c : Contents) (image : Image) (s : Snap) (k : Counters)
    (made : List (Entry × Mapping)) : Prop where
  alive : ∀ p ∈ made, p.1.Alive c s
  listed : ∀ p ∈ made, p.1.Listed image
  prospect : ∀ p ∈ made, p.1.Prospect c image p.2
  free : ∀ p ∈ made, ∀ id n, c.mapping? id = some n → n.conflictsWith p.2 = false
  apart : made.Pairwise fun p q => p.2.conflictsWith q.2 = false
  ascending : made.Pairwise fun p q => p.2.id.raw < q.2.id.raw
  taken : ∀ p ∈ made, p.2.id.raw < k.mapping

section Sound

variable {c : Contents} {image : Image} {s : Snap} {k k' : Counters}
  {before made : List (Entry × Mapping)} {e : Entry} {entries : List Entry}
  {failures : List Failure}

theorem cleared_nil (c : Contents) (image : Image) (s : Snap) (k : Counters) :
    Cleared c image s k [] where
  alive _ hp := nomatch hp
  listed _ hp := nomatch hp
  prospect _ hp := nomatch hp
  free _ hp := nomatch hp
  apart := .nil
  ascending := .nil
  taken _ hp := nomatch hp

/-- Numbers are only ever taken. -/
theorem Verdict.mapping_le {verdict : Except FailureReason Mapping}
    (h : Verdict c image s k before e k' verdict) : k.mapping ≤ k'.mapping := by
  cases h with
  | staleRegion _ => exact UInt64.le_refl _
  | staleBlock _ _ => exact UInt64.le_refl _
  | exhausted _ _ _ => exact UInt64.le_refl _
  | clash _ _ _ htaken _ => exact UInt64.le_of_lt (Counters.takeMapping?_eq_some htaken).2
  | staged _ _ _ htaken _ => exact UInt64.le_of_lt (Counters.takeMapping?_eq_some htaken).2

/-- What is staged stays sound when numbers are taken. -/
theorem Cleared.mono (h : Cleared c image s k made) (hle : k.mapping ≤ k'.mapping) :
    Cleared c image s k' made :=
  { h with taken := fun p hp => UInt64.lt_of_lt_of_le (h.taken p hp) hle }

/-- **The step**: an entry that passes is staged behind the others. -/
theorem Cleared.append {m : Mapping} (h : Cleared c image s k before)
    (hverdict : Verdict c image s k before e k' (.ok m)) :
    Cleared c image s k' (before ++ [(e, m)]) := by
  cases hverdict with
  | staged halive hlisted hprospect htaken hfree =>
    obtain ⟨hid, hlt⟩ := Counters.takeMapping?_eq_some htaken
    have hnone := firstMappingConflict?_eq_none.mp hfree
    have hcommitted : ∀ id n, c.mapping? id = some n → n.conflictsWith m = false := by
      intro id n hn
      exact hnone n (List.mem_append_left _ (Contents.mem_mappings.mpr ⟨id, hn⟩))
    have hstaged : ∀ p ∈ before, p.2.conflictsWith m = false := by
      intro p hp
      exact hnone p.2 (List.mem_append_right _ (List.mem_map.mpr ⟨p, hp, rfl⟩))
    -- what holds of those before and of the new one holds of all
    have hall : ∀ {P : Entry × Mapping → Prop}, (∀ p ∈ before, P p) → P (e, m) →
        ∀ p ∈ before ++ [(e, m)], P p := by
      intro P hold hnew p hp
      rcases List.mem_append.mp hp with hp | hp
      · exact hold p hp
      · rw [List.mem_singleton.mp hp]
        exact hnew
    have hpairs : ∀ {R : Entry × Mapping → Entry × Mapping → Prop}, before.Pairwise R →
        (∀ p ∈ before, R p (e, m)) → (before ++ [(e, m)]).Pairwise R := by
      intro R hold hnew
      refine List.pairwise_append.mpr ⟨hold, List.pairwise_singleton _ _, ?_⟩
      intro p hp q hq
      rw [List.mem_singleton.mp hq]
      exact hnew p hp
    exact {
      alive := hall h.alive halive
      listed := hall h.listed hlisted
      prospect := hall h.prospect hprospect
      free := hall h.free hcommitted
      apart := hpairs h.apart hstaged
      ascending := by
        refine hpairs h.ascending fun p hp => ?_
        show p.2.id.raw < m.id.raw
        rw [hid]
        exact h.taken p hp
      taken := by
        refine hall (fun p hp => UInt64.lt_trans (h.taken p hp) hlt) ?_
        show m.id.raw < k'.mapping
        rw [hid]
        exact hlt }

/-- **Whatever is staged in the end is sound.** -/
theorem Judged.sound (h : Judged c image s k before entries k' made failures)
    (hbefore : Cleared c image s k before) : Cleared c image s k' made := by
  induction h with
  | nil k made => exact hbefore
  | staged hverdict _ ih => exact ih (hbefore.append hverdict)
  | failed hverdict _ ih => exact ih (hbefore.mono hverdict.mapping_le)

/-- If no entry fails, one is staged for each. -/
theorem Judged.map_fst (h : Judged c image s k before entries k' made failures)
    (hnone : failures = []) : made.map (·.1) = before.map (·.1) ++ entries := by
  induction h with
  | nil k made => exact (List.append_nil _).symm
  | staged _ _ ih => rw [ih hnone, List.map_append, List.append_assoc]; rfl
  | failed _ _ _ => cases hnone

/-- **Entries that are committable do not fail**, as long as there are numbers to give. -/
theorem Judged.failures_of_committable (h : Judged c image s k before entries k' made failures)
    (hbefore : Cleared c image s k before)
    (hcommittable : Committable c image s (before.map (·.1) ++ entries))
    (hnumbers : ∀ f ∈ failures, f.reason ≠ .invalid (.idsExhausted .mappings)) :
    failures = [] := by
  induction h with
  | nil k made => rfl
  | @staged k k₁ k' before made failures e m rest hverdict _ ih =>
    refine ih (hbefore.append hverdict) ?_ hnumbers
    rw [List.map_append, List.append_assoc]
    exact hcommittable
  | @failed k k₁ k' before made failures e reason rest hverdict _ _ =>
    have hin : e ∈ before.map (·.1) ++ e :: rest := List.mem_append_right _ List.mem_cons_self
    exfalso
    cases hverdict with
    | staleRegion hdead => exact hdead (hcommittable.alive e hin)
    | staleBlock _ hunlisted => exact hunlisted (hcommittable.listed e hin)
    | exhausted _ _ _ => exact hnumbers _ List.mem_cons_self rfl
    | @clash _ m id _ _ _ hprospect _ hfirst =>
      obtain ⟨n, hn, hconflict⟩ := exists_of_firstMappingConflict? hfirst
      rcases List.mem_append.mp hn with hcommitted | hstaged
      · obtain ⟨mid, hmid⟩ := Contents.mem_mappings.mp hcommitted
        have hfree : m.conflictsWith n = false := hcommittable.free e hin m hprospect mid n hmid
        rw [Mapping.conflictsWith_comm, hconflict] at hfree
        cases hfree
      · -- an entry that was staged before is one of the others
        obtain ⟨p, hp, rfl⟩ := List.mem_map.mp hstaged
        have hapart := (List.pairwise_append.mp hcommittable.apart).2.2 p.1
          (List.mem_map.mpr ⟨p, hp, rfl⟩) e List.mem_cons_self
        rw [hapart p.2 m (hbefore.prospect p hp) hprospect] at hconflict
        cases hconflict

/-- **What is staged comes from entries that are committable.** -/
theorem Cleared.committable (h : Cleared c image s k made) :
    Committable c image s (made.map (·.1)) where
  alive e he := by
    obtain ⟨p, hp, rfl⟩ := List.mem_map.mp he
    exact h.alive p hp
  listed e he := by
    obtain ⟨p, hp, rfl⟩ := List.mem_map.mp he
    exact h.listed p hp
  free e he m hm id n hn := by
    obtain ⟨p, hp, rfl⟩ := List.mem_map.mp he
    rw [(h.prospect p hp).conflictsWith_congr hm, Mapping.conflictsWith_comm]
    exact h.free p hp id n hn
  apart := by
    refine List.pairwise_map.mpr (List.Pairwise.imp_of_mem ?_ h.apart)
    intro p q hp hq hfree m n hm hn
    rw [(h.prospect p hp).conflictsWith_congr hm, Mapping.conflictsWith_comm,
      (h.prospect q hq).conflictsWith_congr hn, Mapping.conflictsWith_comm]
    exact hfree

/-- **No entry fails exactly if the entries are committable**, as long as there are numbers. -/
theorem failures_eq_nil_iff (h : Judged c image s k [] entries k' made failures)
    (hnumbers : ∀ f ∈ failures, f.reason ≠ .invalid (.idsExhausted .mappings)) :
    failures = [] ↔ Committable c image s entries := by
  constructor
  · intro hnone
    have hfst : made.map (·.1) = entries := h.map_fst hnone
    rw [← hfst]
    exact (h.sound (cleared_nil c image s k)).committable
  · intro hcommittable
    exact h.failures_of_committable (cleared_nil c image s k) hcommittable hnumbers

end Sound

end RegionAtlas
