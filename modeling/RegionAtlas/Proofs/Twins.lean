/-
  Twins — two traces that differ in the numbers of their mappings, and a command that is performed
  on both.

  Every attempt to map takes numbers, also one that is rejected, and a trace that is loaded afresh
  takes them again.  So a trace that lives on and one that is loaded for each command part ways, but
  only so far (`Trace.Twin`): the regions are the same, the mappings are the same in the same order
  but for their numbers, and the trace that lives on is never behind with its numbers.

  1. No command looks at the numbers of mappings: which entries are committable depends on the
     regions and on mappings as they are without them (`Contents.Twin.committable`).
  2. Mappings that are made get numbers above all others, so they stand behind the others, in the
     order of the entries (`Contents.Gains.values`).
  3. Numbers are taken one for each mapping that is asked for, in both traces, so none are wanting
     in the one if none are in the other (`counters_commitProposal`).
  4. Numbers of regions are taken only to be used (`Trace.Tight`), so that regions get the same
     ones.

  Hence a command succeeds on both or on neither, and leaves twins (`Trace.Twin.perform`).
-/
import RegionAtlas.Proofs.Commands
import RegionAtlas.Proofs.Reporting
import RegionAtlas.Proofs.RoundTrip

namespace RegionAtlas

/-! ## 1. Contents but for the numbers of mappings -/

/-- A mapping without its number. -/
def Mapping.bare (m : Mapping) : Mapping := { m with id := ⟨0⟩ }

/-- **Contents that differ in the numbers of mappings only.** -/
structure Contents.Twin (c c' : Contents) : Prop where
  regions : c.regions = c'.regions
  mappings : c.mappings.values.map Mapping.bare = c'.mappings.values.map Mapping.bare

namespace Contents.Twin

variable {c c' : Contents} {image : Image} {s : Snap} {entries : List Entry} {e : Entry}
  {m : Mapping}

theorem symm (h : c.Twin c') : c'.Twin c := ⟨h.regions.symm, h.mappings.symm⟩

theorem region? (h : c.Twin c') (id : RegionId) : c.region? id = c'.region? id := by
  rw [Contents.region?, Contents.region?, h.regions]

theorem alive_iff (h : c.Twin c') : e.Alive c s ↔ e.Alive c' s := by
  rw [Entry.Alive, Entry.Alive, h.region?]

theorem prospect_iff (h : c.Twin c') : e.Prospect c image m ↔ e.Prospect c' image m := by
  rw [Entry.Prospect, Entry.Prospect, h.region?]

theorem current_iff (h : c.Twin c') : e.Current c ↔ e.Current c' := by
  rw [Entry.Current, Entry.Current, h.region?]

theorem isAsking_eq (h : c.Twin c') : e.isAsking c image s = e.isAsking c' image s := by
  rw [Entry.isAsking, Entry.isAsking, h.region?]

/-- What is in nothing's way in the one is in nothing's way in the other. -/
theorem frees (h : c.Twin c')
    (hfree : ∀ id n, c.mapping? id = some n → m.conflictsWith n = false) :
    ∀ id n, c'.mapping? id = some n → m.conflictsWith n = false := by
  intro id n hn
  have hbare : n.bare ∈ c.mappings.values.map Mapping.bare := by
    rw [h.mappings]
    exact List.mem_map.mpr ⟨n, Contents.mem_mappings.mpr ⟨id, hn⟩, rfl⟩
  obtain ⟨n', hn', hsame⟩ := List.mem_map.mp hbare
  obtain ⟨id', hfound⟩ := Contents.mem_mappings.mp hn'
  -- conflicts have nothing to do with numbers
  show m.conflictsWith n.bare = false
  rw [← hsame]
  exact hfree id' n' hfound

/-- **Entries are committable in both or in neither.** -/
theorem committable (h : c.Twin c') (hfit : Committable c image s entries) :
    Committable c' image s entries where
  alive e he := h.alive_iff.mp (hfit.alive e he)
  listed := hfit.listed
  free e he m hm := h.frees (hfit.free e he m (h.prospect_iff.mpr hm))
  apart := by
    refine hfit.apart.imp fun hapart m n hm hn => ?_
    exact hapart m n (h.prospect_iff.mpr hm) (h.prospect_iff.mpr hn)

end Contents.Twin

/-! ## 2. What is made stands behind the others -/

/-- A table in which rows were put above all others lists them behind the others. -/
theorem Table.rows_eq_append {κ α : Type} [Ord κ] [Std.TransOrd κ] [Std.LawfulEqOrd κ]
    {t t' : Table κ α} {more : List (κ × α)}
    (hascending : more.Pairwise fun a b => compare a.1 b.1 = .lt)
    (habove : ∀ row ∈ t.rows, ∀ new ∈ more, compare row.1 new.1 = .lt)
    (hfound : ∀ k a, t'.find? k = some a ↔ t.find? k = some a ∨ (k, a) ∈ more) :
    t'.rows = t.rows ++ more := by
  have hall : (t.rows ++ more).Pairwise fun a b => compare a.1 b.1 = .lt :=
    List.pairwise_append.mpr ⟨t.ascending, hascending, habove⟩
  have hsame : t' = ⟨t.rows ++ more, hall⟩ := by
    refine ext_find? fun k => Option.ext fun a => ?_
    rw [hfound, find?_eq_some, find?_eq_some, List.mem_append]
  rw [hsame]

namespace Contents.Gains

variable {c c' c₁ c₁' : Contents} {image : Image} {entries : List Entry}
  {made made' : List Mapping}

/-- **Mappings with numbers above all others are listed behind them**, in their order. -/
theorem values (h : c.Gains c' image entries made)
    (habove : ∀ m ∈ made, ∀ id n, c.mapping? id = some n → id.raw < m.id.raw) :
    c'.mappings.values = c.mappings.values ++ made := by
  have hrows : c'.mappings.rows = c.mappings.rows ++ made.map fun m => (m.id, m) := by
    refine Table.rows_eq_append ?_ (fun row hrow new hnew => ?_) fun id m => ?_
    · exact List.pairwise_map.mpr (h.ascending.imp compareOfLessAndEq_eq_lt.mpr)
    · obtain ⟨m, hm, rfl⟩ := List.mem_map.mp hnew
      exact compareOfLessAndEq_eq_lt.mpr (habove m hm row.1 row.2 (Table.find?_eq_some.mpr hrow))
    · refine (h.mappings id m).trans (or_congr_right ⟨fun ⟨hm, hid⟩ => ?_, fun hin => ?_⟩)
      · exact List.mem_map.mpr ⟨m, hm, Prod.ext hid rfl⟩
      · obtain ⟨n, hn, hrow⟩ := List.mem_map.mp hin
        cases hrow
        exact ⟨hn, rfl⟩
  rw [Table.values, hrows, List.map_append, List.map_map]
  exact congrArg _ (List.map_id _)

/-- Prospects of the same entries are the same but for their numbers. -/
theorem map_bare (htwin : c.Twin c')
    (h : List.Forall₂ (fun e m => e.Prospect c image m) entries made)
    (h' : List.Forall₂ (fun e m => e.Prospect c' image m) entries made') :
    made.map Mapping.bare = made'.map Mapping.bare := by
  induction h generalizing made' with
  | nil =>
    cases h'
    rfl
  | cons hm _ ih =>
    cases h' with
    | cons hm' hrest' =>
      rw [List.map_cons, List.map_cons, ih hrest', (htwin.prospect_iff.mp hm).eq hm']
      rfl

/-- **Twins that gain mappings for the same entries are twins again.** -/
theorem twin (htwin : c.Twin c') (h : c.Gains c₁ image entries made)
    (h' : c'.Gains c₁' image entries made')
    (habove : ∀ m ∈ made, ∀ id n, c.mapping? id = some n → id.raw < m.id.raw)
    (habove' : ∀ m ∈ made', ∀ id n, c'.mapping? id = some n → id.raw < m.id.raw) :
    c₁.Twin c₁' where
  regions := (h.regions.trans htwin.regions).trans h'.regions.symm
  mappings := by
    rw [h.values habove, h'.values habove', List.map_append, List.map_append, htwin.mappings,
      map_bare htwin h.prospects h'.prospects]

end Contents.Gains

/-! ## 3. Numbers that are taken -/

theorem Counters.region_of_takeMapping? {k k' : Counters} {id : MappingId}
    (h : k.takeMapping? = some (id, k')) : k'.region = k.region := by
  rw [takeMapping?] at h
  split at h
  · cases h
  · cases h
    rfl

section Counting

variable {c : Contents} {image : Image} {s : Snap} {k k' : Counters}
  {before made : List (Entry × Mapping)} {e : Entry} {entries : List Entry}
  {failures : List Failure} {t : Trace} {p : Proposal}

/-- No verdict takes the number of a region. -/
theorem Verdict.region_eq {verdict : Except FailureReason Mapping}
    (h : Verdict c image s k before e k' verdict) : k'.region = k.region := by
  cases h with
  | staleRegion _ => rfl
  | staleBlock _ _ => rfl
  | exhausted _ _ _ => rfl
  | clash _ _ _ htaken _ => exact Counters.region_of_takeMapping? htaken
  | staged _ _ _ htaken _ => exact Counters.region_of_takeMapping? htaken

/-- **Verdicts take a number for each mapping that is asked for**, if none is wanting. -/
theorem Judged.counters (h : Judged c image s k before entries k' made failures)
    (hcurrent : ∀ e ∈ entries, e.Current c)
    (hnumbers : ∀ f ∈ failures, f.reason ≠ .unnumbered) :
    k'.region = k.region ∧
      k'.mapping.toNat = k.mapping.toNat + entries.countP (·.isAsking c image s) := by
  induction h with
  | nil k made => exact ⟨rfl, rfl⟩
  | @staged k k₁ k' before made failures e m rest hverdict _ ih =>
    obtain ⟨hregion, hmapping⟩ :=
      ih (fun f hf => hcurrent f (List.mem_cons_of_mem _ hf)) hnumbers
    refine ⟨hregion.trans hverdict.region_eq, ?_⟩
    rcases hverdict.numbers (hcurrent e List.mem_cons_self) with ⟨-, -, hwant⟩ | ⟨htook, -⟩
    · cases hwant
    · rw [hmapping, htook, List.countP_cons, Nat.add_assoc, Nat.add_comm (Bool.toNat _),
        Bool.toNat, Bool.cond_eq_ite]
  | @failed k k₁ k' before made failures e reason rest hverdict _ ih =>
    obtain ⟨hregion, hmapping⟩ := ih (fun f hf => hcurrent f (List.mem_cons_of_mem _ hf))
      fun f hf => hnumbers f (List.mem_cons_of_mem _ hf)
    refine ⟨hregion.trans hverdict.region_eq, ?_⟩
    rcases hverdict.numbers (hcurrent e List.mem_cons_self) with ⟨-, -, hwant⟩ | ⟨htook, -⟩
    · exact absurd (Except.error.inj hwant) (hnumbers _ List.mem_cons_self)
    · rw [hmapping, htook, List.countP_cons, Nat.add_assoc, Nat.add_comm (Bool.toNat _),
        Bool.toNat, Bool.cond_eq_ite]

/-- The numbers that a commit takes are those that the check takes. -/
theorem counters_check (t : Trace) (p : Proposal) (image : Image) (s : Snap) :
    (commitProposal t p image s).1.counters = (p.check t image s).trace.counters := by
  by_cases hnone : (p.check t image s).failures = []
  · rw [fst_commitProposal hnone, Trace.counters_commit]
  · rw [commitProposal_of_failures hnone]
    rfl

/-- **A commit takes as many numbers as it asks for mappings**, whether it succeeds or not, and no
number of a region. -/
theorem counters_commitProposal (hcurrent : ∀ e ∈ p.accepted, e.Current t.contents)
    (hroom : ¬ p.RunsOut t image s) :
    (commitProposal t p image s).1.counters.region = t.counters.region ∧
      (commitProposal t p image s).1.counters.mapping.toNat =
        t.counters.mapping.toNat + p.demand t image s := by
  obtain ⟨k, made, failures, hjudged, hcheck⟩ := check_eq hcurrent image s
  have hnumbers : ∀ f ∈ failures, f.reason ≠ .unnumbered := by
    intro f hf hwant
    exact hroom ⟨f, by rw [hcheck]; exact hf, hwant⟩
  rw [counters_check, hcheck]
  exact hjudged.counters hcurrent hnumbers

/-- What a commit that succeeds says it made is what the check staged. -/
theorem created_eq {summary : CommitSummary}
    (h : (commitProposal t p image s).2 = .ok summary) :
    summary.created = (p.check t image s).made.map (·.mapping) := by
  unfold commitProposal at h
  dsimp only at h
  split at h
  · split at h
    · cases h
    · cases h
      rfl
  · cases h

/-- **What is made has numbers above all that are in use.** -/
theorem Trace.Reached.above {id : TraceId} (hreached : t.Reached id)
    (hcurrent : ∀ e ∈ p.accepted, e.Current t.contents) {summary : CommitSummary}
    (h : (commitProposal t p image s).2 = .ok summary) {made : List Mapping}
    (hmade : summary.created = made.map (·.id)) :
    ∀ m ∈ made, ∀ mid n, t.contents.mapping? mid = some n → mid.raw < m.id.raw := by
  intro m hm mid n hn
  obtain ⟨k, staged, failures, hjudged, hcheck⟩ := check_eq hcurrent image s
  have hcreated : m.id ∈ (madeFor staged).map (·.mapping) := by
    have hall := created_eq h
    rw [hcheck, hmade] at hall
    exact hall ▸ List.mem_map.mpr ⟨m, hm, rfl⟩
  obtain ⟨made', hmade', hid⟩ := List.mem_map.mp hcreated
  obtain ⟨q, hq, rfl⟩ := List.mem_map.mp hmade'
  have hnew := hjudged.not_covers (fun x hx => hx) (fun _ hq => nomatch hq) q hq
  rw [show q.2.id = m.id from hid] at hnew
  -- numbers in use are below the next one, and those that are made are not
  obtain ⟨hfree, hle⟩ := not_or.mp hnew
  rcases hreached.covers (s := .mapping mid) ⟨n, hn⟩ with hreserved | hlt
  · exact absurd hreserved hfree
  · exact UInt64.lt_of_lt_of_le hlt (UInt64.not_lt.mp hle)

end Counting

/-! ## 4. Numbers of regions -/

/-- **No number of a region was taken and not used.** -/
def Trace.Tight (t : Trace) : Prop := t.counters.region = t.contents.nextRegion

namespace Contents

variable {c c' : Contents}

/-- The next number depends on those in use. -/
theorem nextRegion_congr (h : c.regions.keys = c'.regions.keys) : c.nextRegion = c'.nextRegion := by
  have hlast : c.regions.lastKey? = c'.regions.lastKey? := by
    rw [Table.lastKey?, Table.lastKey?, ← List.getLast?_map, ← List.getLast?_map]
    exact congrArg _ h
  rw [nextRegion, nextRegion, hlast]

theorem nextRegion_ownedBy (c : Contents) (id : TraceId) :
    (c.ownedBy id).nextRegion = c.nextRegion :=
  nextRegion_congr List.map_map

theorem nextRegion_setLifespan (c : Contents) (id : RegionId) (l : Lifespan) :
    (c.setLifespan id l).nextRegion = c.nextRegion :=
  nextRegion_congr List.map_map

/-- After the highest number comes the one after it. -/
theorem nextRegion_insertRegion {r : Region}
    (habove : ∀ id, c.Holds (.region id) → id.raw < r.id.raw) :
    (c.insertRegion r).nextRegion = after r.id.raw := by
  have hrows : (c.insertRegion r).regions.rows = c.regions.rows ++ [(r.id, r)] := by
    refine Table.place_last r fun row hrow => compareOfLessAndEq_eq_lt.mpr ?_
    exact habove row.1 ⟨row.2, Table.find?_eq_some.mpr hrow⟩
  rw [nextRegion, Table.lastKey?, hrows, List.getLast?_concat]
  rfl

end Contents

theorem Counters.takeRegion?_eq_some {k k' : Counters} {id : RegionId} :
    k.takeRegion? = some (id, k') ↔
      k.region ≠ reservedId ∧ id = ⟨k.region⟩ ∧ k' = { k with region := k.region + 1 } := by
  rw [takeRegion?]
  split
  · next hreserved => exact iff_of_false nofun fun h => h.1 hreserved
  · next hfree =>
    rw [Option.some.injEq, Prod.mk.injEq, eq_comm, eq_comm (b := k')]
    exact ⟨fun h => ⟨hfree, h⟩, fun h => h.2⟩

namespace Transaction

variable {tx tx₁ : Transaction} {owner : TraceId} {c c' : Contents} {k k' k₁ : Counters} {e : Edit}
  {what : Staged} {description : String}

/-- An edit about a region that is refused takes no number. -/
theorem counters_of_refused (he : e.onRegion = true) {why : Refusal}
    (h : tx.edit owner c k e = ⟨k', .error why⟩) : k' = k := by
  cases e with
  | addRegion name lifespan range permissions =>
    rw [edit, addRegion] at h
    split at h
    · cases h
      rfl
    · split at h
      · cases h
        rfl
      · cases h
  | destroyRegion id stop =>
    rw [edit, destroyRegion] at h
    split at h
    · cases h
      rfl
    · split at h
      · split at h
        · cases h
          rfl
        · cases h
      · cases h
        rfl
  | addMapping range lifespan program place => cases he

/-- **What an edit about a region stages** depends on the regions and the next number of one. -/
theorem Stages.congr (hregions : c.regions = c'.regions) (hnumbers : k.region = k'.region)
    (he : e.onRegion = true) (h : Stages tx owner c k e k₁ tx₁ what) :
    ∃ k₁', Stages tx owner c' k' e k₁' tx₁ what := by
  cases h with
  | @region r _ howned hfree htaken =>
    obtain ⟨hunreserved, hid, -⟩ := Counters.takeRegion?_eq_some.mp htaken
    refine ⟨{ k' with region := k'.region + 1 }, .region howned ?_ ?_⟩
    · rw [regionConflict?, visibleRegions, ← hregions]
      exact hfree
    · rw [hnumbers] at hunreserved hid
      exact Counters.takeRegion?_eq_some.mpr ⟨hunreserved, hid, rfl⟩
  | lifespan hfound hlive hclosed =>
    refine ⟨k', .lifespan ?_ hlive hclosed⟩
    rw [region?, Contents.region?, ← hregions]
    exact hfound
  | mapping _ _ _ => cases he

end Transaction

/-! ## 5. Edits of twins -/

/-- A lifespan that fits is set. -/
theorem Operation.Fits.eq_setLifespan {c c₁ : Contents} {id : RegionId} {old new : Lifespan}
    {change : Change} (h : Fits c (.setLifespan id old new) c₁ change) :
    c₁ = c.setLifespan id new := by
  generalize hop : Operation.setLifespan id old new = op at h
  cases h with
  | createRegion _ => cases hop
  | setLifespan _ _ =>
    cases hop
    rfl
  | createMapping _ => cases hop

/-- What fits both of twins leaves twins, if it is about a region. -/
theorem Contents.Twin.fits {c c' c₁ c₁' : Contents} {op : Operation} {change change' : Change}
    (h : c.Twin c') (hop : ∀ m, op ≠ .createMapping m) (hfits : Operation.Fits c op c₁ change)
    (hfits' : Operation.Fits c' op c₁' change') : c₁.Twin c₁' := by
  cases hfits with
  | @createRegion r _ =>
    cases hfits' with
    | createRegion _ =>
      exact ⟨congrArg (·.insert r.id r) h.regions, h.mappings⟩
  | @setLifespan id r new _ =>
    rw [hfits'.eq_setLifespan]
    exact ⟨congrArg (·.adjust id (·.withLifespan new)) h.regions, h.mappings⟩
  | @createMapping m _ => exact absurd rfl (hop m)

/-- **Traces that differ in the numbers of mappings only**, the first never behind with them. -/
structure Trace.Twin (t t' : Trace) : Prop where
  contents : t.contents.Twin t'.contents
  mappingNumbers : t'.counters.mapping.toNat ≤ t.counters.mapping.toNat

namespace Trace

variable {id : TraceId} {t t' : Trace} {description : String} {e : Edit}
  {result result' : Trace × List Staged × Reply}

/-- In twins the next number of a region is the same. -/
theorem Twin.regionNumbers (h : t.Twin t') (htight : t.Tight) (htight' : t'.Tight) :
    t.counters.region = t'.counters.region := by
  rw [htight, htight', Contents.nextRegion, Contents.nextRegion, h.contents.regions]

/-- What an edit about a region does, if it is done. -/
theorem op_of_stages {owner : TraceId} {c : Contents} {k k₁ : Counters} {tx : Transaction}
    {what : Staged} {op : Operation} (he : e.onRegion = true)
    (h : (Transaction.start description).Stages owner c k e k₁ tx what)
    (hoperations : tx.operations = [op]) :
    (∀ m, op ≠ .createMapping m) ∧ k₁.mapping = k.mapping := by
  cases h with
  | region _ _ htaken =>
    obtain ⟨-, -, rfl⟩ := Counters.takeRegion?_eq_some.mp htaken
    refine ⟨fun m hop => ?_, rfl⟩
    rw [hop] at hoperations
    cases hoperations
  | lifespan _ _ _ =>
    refine ⟨fun m hop => ?_, rfl⟩
    rw [hop] at hoperations
    cases hoperations
  | mapping _ _ _ => cases he

/-- **An edit about a region ends alike in twins**: it is refused in both, and then nothing has
changed, or it is done in both and leaves twins. -/
inductive EditsAlike (t t' : Trace) :
    Trace × List Staged × Reply → Trace × List Staged × Reply → Prop where
  | refused {why why' : Refusal} :
      EditsAlike t t' (t.usedUp t.counters, [], .refused why)
        (t'.usedUp t'.counters, [], .refused why')
  | done {t₁ t₁' : Trace} {what what' : Staged} {told told' : List Change}
      (twin : t₁.Twin t₁') :
      EditsAlike t t' (t₁, [what], .done told) (t₁', [what'], .done told')

theorem Twin.editsAlike (h : t.Twin t') (htight : t.Tight) (htight' : t'.Tight)
    (hid : t.id = t'.id) (he : e.onRegion = true) (hends : t.EditEnds description e result)
    (hends' : t'.EditEnds description e result') : EditsAlike t t' result result' := by
  have hnumbers := h.regionNumbers htight htight'
  cases hends with
  | refused hchecked =>
    obtain rfl := Transaction.counters_of_refused he hchecked
    cases hends' with
    | refused hchecked' =>
      obtain rfl := Transaction.counters_of_refused he hchecked'
      exact .refused
    | done hstaged' _ _ =>
      rw [← hid] at hstaged'
      obtain ⟨k, hstaged⟩ := hstaged'.congr h.contents.regions.symm hnumbers.symm he
      rw [Transaction.edit_of_stages hstaged] at hchecked
      cases hchecked
  | @done k tx what op c change told hstaged hoperations hfits =>
    obtain ⟨k', hstaged'⟩ := hstaged.congr h.contents.regions hnumbers he
    rw [hid] at hstaged'
    have hedit := Transaction.edit_of_stages hstaged'
    cases hends' with
    | refused hchecked' =>
      rw [hedit] at hchecked'
      cases hchecked'
    | done hstaged'' hoperations'' hfits'' =>
      rw [Transaction.edit_of_stages hstaged''] at hedit
      cases hedit
      rw [hoperations] at hoperations''
      cases hoperations''
      obtain ⟨hop, hmapping⟩ := op_of_stages he hstaged hoperations
      obtain ⟨-, hmapping'⟩ := op_of_stages he hstaged' hoperations
      refine .done ⟨h.contents.fits hop hfits hfits'', ?_⟩
      show k'.mapping.toNat ≤ k.mapping.toNat
      rw [hmapping, hmapping']
      exact h.mappingNumbers

/-- **After an edit about a region, no number was taken in vain.** -/
theorem EditEnds.tight (hreached : t.Reached id) (htight : t.Tight) (he : e.onRegion = true)
    (h : t.EditEnds description e result) : result.1.Tight := by
  cases h with
  | refused hchecked =>
    obtain rfl := Transaction.counters_of_refused he hchecked
    exact htight
  | @done k tx what op c change told hstaged hoperations hfits =>
    show k.region = c.nextRegion
    cases hstaged with
    | @region r _ _ _ htaken =>
      obtain ⟨hunreserved, hid, rfl⟩ := Counters.takeRegion?_eq_some.mp htaken
      cases hoperations
      cases hfits with
      | createRegion _ =>
        have hraw : r.id.raw = t.counters.region := congrArg RegionId.raw hid
        have habove : ∀ rid, t.contents.Holds (.region rid) → rid.raw < r.id.raw := by
          intro rid hheld
          rw [hraw]
          exact (hreached.covers hheld).resolve_left hunreserved
        rw [Contents.nextRegion_insertRegion habove, hraw, Contents.after, if_neg hunreserved]
    | lifespan _ _ _ =>
      cases hoperations
      rw [hfits.eq_setLifespan, Contents.nextRegion_setLifespan]
      exact htight
    | mapping _ _ _ => cases he

end Trace

/-! ## 6. Proposals committed on twins -/

section Commit

variable {id id' : TraceId} {t t' : Trace} {p : Proposal} {image : Image} {s : Snap}

namespace Trace

theorem Twin.demand (h : t.Twin t') : p.demand t image s = p.demand t' image s :=
  congrArg (p.accepted.countP ·) (funext fun _ => h.contents.isAsking_eq)

/-- **Numbers run out in the trace that lives on first.** -/
theorem Twin.not_runsOut (h : t.Twin t') (hcurrent : ∀ e ∈ p.accepted, e.Current t.contents)
    (hroom : ¬ p.RunsOut t image s) : ¬ p.RunsOut t' image s := by
  have hcurrent' : ∀ e ∈ p.accepted, e.Current t'.contents :=
    fun e he => h.contents.current_iff.mp (hcurrent e he)
  rw [Proposal.runsOut_iff hcurrent] at hroom
  rw [Proposal.runsOut_iff hcurrent', ← h.demand]
  have hnumbers := h.mappingNumbers
  omega

/-- **A proposal ends alike in twins**: it is rejected in both, and then nothing has changed but
numbers, or it is committed in both and leaves twins. -/
theorem Twin.commits (h : t.Twin t') (hreached : t.Reached id) (hreached' : t'.Reached id')
    (hcurrent : ∀ e ∈ p.accepted, e.Current t.contents) (hroom : ¬ p.RunsOut t image s) :
    (∃ why why', (commitProposal t p image s).2 = .error why ∧
        (commitProposal t' p image s).2 = .error why' ∧
        (commitProposal t p image s).1.Twin t') ∨
      ∃ summary summary', (commitProposal t p image s).2 = .ok summary ∧
        (commitProposal t' p image s).2 = .ok summary' ∧
        (commitProposal t p image s).1.Twin
          (commitProposal t' p image s).1 := by
  have hcurrent' : ∀ e ∈ p.accepted, e.Current t'.contents :=
    fun e he => h.contents.current_iff.mp (hcurrent e he)
  have hroom' := h.not_runsOut hcurrent hroom
  have hsettled : Settlement t p image s ((commitProposal t p image s).1,
      (commitProposal t p image s).2) := hreached.settlement hcurrent hroom
  have hsettled' : Settlement t' p image s ((commitProposal t' p image s).1,
      (commitProposal t' p image s).2) := hreached'.settlement hcurrent' hroom'
  obtain ⟨-, hmapping⟩ := counters_commitProposal hcurrent hroom
  obtain ⟨-, hmapping'⟩ := counters_commitProposal hcurrent' hroom'
  have hnumbers := h.mappingNumbers
  have hboth : (∃ summary, (commitProposal t p image s).2 = .ok summary) ↔
      ∃ summary, (commitProposal t' p image s).2 = .ok summary := by
    refine hsettled.ok_iff.trans (Iff.trans ?_ hsettled'.ok_iff.symm)
    exact ⟨h.contents.committable, h.contents.symm.committable⟩
  cases hreply : (commitProposal t p image s).2 with
  | error why =>
    cases hreply' : (commitProposal t' p image s).2 with
    | ok summary' =>
      obtain ⟨summary, hok⟩ := hboth.mpr ⟨summary', hreply'⟩
      rw [hreply] at hok
      cases hok
    | error why' =>
      have hsame : (commitProposal t p image s).1.contents = t.contents := by
        obtain ⟨-, k, hafter⟩ := Settlement.of_error (hreply ▸ hsettled)
        rw [hafter]
      refine .inl ⟨why, why', rfl, rfl, ⟨hsame ▸ h.contents, ?_⟩⟩
      omega
  | ok summary =>
    obtain ⟨summary', hreply'⟩ := hboth.mp ⟨summary, hreply⟩
    obtain ⟨⟨made, hgains, hmade⟩, -⟩ := Settlement.of_ok (hreply ▸ hsettled)
    obtain ⟨⟨made', hgains', hmade'⟩, -⟩ := Settlement.of_ok (hreply' ▸ hsettled')
    refine .inr ⟨summary, summary', rfl, hreply', ⟨?_, ?_⟩⟩
    · exact hgains.twin h.contents hgains' (hreached.above hcurrent hreply hmade)
        (hreached'.above hcurrent' hreply' hmade')
    · rw [hmapping, hmapping', ← h.demand]
      omega

/-- A commit takes no number of a region in vain. -/
theorem Tight.commits (htight : t.Tight) (hreached : t.Reached id)
    (hcurrent : ∀ e ∈ p.accepted, e.Current t.contents) (hroom : ¬ p.RunsOut t image s) :
    (commitProposal t p image s).1.Tight := by
  have hsettled : Settlement t p image s ((commitProposal t p image s).1,
      (commitProposal t p image s).2) := hreached.settlement hcurrent hroom
  obtain ⟨hregion, -⟩ := counters_commitProposal hcurrent hroom
  have hregions : (commitProposal t p image s).1.contents.regions = t.contents.regions := by
    cases hreply : (commitProposal t p image s).2 with
    | error why =>
      rw [hreply] at hsettled
      obtain ⟨-, k, hafter⟩ := hsettled.of_error
      rw [hafter]
    | ok summary =>
      rw [hreply] at hsettled
      obtain ⟨⟨made, hgains, -⟩, -⟩ := hsettled.of_ok
      exact hgains.regions
  rw [Tight, hregion, htight]
  exact (Contents.nextRegion_congr (congrArg Table.keys hregions)).symm

end Trace

end Commit

/-! ## 7. Commands performed on twins -/

section Perform

variable {id : TraceId} {t t' : Trace} {p : Setting} {what : ProposalRequest}

/-- What is selected depends on the regions. -/
theorem selection_congr (h : t.contents.regions = t'.contents.regions) (s : Snap)
    (named : Option (List String)) : selection t s named = selection t' s named := by
  have hregion : t.contents.region? = t'.contents.region? := by
    funext id
    rw [Contents.region?, Contents.region?, h]
  have hquery : t.contents.query s = t'.contents.query s := by
    rw [Contents.query, Contents.query, Contents.regionsAt, Contents.regionsAt, h]
  unfold selection regionsFor
  rw [hregion, hquery]

/-- What is proposed depends on the regions. -/
theorem buildProposal_congr (h : t.contents.regions = t'.contents.regions) (p : Setting)
    (what : ProposalRequest) : buildProposal p t what = buildProposal p t' what := by
  rw [buildProposal, buildProposal, selection_congr h]

/-- Whether an address can be translated depends on its text. -/
theorem translate_cases (s : Snap) (address : String) :
    (∃ why, ∀ c, translate c s address = .error why) ∨
      ∀ c, ∃ text, translate c s address = .ok text := by
  by_cases hstatic : address.toList.contains ':' = true
  · cases ha : StaticAddress.ofText? address with
    | none =>
      refine .inl ⟨.badStaticAddress address, fun c => ?_⟩
      rw [translate, if_pos hstatic, ha]
    | some a =>
      refine .inr fun c => ?_
      rw [translate, if_pos hstatic, ha]
      exact ⟨_, rfl⟩
  · cases hn : readAddress address with
    | error why =>
      refine .inl ⟨why, fun c => ?_⟩
      rw [translate, if_neg hstatic, hn]
      rfl
    | ok n =>
      refine .inr fun c => ?_
      rw [translate, if_neg hstatic, hn]
      exact ⟨_, rfl⟩

/-- How a translation ends does not depend on the mappings. -/
theorem ending_translateEach_congr (c c' : Contents) (s : Snap) (addresses : List String) :
    (translateEach c s addresses).2 = (translateEach c' s addresses).2 := by
  induction addresses with
  | nil => rfl
  | cons address rest ih =>
    rw [translateEach, translateEach]
    rcases translate_cases s address with ⟨why, hbad⟩ | hgood
    · rw [hbad, hbad]
    · obtain ⟨text, htext⟩ := hgood c
      obtain ⟨text', htext'⟩ := hgood c'
      rw [htext, htext']
      exact ih

/-- **How a command that only looks ends** depends on the regions. -/
theorem ending_congr {a : Action} (ha : a.edits = false)
    (h : t.contents.regions = t'.contents.regions) :
    (a.perform p t).ending = (a.perform p t').ending := by
  cases a with
  | regions containing =>
    cases containing with
    | none => rfl
    | some addresses =>
      rw [Action.perform, Action.perform, performRegions, performRegions]
      cases addresses.mapM readAddress <;> rfl
  | addRegion name min max permissions => cases ha
  | destroyRegion text => cases ha
  | propose what =>
    rw [Action.perform, Action.perform, performPropose, performPropose, buildProposal_congr h]
    cases (buildProposal p t' what).result <;> rfl
  | map what => cases ha
  | mappings addresses =>
    cases addresses with
    | none => rfl
    | some addresses => exact ending_translateEach_congr _ _ _ _

/-- An error that there were no numbers left for mappings. -/
def CommandError.IsShortage : CommandError → Prop
  | .rejected failures => ∃ f ∈ failures, f.reason = .unnumbered
  | _ => False

/-- A command that maps and wants for no numbers. -/
theorem not_runsOut_of_ending {proposal : Proposal} {image : Image}
    (h : (buildProposal p t what).result = .ok (proposal, image))
    (hroom : ∀ why, (performMap p t what).ending = .error why → ¬ why.IsShortage) :
    ¬ proposal.RunsOut t image p.snap := by
  rintro ⟨f, hf, hwant⟩
  have hsome : (proposal.check t image p.snap).failures ≠ [] := List.ne_nil_of_mem hf
  obtain ⟨-, -, hrejected, -⟩ := ending_performMap h
  have hending := hrejected _ (congrArg Prod.snd (commitProposal_of_failures hsome))
  exact hroom _ hending ⟨f, hf, hwant⟩

/-- **A command ends alike in twins**: it fails in both, and what it leaves of the first is a twin
of the other as it was, or it succeeds in both and leaves twins. -/
inductive Trace.PerformsAlike (t' : Trace) : Performed → Performed → Prop where
  | failed {done done' : Performed} {why why' : CommandError} (ending : done.ending = .error why)
      (ending' : done'.ending = .error why') (twin : done.trace.Twin t') :
      PerformsAlike t' done done'
  | done {done done' : Performed} {ending ending' : Ending} (ok : done.ending = .ok ending)
      (ok' : done'.ending = .ok ending') (twin : done.trace.Twin done'.trace) :
      PerformsAlike t' done done'

/-- An edit that a command makes ends alike in twins. -/
theorem Trace.Twin.performEdit (h : t.Twin t') (htight : t.Tight) (htight' : t'.Tight)
    (hreached : t.Reached id) (hreached' : t'.Reached id) {e : Edit} (he : e.onRegion = true)
    (description : String) (confirmation : Staged → String) :
    Trace.PerformsAlike t' (performEdit t description e confirmation)
      (performEdit t' description e confirmation) := by
  have hid : t.id = t'.id := hreached.owned.trans hreached'.owned.symm
  have halike := h.editsAlike htight htight' hid he (hreached.editEnds description e)
    (hreached'.editEnds description e)
  rw [RegionAtlas.performEdit, RegionAtlas.performEdit]
  cases htransaction : t.transaction description [e] with
  | mk t₁ rest =>
    cases htransaction' : t'.transaction description [e] with
    | mk t₁' rest' =>
      rw [htransaction, htransaction'] at halike
      cases halike with
      | refused => exact .failed rfl rfl ⟨h.contents, h.mappingNumbers⟩
      | done htwin => exact .done rfl rfl htwin

/-- A command that maps ends alike in twins, if numbers do not run out. -/
theorem Trace.Twin.performMap (h : t.Twin t') (hreached : t.Reached id) (hreached' : t'.Reached id)
    (hroom : ∀ why, (performMap p t what).ending = .error why → ¬ why.IsShortage) :
    Trace.PerformsAlike t' (performMap p t what) (performMap p t' what) := by
  have hbuilds := buildProposal_congr h.contents.regions p what
  cases hbuilt : (buildProposal p t what).result with
  | error why =>
    have hbuilt' : (buildProposal p t' what).result = .error why := by rw [← hbuilds, hbuilt]
    rw [RegionAtlas.performMap, RegionAtlas.performMap, hbuilt, hbuilt']
    exact .failed rfl rfl h
  | ok built =>
    obtain ⟨proposal, image⟩ := built
    have hbuilt' : (buildProposal p t' what).result = .ok (proposal, image) := by
      rw [← hbuilds, hbuilt]
    have hcurrent := current_of_built (keyed_of_attained hreached.attained) hbuilt
    have hnumbers := not_runsOut_of_ending hbuilt hroom
    obtain ⟨hok, herror, -, htrace⟩ := ending_performMap hbuilt
    obtain ⟨hok', herror', -, htrace'⟩ := ending_performMap hbuilt'
    rcases h.commits hreached hreached' hcurrent hnumbers with
      ⟨why, why', hrejected, hrejected', htwin⟩ | ⟨summary, summary', hdone, hdone', htwin⟩
    · obtain ⟨why, hending⟩ := herror _ hrejected
      obtain ⟨why', hending'⟩ := herror' _ hrejected'
      exact .failed hending hending' (htrace.symm ▸ htwin)
    · obtain ⟨line, hending⟩ := hok _ hdone
      obtain ⟨line', hending'⟩ := hok' _ hdone'
      refine .done hending hending' ?_
      rw [htrace, htrace']
      exact htwin

/-- **Every command ends alike in twins**, as long as none wants for numbers. -/
theorem Trace.Twin.perform (h : t.Twin t') (htight : t.Tight) (htight' : t'.Tight)
    (hreached : t.Reached id) (hreached' : t'.Reached id) (p : Setting) (a : Action)
    (hroom : ∀ why, (a.perform p t).ending = .error why → ¬ why.IsShortage) :
    Trace.PerformsAlike t' (a.perform p t) (a.perform p t') := by
  cases a.does p with
  | looks hlooks =>
    have hending := ending_congr (p := p) hlooks h.contents.regions
    have htrace := (perform_of_looks hlooks p t).1
    cases hends : (a.perform p t).ending with
    | error why => exact .failed hends (hending.symm.trans hends) (htrace.symm ▸ h)
    | ok ending =>
      refine .done hends (hending.symm.trans hends) ?_
      rw [htrace, (perform_of_looks hlooks p t').1]
      exact h
  | misread why _ hperforms =>
    rw [hperforms, hperforms]
    exact .failed rfl rfl h
  | edits description e confirmation _ habout hperforms =>
    rw [hperforms, hperforms]
    exact h.performEdit htight htight' hreached hreached' habout description confirmation
  | maps what _ hperforms =>
    rw [hperforms] at hroom ⊢
    rw [hperforms]
    exact h.performMap hreached hreached' hroom

/-- **No command takes the number of a region in vain.** -/
theorem Trace.Tight.perform (htight : t.Tight) (hreached : t.Reached id) (p : Setting) (a : Action)
    (hroom : ∀ why, (a.perform p t).ending = .error why → ¬ why.IsShortage) :
    (a.perform p t).trace.Tight := by
  cases a.does p with
  | looks hlooks =>
    rw [(perform_of_looks hlooks p t).1]
    exact htight
  | misread why _ hperforms =>
    rw [hperforms]
    exact htight
  | edits description e confirmation _ habout hperforms =>
    rw [hperforms, trace_performEdit]
    exact (hreached.editEnds description e).tight hreached htight habout
  | maps what _ hperforms =>
    rw [hperforms] at hroom ⊢
    cases hbuilt : (buildProposal p t what).result with
    | error why =>
      rw [performMap, hbuilt]
      exact htight
    | ok built =>
      obtain ⟨proposal, image⟩ := built
      obtain ⟨-, -, -, htrace⟩ := ending_performMap hbuilt
      rw [htrace]
      exact htight.commits hreached (current_of_built (keyed_of_attained hreached.attained) hbuilt)
        (not_runsOut_of_ending hbuilt hroom)

end Perform

end RegionAtlas
