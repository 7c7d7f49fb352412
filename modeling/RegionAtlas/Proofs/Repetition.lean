/-
  Repetition — what comes of committing a proposal that was committed before.

  Every entry is in the way of its own repetition, and nothing else is:

    1. As long as nothing is undone contents only grow (`Trace.Reached.grows`), so the mapping of an
       entry is still there, unchanged.  The region may have been closed meanwhile, which leaves it
       alive at fewer snaps (`Trace.Reached.narrows`).  So what the entry would become now lies
       within what it became then (`Entry.Prospect.within`).
    2. Where the region is alive, the two meet (`Mapping.Within.meets`).  And whatever else met the
       new one would meet the old one as well (`Mapping.Within.of_conflictsWith`), but no two
       mappings that there are meet.  So the first in the way is the entry's own mapping
       (`Contents.Corresponds.first_of_within`), whatever the order in which they are tried.
    3. Therefore no entry is ever staged, and the check, which goes on after a failure, finds for
       each the mapping that it was given (`Judged.overlaps_of_blocked`).
-/
import RegionAtlas.Proofs.Commands
import RegionAtlas.Proofs.Conflicts
import RegionAtlas.Proofs.LifeCycle

namespace RegionAtlas

/-! ## Going on without undoing -/

namespace Trace.Reached

variable {id : TraceId} {t : Trace}

/-- A step that does not undo makes contents grow. -/
theorem grows_step (h : t.Reached id) {s : Step} (hs : s ≠ .undo) :
    t.contents.Grows (t.step s).1.contents := by
  obtain ⟨name, c, limit, before, -, rfl⟩ := h
  let x : Chronicle := ⟨id, name, c, limit, before ++ [s]⟩
  have hstep : x.steps[before.length]? = some s := by
    rw [List.getElem?_append_right (Nat.le_refl _), Nat.sub_self]
    rfl
  have hmoment : x.moment before.length = (Trace.ofContents id name c limit).run before := by
    show (Trace.ofContents id name c limit).run ((before ++ [s]).take before.length) = _
    rw [List.take_left]
  have hnext : x.contents (before.length + 1) =
      (((Trace.ofContents id name c limit).run before).step s).1.contents := by
    rw [Chronicle.contents, Chronicle.moment_succ hstep, hmoment]
  rw [← hnext, ← hmoment]
  cases x.passes before.length with
  | stays hsame =>
    rw [hsame]
    exact .refl _
  | forth _ _ _ _ hgrows => exact hgrows
  | back hundoes _ _ _ _ =>
    obtain ⟨hasked, -⟩ := Chronicle.sides_of_undo hundoes
    exact absurd (Option.some.inj (hstep.symm.trans hasked)) hs

/-- **As long as nothing is undone contents grow.** -/
theorem grows (h : t.Reached id) {steps : List Step} (hforth : .undo ∉ steps) :
    t.contents.Grows (t.run steps).contents := by
  induction steps generalizing t with
  | nil => exact .refl _
  | cons s rest ih =>
    have hs : s ≠ .undo := fun heq => hforth (heq ▸ List.mem_cons_self)
    have hrest : .undo ∉ rest := fun hin => hforth (List.mem_cons_of_mem _ hin)
    exact (h.grows_step hs).trans (ih (h.run [s]) hrest)

end Trace.Reached

/-- **Contents whose regions reach no further**: a region that is found in both has its range, and
is alive in the second at no snap at which it is not in the first. -/
def Contents.Narrows (c c' : Contents) : Prop :=
  ∀ id r r', c.region? id = some r → c'.region? id = some r' →
    r'.range = r.range ∧ ∀ s, r'.isAliveAt s = true → r.isAliveAt s = true

/-- As long as nothing is undone, regions stay where they are and are closed at most. -/
theorem Trace.Reached.narrows {id : TraceId} {t : Trace} (h : t.Reached id)
    {steps : List Trace.Step} (hforth : .undo ∉ steps) :
    t.contents.Narrows (t.run steps).contents := by
  have hgrows := h.grows hforth
  obtain ⟨name, c, limit, before, hc, rfl⟩ := h
  intro rid r r' hr hr'
  obtain ⟨hsame, hstart⟩ :=
    region_kept (keyed_of_attained hc) id name limit before steps hr hr'
  refine ⟨by rw [hsame]; rfl, fun s halive => ?_⟩
  rcases hgrows.region rid r r' hr hr' with rfl | ⟨hopen, -⟩
  · exact halive
  · -- it was open, so it held every snap from its start on
    have hstop : r.lifespan.stop = none := Option.isNone_iff_eq_none.mp hopen
    refine Lifespan.contains_iff.mpr ⟨?_, fun e he => ?_⟩
    · rw [← hstart]
      exact (Lifespan.contains_iff.mp halive).1
    · rw [hstop] at he
      cases he

/-! ## One mapping within another -/

/-- **A mapping within another**: of the same addresses to the same addresses, at no snap at which
the other is not there. -/
structure Mapping.Within (m' m : Mapping) : Prop where
  traceRange : m'.traceRange = m.traceRange
  program : m'.program = m.program
  space : m'.space = m.space
  staticRange : m'.staticRange = m.staticRange
  lifespan : ∀ s, m'.lifespan.contains s = true → m.lifespan.contains s = true

namespace Mapping.Within

variable {m m' n : Mapping} {s : Snap}

theorem partOf (h : m'.Within m) : m'.PartOf m where
  lifespan := h.lifespan
  traceRange := h.traceRange ▸ .refl _
  program := h.program
  space := h.space
  staticRange := h.staticRange ▸ .refl _

/-- What meets the one meets the other. -/
theorem of_conflictsWith (h : m'.Within m) (hn : n.conflictsWith m' = true) :
    n.conflictsWith m = true :=
  conflictsWith_mono (.refl n) h.partOf hn

/-- They meet each other, if the one is ever there. -/
theorem meets (h : m'.Within m) (hs : m'.lifespan.contains s = true) :
    m.conflictsWith m' = true := by
  refine conflictsWith_iff.mpr ⟨⟨s, h.lifespan s hs, hs⟩, .inl ⟨m.traceRange.min, ?_, ?_⟩⟩
  · exact m.traceRange.contains_min
  · rw [h.traceRange]
    exact m.traceRange.contains_min

end Mapping.Within

/-- **The first mapping in the way of one that lies within another is that other**, for it is the
only one. -/
theorem Contents.Corresponds.first_of_within {c : Contents} (hc : c.Corresponds) {id : MappingId}
    {m m' : Mapping} {s : Snap} (hm : c.mapping? id = some m) (h : m'.Within m)
    (hs : m'.lifespan.contains s = true) :
    firstMappingConflict? c.mappings.values m' = some id := by
  cases hfirst : firstMappingConflict? c.mappings.values m' with
  | none =>
    have hfree := firstMappingConflict?_eq_none.mp hfirst m (Contents.mem_mappings.mpr ⟨id, hm⟩)
    rw [h.meets hs] at hfree
    cases hfree
  | some other =>
    obtain ⟨n, hfound, rfl⟩ := Option.map_eq_some_iff.mp hfirst
    obtain ⟨nid, hn⟩ := Contents.mem_mappings.mp (List.mem_of_find?_eq_some hfound)
    have hclash : n.conflictsWith m' = true :=
      List.find?_some (p := fun n : Mapping => n.conflictsWith m') hfound
    rw [hc.keyed nid n hn]
    by_contra hne
    have hapart : n.conflictsWith m = false :=
      hc.apart nid id n m hn hm fun heq => hne (congrArg some heq)
    rw [h.of_conflictsWith hclash] at hapart
    cases hapart

namespace Entry

variable {e : Entry} {c c' : Contents} {image : Image} {m m' : Mapping} {s : Snap}

/-- **What an entry would become later lies within what it would have become before.** -/
theorem Prospect.within (h : c.Narrows c') (hm : e.Prospect c image m)
    (hm' : e.Prospect c' image m') : m'.Within m := by
  obtain ⟨r, b, hr, hb, hmaps⟩ := hm
  obtain ⟨r', b', hr', hb', hmaps'⟩ := hm'
  cases hb.symm.trans hb'
  obtain ⟨hrange, halive⟩ := h _ r r' hr hr'
  rw [hrange] at hmaps'
  exact {
    traceRange := AddressRange.eq_of_size (hmaps'.traceMin.trans hmaps.traceMin.symm)
      (hmaps'.traceSize.trans hmaps.traceSize.symm)
    program := hmaps'.program.trans hmaps.program.symm
    space := hmaps'.space.trans hmaps.space.symm
    staticRange := AddressRange.eq_of_size (hmaps'.staticMin.trans hmaps.staticMin.symm)
      (hmaps'.staticSize.trans hmaps.staticSize.symm)
    lifespan := by
      rw [hmaps'.lifespan, hmaps.lifespan]
      exact halive }

/-- Where its region is alive, so is what it would become. -/
theorem Prospect.contains (hm : e.Prospect c image m) (halive : e.Alive c s) :
    m.lifespan.contains s = true := by
  obtain ⟨r, b, hr, -, hmaps⟩ := hm
  obtain ⟨r', hr', hthere⟩ := halive
  cases hr.symm.trans hr'
  rw [hmaps.lifespan]
  exact hthere

/-! ## Entries in whose way something is -/

/-- **The first committed mapping in the way of an entry** that nothing else is wrong with. -/
structure Blocked (e : Entry) (c : Contents) (image : Image) (s : Snap) (id : MappingId) :
    Prop where
  alive : e.Alive c s
  listed : e.Listed image
  first : ∀ m, e.Prospect c image m → firstMappingConflict? c.mappings.values m = some id

/-- **The mapping of an entry is in the way of its repetition.** -/
theorem blocked_of_narrows (hc' : c'.Corresponds) (h : c.Narrows c') {id : MappingId}
    (hm : e.Prospect c image m) (hmade : c'.mapping? id = some m) (halive : e.Alive c' s)
    (hlisted : e.Listed image) : e.Blocked c' image s id where
  alive := halive
  listed := hlisted
  first _ hm' := hc'.first_of_within hmade (hm.within h hm') (hm'.contains halive)

/-- Entries for regions that have reached no further since are as current as they were. -/
theorem current_of_narrows (h : c.Narrows c') (hcurrent : e.Current c) {r : Region}
    (hr : c.region? e.region.id = some r) : e.Current c' := by
  intro r' hr'
  exact (h _ r r' hr hr').1.trans (hcurrent r hr)

end Entry

section Verdicts

variable {c : Contents} {image : Image} {s : Snap} {k k' : Counters} {e : Entry} {id : MappingId}

/-- **The step**: with nothing staged, the verdict on such an entry names the mapping, and a number
is used up. -/
theorem Verdict.overlap_of_blocked {verdict : Except FailureReason Mapping}
    (h : Verdict c image s k [] e k' verdict) (hblocked : e.Blocked c image s id)
    (hleft : k.mapping.toNat < reservedId.toNat) :
    verdict = .error (.overlap id) ∧ k'.mapping.toNat = k.mapping.toNat + 1 := by
  cases h with
  | staleRegion hdead => exact absurd hblocked.alive hdead
  | staleBlock _ hunlisted => exact absurd hblocked.listed hunlisted
  | exhausted _ _ hnone =>
    rw [Counters.takeMapping?_eq_none.mp hnone] at hleft
    exact absurd hleft (Nat.lt_irrefl _)
  | @clash _ m other range _ _ hprospect htaken hfirst =>
    rw [List.map_nil, List.append_nil, hblocked.first m hprospect] at hfirst
    cases hfirst
    exact ⟨rfl, Counters.toNat_mapping_of_take htaken⟩
  | @staged _ m _ _ hprospect _ hfree =>
    rw [List.map_nil, List.append_nil, hblocked.first m hprospect] at hfree
    cases hfree

/-- What is reported of entries, each of which is told the mapping in its way. -/
def overlapsOf (entries : List Entry) (ids : List MappingId) : List Failure :=
  List.zipWith (fun e id => ⟨e.region.id, .overlap id⟩) entries ids

/-- **The run**: if something is in the way of every entry, all fail for that, in order. -/
theorem Judged.overlaps_of_blocked {made : List (Entry × Mapping)} {entries : List Entry}
    {failures : List Failure} {ids : List MappingId}
    (h : Judged c image s k [] entries k' made failures)
    (hblocked : List.Forall₂ (fun e id => e.Blocked c image s id) entries ids)
    (hroom : k.mapping.toNat + entries.length ≤ reservedId.toNat) :
    failures = overlapsOf entries ids := by
  generalize hbefore : ([] : List (Entry × Mapping)) = before at h
  induction h generalizing ids with
  | nil k made =>
    cases hblocked
    rfl
  | staged hverdict _ _ =>
    subst hbefore
    cases hblocked with
    | cons hfirst _ =>
      rw [List.length_cons] at hroom
      obtain ⟨herror, -⟩ := hverdict.overlap_of_blocked hfirst (by omega)
      cases herror
  | failed hverdict _ ih =>
    subst hbefore
    cases hblocked with
    | cons hfirst hrest =>
      rw [List.length_cons] at hroom
      obtain ⟨herror, htook⟩ := hverdict.overlap_of_blocked hfirst (by omega)
      cases herror
      rw [ih hrest (by omega) rfl]
      rfl

end Verdicts

/-! ## Committing again -/

section Again

variable {id : TraceId} {t : Trace} {p : Proposal} {image : Image} {s : Snap}
  {summary : CommitSummary}

/-- Numbers have not run out in a commit that succeeded. -/
theorem not_runsOut_of_ok (h : (commitProposal t p image s).2 = .ok summary) :
    ¬ p.RunsOut t image s := by
  rintro ⟨f, hf, -⟩
  rw [commitProposal_of_failures (List.ne_nil_of_mem hf)] at h
  cases h

/-- What a commit that succeeded has made: a mapping for each of its entries, all of which were
committable. -/
theorem Trace.Reached.committed (h : t.Reached id)
    (hcurrent : ∀ e ∈ p.accepted, e.Current t.contents)
    (hok : (commitProposal t p image s).2 = .ok summary) :
    Committable t.contents image s p.accepted ∧
      ∃ made, t.contents.Gains (commitProposal t p image s).1.contents image p.accepted made ∧
        summary.created = made.map (·.id) := by
  have hsettled : Settlement t p image s ((commitProposal t p image s).1, .ok summary) := by
    rw [← hok]
    exact h.settlement hcurrent (not_runsOut_of_ok hok)
  exact ⟨hsettled.ok_iff.mp ⟨summary, rfl⟩, hsettled.of_ok.1⟩

/-- **What was committed is in the way of itself**: of every entry its own mapping. -/
theorem Trace.Reached.blocked (h : t.Reached id) (hcurrent : ∀ e ∈ p.accepted, e.Current t.contents)
    (hok : (commitProposal t p image s).2 = .ok summary) {steps : List Trace.Step}
    (hforth : .undo ∉ steps) {s' : Snap} :
    let c' := ((commitProposal t p image s).1.run steps).contents
    (∀ e ∈ p.accepted, e.Alive c' s') →
      List.Forall₂ (fun e id => e.Blocked c' image s' id) p.accepted summary.created ∧
        ∀ e ∈ p.accepted, e.Current c' := by
  intro c' halive
  obtain ⟨hfit, made, hgains, hcreated⟩ := h.committed hcurrent hok
  have hafter : (commitProposal t p image s).1.Reached id := h.calls [.commitProposal p image s]
  have hc' : c'.Corresponds := Contents.Corresponds.lasting.attained (hafter.run steps).attained
  have hgrows := hafter.grows hforth
  -- regions are in the contents after the commit what they were before it
  have hregion : ∀ rid, (commitProposal t p image s).1.contents.region? rid =
      t.contents.region? rid := by
    intro rid
    rw [Contents.region?, hgains.regions]
    rfl
  have hnarrows : t.contents.Narrows c' := by
    intro rid r r' hr hr'
    exact hafter.narrows hforth rid r r' ((hregion rid).trans hr) hr'
  refine ⟨?_, fun e he => ?_⟩
  · rw [hcreated, List.forall₂_map_right_iff, List.forall₂_iff_zip]
    refine ⟨hgains.prospects.length_eq, fun {e m} hpair => ?_⟩
    obtain ⟨he, hm⟩ := List.of_mem_zip hpair
    have hthere : (commitProposal t p image s).1.contents.mapping? m.id = some m :=
      (hgains.mappings m.id m).mpr (.inr ⟨hm, rfl⟩)
    obtain ⟨m', hm'⟩ := hgrows.held (.mapping m.id) ⟨m, hthere⟩
    rw [hgrows.mapping m.id m m' hthere hm'] at hm'
    exact Entry.blocked_of_narrows hc' hnarrows (List.forall₂_zip hgains.prospects hpair) hm'
      (halive e he) (hfit.listed e he)
  · obtain ⟨r, hr, -⟩ := hfit.alive e he
    exact Entry.current_of_narrows hnarrows (hcurrent e he) hr

end Again

/-- **A proposal that was committed is refused in full when it is committed again.**  The trace is
any that calls can lead to, with whatever contents it started from; the proposal was made for
regions that the trace has or had, and revised in any way.

Where its commit has made mappings, and after any further calls but undo, at a snap at which the
regions of all accepted entries are alive, and with numbers left: every accepted entry fails, in
order, each because of the mapping that was made for it. -/
theorem recommits_rejected {c : Contents} (hc : c.Attained) (id : TraceId) (name : String)
    (limit : Nat) (calls : List Trace.Call) (regions : List Region) (source : Image)
    (revisions : List Proposal.Revision) (image : Image) (s : Snap) (summary : CommitSummary)
    (later : List Trace.Call) (s' : Snap) :
    let opened := Trace.ofContents id name c limit
    let t := opened.calls calls
    let p := (propose regions source).revised revisions
    let t' := (commitProposal t p image s).1.calls later
    (∀ r ∈ regions, ∃ n, (opened.calls (calls.take n)).contents.region? r.id = some r) →
    (commitProposal t p image s).2 = .ok summary → summary.created ≠ [] →
    .step .undo ∉ later → (∀ e ∈ p.accepted, e.Alive t'.contents s') →
    t'.counters.mapping.toNat + summary.created.length ≤ reservedId.toNat →
      p.accepted.length = summary.created.length ∧
      (commitProposal t' p image s').2 =
        .error (.rejected (overlapsOf p.accepted summary.created)) := by
  intro opened t p t' hfound hok hsome hforth halive hroom
  have hcurrent : ∀ e ∈ p.accepted, e.Current t.contents :=
    current_of_found hc id name limit calls hfound
  have hreached : t.Reached id := (Trace.reached_ofContents hc id name limit).calls calls
  obtain ⟨steps, hundo, hsteps⟩ := (commitProposal t p image s).1.exists_forth_of_calls later
  have ht' : t' = (commitProposal t p image s).1.run steps := hsteps
  rw [ht'] at halive hroom ⊢
  obtain ⟨hblocked, hcurrent'⟩ :=
    hreached.blocked hcurrent hok (fun hin => hforth (hundo hin)) halive
  have hlength : p.accepted.length = summary.created.length := hblocked.length_eq
  obtain ⟨k, made, failures, hjudged, hcheck⟩ := check_eq hcurrent' image s'
  have hfailures : failures = overlapsOf p.accepted summary.created :=
    hjudged.overlaps_of_blocked hblocked (hlength ▸ hroom)
  have hreported := congrArg Checked.failures hcheck
  refine ⟨hlength, ?_⟩
  rw [commitProposal_of_failures, hreported]
  · exact congrArg (fun fs => Except.error (CommitError.rejected fs)) hfailures
  · rw [hreported]
    show failures ≠ []
    rw [hfailures, overlapsOf, ne_eq, List.zipWith_eq_nil_iff, not_or]
    exact ⟨fun hnil => hsome (List.eq_nil_of_length_eq_zero (by rw [← hlength, hnil]; rfl)), hsome⟩

/-- What happens after the chart is committed: one of its regions is closed, something else is
mapped, and a redo finds nothing to redo. -/
def recommitCalls : List Trace.Call :=
  [.step (.begin "close"), .step (.edit ⟨2⟩ (.destroyRegion ⟨0⟩ 7)),
   .step (.edit ⟨2⟩ (.addMapping ⟨0x64000, 0x64fff, by decide⟩ (.since 2) "libc" ⟨"ram", 0x100⟩)),
   .step (.commit ⟨2⟩), .step .redo, .step .clearHistory]

/-- Committed again at another snap, both entries are told of their own mappings. -/
theorem chart_recommit_rejected :
    let t := (Trace.ofContents ⟨1⟩ "echo" .empty 50).calls chartCalls
    let t' := (commitProposal t chartProposal chartImage 3).1.calls recommitCalls
    (commitProposal t chartProposal chartImage 3).2 =
        .ok ⟨[⟨0⟩, ⟨1⟩], [.mappingAdded ⟨0⟩, .mappingAdded ⟨1⟩]⟩ ∧
      t'.contents.mappings.values.map (·.id) = [⟨0⟩, ⟨1⟩, ⟨2⟩] ∧
      (commitProposal t' chartProposal chartImage 5).2 =
        .error (.rejected [⟨⟨0⟩, .overlap ⟨0⟩⟩, ⟨⟨1⟩, .overlap ⟨1⟩⟩]) := by
  intro t t'
  have hfound : ∀ r ∈ [chartData, chartText], ∃ n,
      ((Trace.ofContents ⟨1⟩ "echo" .empty 50).calls (chartCalls.take n)).contents.region? r.id =
        some r := by
    intro r hr
    refine ⟨4, ?_⟩
    revert r
    decide
  have hok : (commitProposal t chartProposal chartImage 3).2 =
      .ok ⟨[⟨0⟩, ⟨1⟩], [.mappingAdded ⟨0⟩, .mappingAdded ⟨1⟩]⟩ := by
    rw [chartProposal_eq]
    decide
  have hthere : t'.contents.mappings.values.map (·.id) = [⟨0⟩, ⟨1⟩, ⟨2⟩] := by
    show ((commitProposal t chartProposal chartImage 3).1.calls
      recommitCalls).contents.mappings.values.map (·.id) = _
    rw [chartProposal_eq]
    decide
  have hroom : t'.counters.mapping.toNat + 2 ≤ reservedId.toNat := by
    show ((commitProposal t chartProposal chartImage 3).1.calls
      recommitCalls).counters.mapping.toNat + 2 ≤ _
    rw [chartProposal_eq]
    decide
  have halive : ∀ e ∈ chartProposal.accepted, e.Alive t'.contents 5 := by
    have hfind : ∀ e ∈ chartProposal.accepted,
        (((commitProposal t chartProposal chartImage 3).1.calls recommitCalls).contents.region?
          e.region.id).any (·.isAliveAt 5) = true := by
      rw [chartProposal_eq]
      decide
    exact fun e he => (Option.any_eq_true _ _).mp (hfind e he)
  have hforth : .step .undo ∉ recommitCalls := by simp [recommitCalls]
  have hagain : (commitProposal t' chartProposal chartImage 5).2 =
      .error (.rejected (overlapsOf chartProposal.accepted [⟨0⟩, ⟨1⟩])) :=
    (recommits_rejected .empty ⟨1⟩ "echo" 50 chartCalls [chartData, chartText] chartImage _
      chartImage 3 _ recommitCalls 5 hfound hok (List.cons_ne_nil _ _) hforth halive hroom).2
  refine ⟨hok, hthere, hagain.trans ?_⟩
  rw [chartProposal_eq]
  decide

end RegionAtlas
