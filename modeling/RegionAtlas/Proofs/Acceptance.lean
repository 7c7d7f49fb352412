/-
  Acceptance — when a proposal is committed, and what comes of it.

  The check of a proposal is made of verdicts, and a verdict is about one entry and those before it.
  The commit that follows is made of operations on contents.  Between the two:

    1. no entry fails exactly if the entries are committable (`failures_eq_nil_iff`);
    2. mappings that conflict with nothing committed and with no other can be made one after the
       other (`carryOut_createMappings`), and are new, since the transaction that holds them was
       reached by steps of the trace;
    3. what was made is what one undo takes back, if the trace remembers any command at all
       (`undo_of_recorded`).

  So a commit ends in one of three ways (`Settlement`): with failures and nothing changed but
  numbers, with nothing to make and nothing recorded, or with a prospect for each entry made in one
  command.

  Regions that a proposal was made for may have been destroyed, undone or closed meanwhile.  That
  matters for which entries are committable, and not for how they are judged: whatever has happened,
  what is found under the number of such a region has the range that it had (`current_of_found`).
-/
import RegionAtlas.Proofs.Checking
import RegionAtlas.Proofs.Foresight
import RegionAtlas.Proofs.Revision
import RegionAtlas.Proofs.UndoRedo

namespace RegionAtlas

/-! ## Mappings made one after the other -/

namespace Operation

theorem mappings_createMapping (ms : List Mapping) : mappings (ms.map createMapping) = ms := by
  rw [mappings, List.filterMap_map]
  exact List.filterMap_some

/-- Nothing is in the way after a mapping is made, if nothing was before and the mapping is not. -/
theorem mappingConflict?_insertMapping {c : Contents} {m n : Mapping}
    (hfree : c.mappingConflict? n = none) (hapart : m.conflictsWith n = false) :
    (c.insertMapping m).mappingConflict? n = none := by
  refine firstMappingConflict?_eq_none.mpr ?_
  intro other hother
  obtain ⟨id, hid⟩ := Contents.mem_mappings.mp hother
  rw [Contents.mapping?_insertMapping] at hid
  split at hid
  · cases hid
    exact hapart
  · exact firstMappingConflict?_eq_none.mp hfree other (Contents.mem_mappings.mpr ⟨id, hid⟩)

/-- **Mappings that are in nothing's way can all be made**, and regions stay as they are. -/
theorem carryOut_createMappings {c : Contents} {ms : List Mapping}
    (hfree : ∀ m ∈ ms, c.mappingConflict? m = none)
    (hapart : ms.Pairwise fun m n => m.conflictsWith n = false) :
    ∃ c', carryOut c (ms.map createMapping) = .ok c' ∧ c'.regions = c.regions := by
  induction ms generalizing c with
  | nil => exact ⟨c, rfl, rfl⟩
  | cons m rest ih =>
    obtain ⟨hfirst, hrest⟩ := List.pairwise_cons.mp hapart
    have hfits : Fits c (.createMapping m) (c.insertMapping m) (.mappingAdded m.id) :=
      .createMapping (hfree m List.mem_cons_self)
    have hlater : ∀ n ∈ rest, (c.insertMapping m).mappingConflict? n = none := by
      intro n hn
      exact mappingConflict?_insertMapping (hfree n (List.mem_cons_of_mem _ hn)) (hfirst n hn)
    obtain ⟨c', hcarried, hregions⟩ := ih hlater hrest
    refine ⟨c', ?_, hregions⟩
    rw [List.map_cons, carryOut_cons_of_fits hfits, hcarried]

end Operation

/-! ## Numbers that run out -/

/-- Whether some entry fails for want of a number. -/
def Proposal.RunsOut (p : Proposal) (t : Trace) (image : Image) (s : Snap) : Prop :=
  ∃ f ∈ (p.check t image s).failures, f.reason = .invalid (.idsExhausted .mappings)

instance (p : Proposal) (t : Trace) (image : Image) (s : Snap) : Decidable (p.RunsOut t image s) :=
  inferInstanceAs (Decidable (∃ f ∈ (p.check t image s).failures, _))

/-- Whether a mapping is asked for, and so a number taken, for an entry. -/
def Entry.isAsking (e : Entry) (c : Contents) (image : Image) (s : Snap) : Bool :=
  match e.mappingEdit (c.region? e.region.id) image s with
  | .ok _ => true
  | .error _ => false

/-- How many numbers the commit of a proposal takes, if there are as many. -/
def Proposal.demand (p : Proposal) (t : Trace) (image : Image) (s : Snap) : Nat :=
  p.accepted.countP (·.isAsking t.contents image s)

theorem Entry.isAsking_iff {e : Entry} {c : Contents} (hcurrent : e.Current c) {image : Image}
    {s : Snap} : e.isAsking c image s = true ↔ e.Alive c s ∧ e.Listed image := by
  have hasks := e.asks_mappingEdit hcurrent image s
  rw [isAsking]
  cases hedit : e.mappingEdit (c.region? e.region.id) image s with
  | ok edit =>
    rw [hedit] at hasks
    cases hasks with
    | mapping halive hlisted _ _ _ => exact iff_of_true rfl ⟨halive, hlisted⟩
  | error reason =>
    rw [hedit] at hasks
    cases hasks with
    | staleRegion hdead => exact iff_of_false nofun fun h => hdead h.1
    | staleBlock _ hunlisted => exact iff_of_false nofun fun h => hunlisted h.2

theorem Counters.takeMapping?_eq_none {k : Counters} :
    k.takeMapping? = none ↔ k.mapping = reservedId := by
  rw [takeMapping?]
  split
  · next hreserved => exact iff_of_true rfl hreserved
  · next hfree =>
    refine iff_of_false (fun h => ?_) hfree
    cases h

theorem Counters.toNat_mapping_of_take {k k' : Counters} {id : MappingId}
    (h : k.takeMapping? = some (id, k')) : k'.mapping.toNat = k.mapping.toNat + 1 := by
  rw [takeMapping?] at h
  split at h
  · cases h
  · next hfree =>
    cases h
    have hlt := UInt64.lt_iff_toNat_lt.mp (lt_succ hfree)
    have hadd := UInt64.toNat_add k.mapping 1
    rw [show (1 : UInt64).toNat = 1 from rfl] at hadd
    have hmod := Nat.mod_le (k.mapping.toNat + 1) (2 ^ 64)
    show (k.mapping + 1).toNat = k.mapping.toNat + 1
    omega

theorem toNat_le_reservedId (n : UInt64) : n.toNat ≤ reservedId.toNat := by
  have hlt : n.toNat < 2 ^ 64 := n.toNat_lt
  have hreserved : reservedId.toNat = 2 ^ 64 - 1 := rfl
  omega

/-- The reason that the trace had no number left. -/
abbrev FailureReason.unnumbered : FailureReason := .invalid (.idsExhausted .mappings)

/-- A mapping that is in the way is not a want of numbers. -/
theorem FailureReason.ofRefusal_overlap_ne (made : List Made) (range : AddressRange)
    (id : MappingId) : ofRefusal made (.overlap range (.mapping id)) ≠ .unnumbered := by
  simp only [ofRefusal]
  split <;> exact nofun

/-- **The step**: an entry that asks for a mapping takes a number, or fails if there is none;
another entry leaves the numbers as they are. -/
theorem Verdict.numbers {c : Contents} {image : Image} {s : Snap} {k k' : Counters}
    {before : List (Entry × Mapping)} {e : Entry} {verdict : Except FailureReason Mapping}
    (h : Verdict c image s k before e k' verdict) (hcurrent : e.Current c) :
    (k.mapping = reservedId ∧ e.isAsking c image s = true ∧ verdict = .error .unnumbered) ∨
    (k'.mapping.toNat = k.mapping.toNat + (e.isAsking c image s).toNat ∧
      verdict ≠ .error .unnumbered) := by
  have hquiet : ¬ (e.Alive c s ∧ e.Listed image) → (e.isAsking c image s).toNat = 0 := by
    intro hnot
    rw [Bool.eq_false_of_not_eq_true (mt (Entry.isAsking_iff hcurrent).mp hnot)]
    rfl
  have hloud : e.Alive c s → e.Listed image → e.isAsking c image s = true := fun ha hl =>
    (Entry.isAsking_iff hcurrent).mpr ⟨ha, hl⟩
  cases h with
  | staleRegion hdead => exact .inr ⟨by rw [hquiet fun h => hdead h.1, Nat.add_zero], nofun⟩
  | staleBlock _ hunlisted =>
    exact .inr ⟨by rw [hquiet fun h => hunlisted h.2, Nat.add_zero], nofun⟩
  | exhausted halive hlisted hnone =>
    exact .inl ⟨Counters.takeMapping?_eq_none.mp hnone, hloud halive hlisted, rfl⟩
  | clash halive hlisted _ htaken _ =>
    refine .inr ⟨?_, fun hwant => FailureReason.ofRefusal_overlap_ne _ _ _ (Except.error.inj hwant)⟩
    rw [hloud halive hlisted, Counters.toNat_mapping_of_take htaken]
    rfl
  | staged halive hlisted _ htaken _ =>
    refine .inr ⟨?_, nofun⟩
    rw [hloud halive hlisted, Counters.toNat_mapping_of_take htaken]
    rfl

/-- **Some entry fails for want of a number exactly if fewer are left than are asked for.** -/
theorem Judged.unnumbered_iff {c : Contents} {image : Image} {s : Snap} {k k' : Counters}
    {before made : List (Entry × Mapping)} {entries : List Entry} {failures : List Failure}
    (h : Judged c image s k before entries k' made failures)
    (hcurrent : ∀ e ∈ entries, e.Current c) :
    (∃ f ∈ failures, f.reason = .unnumbered) ↔
      reservedId.toNat < k.mapping.toNat + entries.countP (·.isAsking c image s) := by
  induction h with
  | nil k made =>
    refine iff_of_false nofun ?_
    exact Nat.not_lt_of_le (toNat_le_reservedId k.mapping)
  | @staged k k₁ k' before made failures e m rest hverdict _ ih =>
    rw [ih fun f hf => hcurrent f (List.mem_cons_of_mem _ hf), List.countP_cons]
    rcases hverdict.numbers (hcurrent e List.mem_cons_self) with ⟨-, -, hwant⟩ | ⟨htook, -⟩
    · cases hwant
    · rw [htook, Nat.add_assoc, Nat.add_comm (Bool.toNat _), Bool.toNat, Bool.cond_eq_ite]
  | @failed k k₁ k' before made failures e reason rest hverdict _ ih =>
    have hrest := ih fun f hf => hcurrent f (List.mem_cons_of_mem _ hf)
    rw [List.exists_mem_cons_iff, hrest, List.countP_cons]
    rcases hverdict.numbers (hcurrent e List.mem_cons_self) with
      ⟨hreserved, hasking, hwant⟩ | ⟨htook, hnumbered⟩
    · refine iff_of_true (.inl (Except.error.inj hwant)) ?_
      rw [hasking, hreserved, if_pos rfl]
      omega
    · rw [or_iff_right fun hwant => hnumbered (congrArg Except.error hwant), htook, Nat.add_assoc,
        Nat.add_comm (Bool.toNat _), Bool.toNat, Bool.cond_eq_ite]

/-- **Numbers run out exactly if fewer are left than the proposal asks for.** -/
theorem Proposal.runsOut_iff {t : Trace} {p : Proposal} {image : Image} {s : Snap}
    (hcurrent : ∀ e ∈ p.accepted, e.Current t.contents) :
    p.RunsOut t image s ↔
      reservedId.toNat < t.counters.mapping.toNat + p.demand t image s := by
  obtain ⟨k, made, failures, hjudged, hcheck⟩ := check_eq hcurrent image s
  rw [RunsOut, hcheck]
  exact hjudged.unnumbered_iff hcurrent

/-- **Numbers do not run out while there are as many as entries.** -/
theorem Proposal.not_runsOut {t : Trace} {p : Proposal} {image : Image} {s : Snap}
    (hcurrent : ∀ e ∈ p.accepted, e.Current t.contents)
    (hroom : t.counters.mapping.toNat + p.accepted.length ≤ reservedId.toNat) :
    ¬ p.RunsOut t image s := by
  have hdemand : p.demand t image s ≤ p.accepted.length := List.countP_le_length
  rw [Proposal.runsOut_iff hcurrent]
  omega

/-! ## What is made -/

/-- **Contents with a mapping more for every entry**: the mappings made, in the order of the entries
and of their numbers, are prospects of the entries; nothing is there but they and what was. -/
structure Contents.Gains (c c' : Contents) (image : Image) (entries : List Entry)
    (made : List Mapping) : Prop where
  prospects : List.Forall₂ (fun e m => e.Prospect c image m) entries made
  ascending : made.Pairwise fun m n => m.id.raw < n.id.raw
  fresh : ∀ m ∈ made, c.mapping? m.id = none
  mappings : ∀ id m, c'.mapping? id = some m ↔ c.mapping? id = some m ∨ m ∈ made ∧ m.id = id
  regions : c'.regions = c.regions

/-- Nothing is gained without entries. -/
theorem Contents.gains_nothing (c : Contents) (image : Image) : c.Gains c image [] [] where
  prospects := .nil
  ascending := .nil
  fresh _ hm := nomatch hm
  mappings id m := by simp only [List.not_mem_nil, false_and, or_false]
  regions := rfl

theorem committable_nil (c : Contents) (image : Image) (s : Snap) : Committable c image s [] where
  alive _ he := nomatch he
  listed _ he := nomatch he
  free _ he := nomatch he
  apart := .nil

/-- **What is staged without a failure can be made**, and is what contents gain. -/
theorem Cleared.gains {c : Contents} {image : Image} {s : Snap} {k : Counters}
    {made : List (Entry × Mapping)} (h : Cleared c image s k made)
    (hfresh : Operation.Fresh c ((made.map (·.2)).map .createMapping)) :
    ∃ c', Operation.carryOut c ((made.map (·.2)).map .createMapping) = .ok c' ∧
      c.Gains c' image (made.map (·.1)) (made.map (·.2)) := by
  have hfree : ∀ m ∈ made.map (·.2), c.mappingConflict? m = none := by
    intro m hm
    obtain ⟨p, hp, rfl⟩ := List.mem_map.mp hm
    refine firstMappingConflict?_eq_none.mpr ?_
    intro n hn
    obtain ⟨id, hid⟩ := Contents.mem_mappings.mp hn
    exact h.free p hp id n hid
  obtain ⟨c', hcarried, hregions⟩ :=
    Operation.carryOut_createMappings hfree (List.pairwise_map.mpr h.apart)
  refine ⟨c', hcarried, ?_⟩
  exact {
    prospects := by
      rw [List.forall₂_map_left_iff, List.forall₂_map_right_iff, List.forall₂_same]
      exact h.prospect
    ascending := List.pairwise_map.mpr h.ascending
    fresh := by
      intro m hm
      refine Contents.not_holds_mapping.mp (hfresh.2 (.mapping m.id) ?_)
      exact Operation.mem_made.mpr ⟨.createMapping m, List.mem_map.mpr ⟨m, hm, rfl⟩, rfl⟩
    mappings := by
      intro id m
      rw [Operation.mapping?_carryOut hfresh hcarried, Operation.mappings_createMapping]
    regions := hregions }

/-! ## Undo -/

/-- **What was recorded last is what undo takes back**, where commands are remembered. -/
theorem Trace.undo_of_recorded {t : Trace} {c : Contents} {h : History} {command : Command}
    (hrecorded : t.history = h.record command) (hlimit : 0 < h.limit)
    (hfresh : Operation.Fresh c command.operations)
    (hcarried : Operation.carryOut c command.operations = .ok t.contents) :
    (∃ told, t.undo.2 = .done told) ∧ t.undo.1.contents = c := by
  obtain ⟨n, hn⟩ := Nat.exists_eq_succ_of_ne_zero (Nat.ne_of_gt hlimit)
  have hdone : t.history.done = command :: h.done.take n := by
    rw [hrecorded]
    show (command :: h.done).take h.limit = _
    rw [hn]
    rfl
  have hback : (Operation.revertAll t.contents command.operations).1 = c :=
    Operation.revertAll_carryOut hfresh hcarried
  rw [undo, hdone]
  exact ⟨⟨_, rfl⟩, hback⟩

/-- Where no command is remembered, there is nothing to undo. -/
theorem Trace.undo_of_forgotten {t : Trace} {h : History} {command : Command}
    (hrecorded : t.history = h.record command) (hlimit : h.limit = 0) :
    t.undo = (t, .refused .nothingToUndo) := by
  have hdone : t.history.done = [] := by
    rw [hrecorded]
    show (command :: h.done).take h.limit = _
    rw [hlimit]
    rfl
  rw [undo, hdone]

/-! ## How a commit ends -/

/-- The trace with numbers used: a transaction was opened, and mapping numbers were taken. -/
def Trace.usedUp (t : Trace) (k : Counters) : Trace :=
  { t with counters := k, nextDraft := t.nextDraft + 1 }

/-- The command that makes mappings for a proposal. -/
def Proposal.command (p : Proposal) (made : List Mapping) : Command :=
  ⟨"Map regions to " ++ p.program, made.map .createMapping⟩

/-- **How the commit of a proposal ends.** -/
inductive Settlement (t : Trace) (p : Proposal) (image : Image) (s : Snap) :
    Trace × Except CommitError CommitSummary → Prop where
  /-- Some entries failed. -/
  | rejected {k : Counters} {failures : List Failure} (some : failures ≠ [])
      (unfit : ¬ Committable t.contents image s p.accepted) :
      Settlement t p image s (t.usedUp k, .error (.rejected failures))
  /-- No entry is accepted. -/
  | idle (none : p.accepted = []) :
      Settlement t p image s (t.usedUp t.counters, .ok ⟨[], []⟩)
  /-- All entries passed, and one command makes their mappings. -/
  | mapped {k : Counters} {c' : Contents} {made : List Mapping} {told : List Change}
      (some : p.accepted ≠ []) (fit : Committable t.contents image s p.accepted)
      (gains : t.contents.Gains c' image p.accepted made)
      (fresh : Operation.Fresh t.contents (p.command made).operations)
      (carried : Operation.carryOut t.contents (p.command made).operations = .ok c') :
      Settlement t p image s
        ({ t.usedUp k with contents := c', history := t.history.record (p.command made) },
          .ok ⟨made.map (·.id), told⟩)

section Commit

variable {t : Trace} {p : Proposal} {image : Image} {s : Snap}

/-- A transaction that holds mappings for a proposal is committed as one command. -/
theorem Trace.commit_staging {k : Counters} {made : List Mapping} {c' : Contents}
    (hunopened : t.draft? ⟨t.nextDraft⟩ = none) (hsome : made ≠ [])
    (hfresh : Operation.Fresh t.contents (p.command made).operations)
    (hcarried : Operation.carryOut t.contents (p.command made).operations = .ok c') :
    ∃ told, (t.staging ("Map regions to " ++ p.program) k made).commit ⟨t.nextDraft⟩ =
      ({ t.usedUp k with contents := c', history := t.history.record (p.command made) },
        .done told) := by
  have hempty : (Transaction.ofMappings ("Map regions to " ++ p.program) made).isEmpty = false := by
    cases made with
    | nil => exact absurd rfl hsome
    | cons m rest => rfl
  obtain ⟨told, hcommit⟩ := Trace.commit_carryOut
    (t := t.staging ("Map regions to " ++ p.program) k made)
    (t.draft?_staging _ k made) hempty hfresh hcarried
  refine ⟨told, ?_⟩
  rw [hcommit, abort_staging hunopened]
  rfl

/-- **Every commit of a proposal ends in one of the three ways**, if its regions are the ones they
were and numbers do not run out. -/
theorem settlement_of_commit (hcurrent : ∀ e ∈ p.accepted, e.Current t.contents)
    (hunopened : t.draft? ⟨t.nextDraft⟩ = none)
    (hfresh : ∀ tx, (p.check t image s).trace.draft? ⟨t.nextDraft⟩ = some tx →
      Operation.Fresh (p.check t image s).trace.contents tx.operations)
    (hroom : ¬ p.RunsOut t image s) : Settlement t p image s (commitProposal t p image s) := by
  obtain ⟨k, made, failures, hjudged, hcheck⟩ := check_eq hcurrent image s
  have hnumbers : ∀ f ∈ failures, f.reason ≠ .invalid (.idsExhausted .mappings) := by
    intro f hf hwant
    exact hroom ⟨f, by rw [hcheck]; exact hf, hwant⟩
  have hfailures : (p.check t image s).failures = failures := congrArg Checked.failures hcheck
  have htrace : (p.check t image s).trace =
      t.staging ("Map regions to " ++ p.program) k (made.map (·.2)) :=
    congrArg Checked.trace hcheck
  by_cases hnone : failures = []
  · have hpassed : (p.check t image s).failures = [] := hfailures.trans hnone
    have hcleared : Cleared t.contents image s k made := hjudged.sound (cleared_nil _ _ _ _)
    have hall : made.map (·.1) = p.accepted := hjudged.map_fst hnone
    have hids : (p.check t image s).made.map (·.mapping) = (made.map (·.2)).map (·.id) := by
      rw [hcheck, List.map_map]
      exact List.map_map
    have hstaged : Operation.Fresh t.contents ((made.map (·.2)).map .createMapping) := by
      rw [htrace] at hfresh
      exact hfresh _ (t.draft?_staging _ _ _)
    by_cases hempty : p.accepted = []
    · -- nothing was judged, so no number was taken and nothing is staged
      rw [hempty] at hjudged
      cases hjudged
      have hcommit : (p.check t image s).trace.commit ⟨t.nextDraft⟩ =
          (t.usedUp t.counters, .done []) := by
        rw [htrace, Trace.commit_empty (t.draft?_staging _ _ _) rfl, Trace.abort_staging hunopened]
        rfl
      rw [commitProposal_of_done hpassed hcommit, hids]
      exact .idle hempty
    · obtain ⟨c', hcarried, hgains⟩ := hcleared.gains hstaged
      rw [hall] at hgains
      have hsome : made.map (·.2) ≠ [] := by
        intro hnil
        rw [List.map_eq_nil_iff.mp hnil] at hall
        exact hempty hall.symm
      obtain ⟨told, hcommit⟩ :=
        Trace.commit_staging (p := p) (k := k) hunopened hsome hstaged hcarried
      rw [← htrace] at hcommit
      rw [commitProposal_of_done hpassed hcommit, hids]
      exact .mapped hempty ((failures_eq_nil_iff hjudged hnumbers).mp hnone) hgains hstaged hcarried
  · have hfailed : (p.check t image s).failures ≠ [] := by
      rw [hfailures]
      exact hnone
    rw [commitProposal_of_failures hfailed, hfailures, htrace, Trace.abort_staging hunopened]
    refine .rejected hnone ?_
    rw [← failures_eq_nil_iff hjudged hnumbers]
    exact hnone

/-- It succeeds exactly if the entries are committable. -/
theorem Settlement.ok_iff {result : Trace × Except CommitError CommitSummary}
    (h : Settlement t p image s result) :
    (∃ summary, result.2 = .ok summary) ↔ Committable t.contents image s p.accepted := by
  cases h with
  | rejected _ hunfit =>
    constructor
    · rintro ⟨summary, hsummary⟩
      cases hsummary
    · intro hfit
      exact absurd hfit hunfit
  | idle hnone =>
    rw [hnone]
    exact ⟨fun _ => committable_nil t.contents image s, fun _ => ⟨_, rfl⟩⟩
  | mapped _ hfit _ _ _ => exact ⟨fun _ => hfit, fun _ => ⟨_, rfl⟩⟩

/-- What has come of it where it succeeds. -/
theorem Settlement.of_ok {after : Trace} {summary : CommitSummary}
    (h : Settlement t p image s (after, .ok summary)) :
    (∃ made, t.contents.Gains after.contents image p.accepted made ∧
      summary.created = made.map (·.id)) ∧
    (p.accepted ≠ [] → 0 < t.history.limit →
      (∃ told, after.undo.2 = .done told) ∧ after.undo.1.contents = t.contents) ∧
    (p.accepted ≠ [] → t.history.limit = 0 → after.undo = (after, .refused .nothingToUndo)) ∧
    (p.accepted = [] → after = { t with nextDraft := t.nextDraft + 1 }) := by
  cases h with
  | idle hnone =>
    refine ⟨⟨[], ?_, rfl⟩, fun hsome => absurd hnone hsome, fun hsome => absurd hnone hsome,
      fun _ => rfl⟩
    rw [hnone]
    exact t.contents.gains_nothing image
  | mapped hsome _ hgains hfresh hcarried =>
    refine ⟨⟨_, hgains, rfl⟩, ?_, ?_, fun hnone => absurd hnone hsome⟩
    · intro _ hlimit
      exact Trace.undo_of_recorded rfl hlimit hfresh hcarried
    · intro _ hlimit
      exact Trace.undo_of_forgotten rfl hlimit

/-- What has come of it where it fails. -/
theorem Settlement.of_error {after : Trace} {why : CommitError}
    (h : Settlement t p image s (after, .error why)) :
    (∃ failures, failures ≠ [] ∧ why = .rejected failures) ∧
    ∃ k, after = { t with counters := k, nextDraft := t.nextDraft + 1 } := by
  cases h with
  | rejected hsome _ => exact ⟨⟨_, hsome, rfl⟩, _, rfl⟩

end Commit

/-! ## Every trace and every proposal -/

theorem Trace.calls_append (t : Trace) (xs ys : List Trace.Call) :
    t.calls (xs ++ ys) = (t.calls xs).calls ys := List.foldl_append

/-- **Entries for regions that a trace has or had are current**, whatever was done to the trace
since and to the proposal. -/
theorem current_of_found {c : Contents} (hc : c.Attained) (id : TraceId) (name : String)
    (limit : Nat) (calls : List Trace.Call) {regions : List Region} {source : Image}
    {revisions : List Proposal.Revision} :
    let opened := Trace.ofContents id name c limit
    (∀ r ∈ regions, ∃ n, (opened.calls (calls.take n)).contents.region? r.id = some r) →
      ∀ e ∈ ((propose regions source).revised revisions).accepted,
        e.Current (opened.calls calls).contents := by
  intro opened hfound e he r hr
  have hasked : e.region ∈ regions := Proposal.region_mem_of_revised (List.mem_filter.mp he).1
  obtain ⟨n, hthen⟩ := hfound e.region hasked
  obtain ⟨before, hbefore⟩ := opened.exists_run_of_calls (calls.take n)
  obtain ⟨later, hlater⟩ := (opened.run before).exists_run_of_calls (calls.drop n)
  rw [← List.take_append_drop n calls, Trace.calls_append, hbefore, hlater] at hr
  rw [hbefore] at hthen
  obtain ⟨hsame, -⟩ :=
    region_kept (keyed_of_attained hc) id name limit before later hthen hr
  rw [hsame]
  rfl

/-- **A proposal is committed exactly if it is committable, and exactly as it says.**  The trace is
any that calls can lead to, with whatever contents it started from; the proposal was made for
regions that the trace has or had, and revised in any way; numbers do not run out.

  * It succeeds exactly if every accepted entry's region is there and alive, its block is in the
    image, and its prospect conflicts with no committed mapping and no other entry's prospect.
  * Then the trace gains one prospect per entry, told in order; one undo takes them back, unless the
    trace is one that remembers nothing; and without an entry nothing is recorded.
  * Otherwise nothing changes but numbers. -/
theorem commits_committable_proposals {c : Contents} (hc : c.Attained) (id : TraceId)
    (name : String) (limit : Nat) (calls : List Trace.Call) (regions : List Region)
    (source : Image) (revisions : List Proposal.Revision) (image : Image) (s : Snap) :
    let opened := Trace.ofContents id name c limit
    let t := opened.calls calls
    let p := (propose regions source).revised revisions
    let after := (commitProposal t p image s).1
    let reply := (commitProposal t p image s).2
    (∀ r ∈ regions, ∃ n, (opened.calls (calls.take n)).contents.region? r.id = some r) →
    ¬ p.RunsOut t image s →
      ((∃ summary, reply = .ok summary) ↔ Committable t.contents image s p.accepted) ∧
      (∀ summary, reply = .ok summary →
        (∃ made, t.contents.Gains after.contents image p.accepted made ∧
          summary.created = made.map (·.id)) ∧
        (p.accepted ≠ [] → 0 < limit →
          (∃ told, after.undo.2 = .done told) ∧ after.undo.1.contents = t.contents) ∧
        (p.accepted ≠ [] → limit = 0 → after.undo = (after, .refused .nothingToUndo)) ∧
        (p.accepted = [] → after = { t with nextDraft := t.nextDraft + 1 })) ∧
      (∀ why, reply = .error why →
        (∃ failures, failures ≠ [] ∧ why = .rejected failures) ∧
        ∃ k, after = { t with counters := k, nextDraft := t.nextDraft + 1 }) := by
  intro opened t p after reply hfound hroom
  obtain ⟨steps, hsteps⟩ := opened.exists_run_of_calls calls
  have ht : t = opened.run steps := hsteps
  have hcurrent : ∀ e ∈ p.accepted, e.Current t.contents :=
    current_of_found hc id name limit calls hfound
  have hunopened : t.draft? ⟨t.nextDraft⟩ = none := by
    obtain ⟨R, hj⟩ := journaled_ofContents id name c limit (keyed_of_attained hc) steps
    rw [ht]
    exact (hj.unopened _ (Nat.le_refl _)).1
  have hlimit : t.history.limit = limit := by
    obtain ⟨htells, -⟩ := course_ofContents id name c limit steps
    rw [ht]
    exact htells.limit.symm.trans (Timeline.limit_along _ _ _)
  -- the check is itself a run of steps, so what it stages is new
  have hfresh : ∀ tx, (p.check t image s).trace.draft? ⟨t.nextDraft⟩ = some tx →
      Operation.Fresh (p.check t image s).trace.contents tx.operations := by
    intro tx hd
    obtain ⟨more, hmore⟩ := t.exists_run_of_check p image s
    have hrun : (p.check t image s).trace = opened.run (steps ++ more) := by
      rw [Trace.run_append, ← ht]
      exact hmore
    obtain ⟨htells, hapart⟩ := course_ofContents id name c limit (steps ++ more)
    rw [hrun] at hd ⊢
    exact hapart.fresh htells hd
  have hsettled : Settlement t p image s (after, reply) :=
    settlement_of_commit hcurrent hunopened hfresh hroom
  refine ⟨hsettled.ok_iff, ?_, ?_⟩
  · intro summary hok
    rw [hok] at hsettled
    rw [← hlimit]
    exact hsettled.of_ok
  · intro why herror
    rw [herror] at hsettled
    exact hsettled.of_error

/-! ## A proposal made by hand -/

def chartData : Region :=
  ⟨⟨0⟩, ⟨1⟩, "data", ⟨0xd000, 0xdfff, by decide⟩, ⟨true, true, false⟩, .since 0⟩

def chartText : Region :=
  ⟨⟨1⟩, ⟨1⟩, "text", ⟨0xc000, 0xcfff, by decide⟩, ⟨true, false, true⟩, .since 0⟩

def chartLow : Block := ⟨"low", "ram", ⟨0x600000, 0x600fff, by decide⟩⟩

def chartHigh : Block := ⟨"high", "ram", ⟨0x700000, 0x7007ff, by decide⟩⟩

/-- Two blocks, one of them smaller than the regions. -/
def chartImage : Image := ⟨"echo", [chartLow, chartHigh]⟩

def chartCalls : List Trace.Call :=
  [.step (.begin "regions"),
   .step (.edit ⟨0⟩ (.createRegion chartData.name chartData.range 0 chartData.permissions)),
   .step (.edit ⟨0⟩ (.createRegion chartText.name chartText.range 0 chartText.permissions)),
   .step (.commit ⟨0⟩)]

/-- A proposal for both regions: the second is given the block that the first was given, and the
first then gets the other. -/
def chartProposal : Proposal :=
  (propose [chartData, chartText] chartImage).revised
    [.setBlock 0 (some chartHigh), .setBlock 1 (some chartHigh), .setBlock 0 (some chartLow)]

/-- The names of the regions tell no module, so that no block is proposed for them. -/
theorem propose_chart (image : Image) : propose [chartData, chartText] image =
    ⟨image.name, [.ofPair chartData none, .ofPair chartText none], ⟨0, 0⟩⟩ := by
  have hkeys : [chartData, chartText].filterMap (fun r => ModuleKey.ofName? r.name) = [] := by
    decide
  have hpairings : pairings image [chartData, chartText] = [] := by
    rw [pairings, groups, hkeys]
    simp only [distinctKeys, List.map_nil, List.mergeSort_nil]
    rfl
  exact propose_of_sorted (by decide) hpairings (by decide)

theorem chartProposal_eq : chartProposal =
    ⟨"echo", [⟨chartData, some chartLow, true⟩, ⟨chartText, some chartHigh, true⟩], ⟨0, 0⟩⟩ := by
  rw [chartProposal, propose_chart]
  decide

/-- It is committed, the smaller block deciding how far the second mapping reaches, and undone. -/
theorem chart_committed :
    let t := (Trace.ofContents ⟨1⟩ "echo" .empty 50).calls chartCalls
    let after := (commitProposal t chartProposal chartImage 3).1
    Committable t.contents chartImage 3 chartProposal.accepted ∧
      after.contents.mappings.values.map (fun m => (m.id, m.traceRange.min, m.traceRange.size)) =
        [(⟨0⟩, 0xd000, 0x1000), (⟨1⟩, 0xc000, 0x800)] ∧
      after.undo.1.contents = t.contents := by
  intro t after
  have hfound : ∀ r ∈ [chartData, chartText], ∃ n,
      ((Trace.ofContents ⟨1⟩ "echo" .empty 50).calls (chartCalls.take n)).contents.region? r.id =
        some r := by
    intro r hr
    refine ⟨4, ?_⟩
    revert r
    decide
  have hroom : ¬ chartProposal.RunsOut t chartImage 3 := by
    refine Proposal.not_runsOut (current_of_found .empty ⟨1⟩ "echo" 50 chartCalls hfound) ?_
    show t.counters.mapping.toNat + chartProposal.accepted.length ≤ reservedId.toNat
    rw [chartProposal_eq]
    decide
  have hsome : chartProposal.accepted ≠ [] := by
    rw [chartProposal_eq]
    decide
  have hreply : (commitProposal t chartProposal chartImage 3).2 =
      .ok ⟨[⟨0⟩, ⟨1⟩], [.mappingAdded ⟨0⟩, .mappingAdded ⟨1⟩]⟩ := by
    rw [chartProposal_eq]
    decide
  have hmade : after.contents.mappings.values.map
      (fun m => (m.id, m.traceRange.min, m.traceRange.size)) =
        [(⟨0⟩, 0xd000, 0x1000), (⟨1⟩, 0xc000, 0x800)] := by
    show (commitProposal t chartProposal chartImage 3).1.contents.mappings.values.map _ = _
    rw [chartProposal_eq]
    decide
  obtain ⟨hiff, hok, -⟩ := commits_committable_proposals .empty ⟨1⟩ "echo" 50 chartCalls
    [chartData, chartText] chartImage _ chartImage 3 hfound hroom
  obtain ⟨-, hundo, -⟩ := hok _ hreply
  exact ⟨hiff.mp ⟨_, hreply⟩, hmade, (hundo hsome (by decide)).2⟩

/-- A trace that remembers nothing commits it as well, and has nothing to undo. -/
theorem chart_stays_unremembered :
    let t := (Trace.ofContents ⟨1⟩ "echo" .empty 0).calls chartCalls
    let after := (commitProposal t chartProposal chartImage 3).1
    (∀ r ∈ [chartData, chartText], t.contents.region? r.id = some r) ∧
      ¬ chartProposal.RunsOut t chartImage 3 ∧ chartProposal.accepted ≠ [] ∧
      (commitProposal t chartProposal chartImage 3).2 =
        .ok ⟨[⟨0⟩, ⟨1⟩], [.mappingAdded ⟨0⟩, .mappingAdded ⟨1⟩]⟩ ∧
      after.undo.2 = .refused .nothingToUndo ∧
      after.undo.1.contents.mappings ≠ t.contents.mappings := by
  rw [chartProposal_eq]
  decide

end RegionAtlas
