/-
  Commands — what a command makes of a trace.

  A command works on a trace in memory, and all it can do to it are calls: an edit in a transaction
  of its own, or the commit of a proposal.  So

  1. a trace that calls have led to stays one (`Trace.Reached`), and between commands no transaction
     is open and every number in use has been counted;
  2. an edit in a transaction of its own is refused and changes nothing but numbers, or is done, and
     then it fits the contents (`Trace.Reached.editEnds`);
  3. what is proposed is proposed for regions of the trace as they are (`current_of_built`), so that
     the commit of it ends as commits of proposals end (`Trace.Reached.settlement`);
  4. a command looks, or is misread, or makes one edit, or maps (`Action.does`), and so it leads
     along a run (`Trace.Reached.perform`).

  A command that ends well says whether the trace is to be saved, and that depends on nothing but
  which command it is (`perform_of_looks`, `Trace.Reached.ending_of_edits`).
-/
import RegionAtlas.Command.Perform
import RegionAtlas.Proofs.Acceptance
import RegionAtlas.Proofs.Views

namespace RegionAtlas

open Change (Subject)

/-! ## Computations that can fail -/

section Bind

variable {ε ε' α β : Type}

/-- What comes of two computations comes of both. -/
theorem exists_of_bind_eq_ok {x : Except ε α} {f : α → Except ε β} {b : β}
    (h : x.bind f = .ok b) : ∃ a, x = .ok a ∧ f a = .ok b := by
  cases x with
  | error why => cases h
  | ok a => exact ⟨a, rfl, h⟩

theorem of_mapError_eq_ok {x : Except ε α} {f : ε → ε'} {a : α}
    (h : x.mapError f = .ok a) : x = .ok a := by
  cases x with
  | error why => cases h
  | ok a' =>
    cases h
    rfl

end Bind

/-! ## 1. Traces between commands -/

namespace Trace

/-- **A trace that can be come by**: some run leads to it from contents there can be. -/
def Reached (id : TraceId) (t : Trace) : Prop :=
  ∃ name c limit steps, c.Attained ∧ t = (Trace.ofContents id name c limit).run steps

theorem reached_ofContents {c : Contents} (hc : c.Attained) (id : TraceId) (name : String)
    (limit : Nat) : (Trace.ofContents id name c limit).Reached id :=
  ⟨name, c, limit, [], hc, rfl⟩

namespace Reached

variable {id : TraceId} {t : Trace}

theorem run (h : t.Reached id) (steps : List Step) : (t.run steps).Reached id := by
  obtain ⟨name, c, limit, before, hc, rfl⟩ := h
  exact ⟨name, c, limit, before ++ steps, hc, (run_append _ _ _).symm⟩

theorem calls (h : t.Reached id) (cs : List Call) : (t.calls cs).Reached id := by
  obtain ⟨steps, hsteps⟩ := t.exists_run_of_calls cs
  rw [hsteps]
  exact h.run steps

theorem attained (h : t.Reached id) : t.contents.Attained := by
  obtain ⟨name, c, limit, steps, hc, rfl⟩ := h
  exact .copied id name limit steps hc

/-- Numbers in use will not be handed out. -/
theorem covers (h : t.Reached id) {s : Subject} (hs : t.contents.Holds s) :
    t.counters.Covers s := by
  obtain ⟨name, c, limit, steps, -, rfl⟩ := h
  obtain ⟨htells, hapart⟩ := course_ofContents id name c limit steps
  exact hapart.heldCovered _ htells.visits s hs

/-- What an open transaction makes is new. -/
theorem fresh (h : t.Reached id) {d : DraftId} {tx : Transaction} (hd : t.draft? d = some tx) :
    Operation.Fresh t.contents tx.operations := by
  obtain ⟨name, c, limit, steps, -, rfl⟩ := h
  obtain ⟨htells, hapart⟩ := course_ofContents id name c limit steps
  exact hapart.fresh htells hd

theorem unopened (h : t.Reached id) : t.draft? ⟨t.nextDraft⟩ = none := by
  obtain ⟨name, c, limit, steps, hc, rfl⟩ := h
  obtain ⟨R, hj⟩ := journaled_ofContents id name c limit (keyed_of_attained hc) steps
  exact (hj.unopened _ (Nat.le_refl _)).1

theorem owned (h : t.Reached id) : t.id = id := by
  obtain ⟨name, c, limit, steps, hc, rfl⟩ := h
  obtain ⟨R, hj⟩ := journaled_ofContents id name c limit (keyed_of_attained hc) steps
  exact hj.owned

/-- Every region refers back to the trace. -/
theorem ownedBy_contents (h : t.Reached id) : t.contents.ownedBy id = t.contents := by
  obtain ⟨name, c, limit, steps, hc, rfl⟩ := h
  obtain ⟨htells, -⟩ := course_ofContents id name c limit steps
  obtain ⟨R, hj⟩ := journaled_ofContents id name c limit (keyed_of_attained hc) steps
  refine Contents.ext_find (fun rid => ?_) fun _ => rfl
  rw [Contents.region?_ownedBy]
  cases hr : ((Trace.ofContents id name c limit).run steps).contents.region? rid with
  | none => rfl
  | some r =>
    obtain ⟨-, howner⟩ := (hj.regions _ htells.visits).id_owner hr
    rw [← howner]
    rfl

end Reached

end Trace

/-! ## 2. One edit in a transaction of its own -/

/-- What an edit stages in an empty transaction is one operation, and it fits the contents. -/
theorem Transaction.fits_of_stages_start {description : String} {owner : TraceId} {c : Contents}
    {k k' : Counters} {e : Edit} {tx : Transaction} {what : Staged} (hkeyed : c.Keyed)
    (h : Stages (start description) owner c k e k' tx what) :
    ∃ op c' change, tx.description = description ∧ tx.operations = [op] ∧
      Operation.Fits c op c' change := by
  have hsees := sees_start description c
  cases h with
  | @region r _ _ hfree _ =>
    exact ⟨_, _, _, rfl, rfl, .createRegion ((hsees.regionConflict? hkeyed).mp hfree)⟩
  | lifespan hfound _ _ => exact ⟨_, _, _, rfl, rfl, .setLifespan _ hfound⟩
  | mapping _ _ hfree =>
    exact ⟨_, _, _, rfl, rfl, .createMapping (hsees.mappingConflict?.mp hfree)⟩

namespace Trace

variable {id : TraceId} {t : Trace} {description : String} {e : Edit}

/-- A trace with one more transaction open, and other counters. -/
def holding (t : Trace) (k : Counters) (tx : Transaction) : Trace :=
  { t with
    counters := k
    drafts := t.drafts.insert ⟨t.nextDraft⟩ tx
    nextDraft := t.nextDraft + 1 }

theorem draft?_holding (t : Trace) (k : Counters) (tx : Transaction) :
    (t.holding k tx).draft? ⟨t.nextDraft⟩ = some tx := Table.find?_insert_self _ _ _

theorem abort_holding (hunopened : t.draft? ⟨t.nextDraft⟩ = none) (k : Counters)
    (tx : Transaction) : (t.holding k tx).abort ⟨t.nextDraft⟩ = t.usedUp k := by
  have hdrafts : (t.drafts.insert ⟨t.nextDraft⟩ tx).erase ⟨t.nextDraft⟩ = t.drafts :=
    Table.erase_insert hunopened _
  rw [abort, holding]
  dsimp only
  rw [hdrafts]
  rfl

theorem edit_holding_refused {tx : Transaction} {k k' : Counters} {why : Refusal}
    (h : tx.edit t.id t.contents k e = ⟨k', .error why⟩) :
    (t.holding k tx).edit ⟨t.nextDraft⟩ e = (t.holding k' tx, .refused why) := by
  have hresult : (tx.edit (t.holding k tx).id (t.holding k tx).contents (t.holding k tx).counters
      e).result = .error why := congrArg Transaction.Edited.result h
  rw [edit_of_refused (t.draft?_holding k tx) hresult]
  exact congrArg (fun k' => (t.holding k' tx, Reply.refused why))
    (congrArg Transaction.Edited.counters h)

theorem edit_holding_staged {tx tx' : Transaction} {k k' : Counters} {what : Staged}
    (h : tx.Stages t.id t.contents k e k' tx' what) :
    (t.holding k tx).edit ⟨t.nextDraft⟩ e = (t.holding k' tx', .staged what) := by
  have hedit : (t.holding k tx).edit ⟨t.nextDraft⟩ e = _ :=
    edit_of_stages (t.draft?_holding k tx) h
  rw [hedit, holding, holding]
  dsimp only
  rw [Table.insert_insert]

/-- Edits in a transaction of their own are made while it is held. -/
theorem transaction_eq (t : Trace) (description : String) (edits : List Edit) :
    t.transaction description edits =
      match (t.holding t.counters (.start description)).editEach ⟨t.nextDraft⟩ edits with
      | (t', staged, some reply) => (t'.abort ⟨t.nextDraft⟩, staged, reply)
      | (t', staged, none) =>
        ((t'.commit ⟨t.nextDraft⟩).1, staged, (t'.commit ⟨t.nextDraft⟩).2) := rfl

/-- **An edit that is refused** changes nothing but numbers. -/
theorem transaction_of_refused (hunopened : t.draft? ⟨t.nextDraft⟩ = none) {k : Counters}
    {why : Refusal}
    (h : (Transaction.start description).edit t.id t.contents t.counters e = ⟨k, .error why⟩) :
    t.transaction description [e] = (t.usedUp k, [], .refused why) := by
  rw [transaction_eq, editEach, edit_holding_refused h]
  dsimp only
  rw [abort_holding hunopened]

/-- **An edit that is staged** and fits is committed. -/
theorem transaction_of_stages (hunopened : t.draft? ⟨t.nextDraft⟩ = none) {k : Counters}
    {tx : Transaction} {what : Staged} {op : Operation} {c : Contents} {change : Change}
    (h : (Transaction.start description).Stages t.id t.contents t.counters e k tx what)
    (hdescription : tx.description = description) (hoperations : tx.operations = [op])
    (hfresh : Operation.Fresh t.contents [op]) (hfits : Operation.Fits t.contents op c change) :
    ∃ told, t.transaction description [e] =
      ({ t.usedUp k with contents := c, history := t.history.record ⟨description, [op]⟩ },
        [what], .done told) := by
  have hcarried : Operation.carryOut t.contents [op] = .ok c :=
    Operation.carryOut_cons_of_fits hfits []
  have hempty : tx.isEmpty = false := by
    rw [Transaction.isEmpty, hoperations]
    rfl
  rw [← hoperations] at hfresh hcarried
  obtain ⟨told, hcommit⟩ := commit_carryOut (t.draft?_holding k tx) hempty hfresh hcarried
  refine ⟨told, ?_⟩
  rw [transaction_eq, editEach, edit_holding_staged h]
  dsimp only
  rw [editEach]
  dsimp only
  rw [hcommit, abort_holding hunopened, hdescription, hoperations]
  rfl

/-- **How one edit ends**: it is refused and nothing changes but numbers, or what it stages is
done. -/
inductive EditEnds (t : Trace) (description : String) (e : Edit) :
    Trace × List Staged × Reply → Prop where
  | refused {k : Counters} {why : Refusal}
      (checked : (Transaction.start description).edit t.id t.contents t.counters e =
        ⟨k, .error why⟩) :
      EditEnds t description e (t.usedUp k, [], .refused why)
  | done {k : Counters} {tx : Transaction} {what : Staged} {op : Operation} {c : Contents}
      {change : Change} {told : List Change}
      (staged : (Transaction.start description).Stages t.id t.contents t.counters e k tx what)
      (operations : tx.operations = [op]) (fits : Operation.Fits t.contents op c change) :
      EditEnds t description e
        ({ t.usedUp k with contents := c, history := t.history.record ⟨description, [op]⟩ },
          [what], .done told)

theorem Reached.editEnds (h : t.Reached id) (description : String) (e : Edit) :
    EditEnds t description e (t.transaction description [e]) := by
  cases hedit : (Transaction.start description).edit t.id t.contents t.counters e with
  | mk k result =>
    cases result with
    | error why =>
      rw [transaction_of_refused h.unopened hedit]
      exact .refused hedit
    | ok staged =>
      obtain ⟨tx, what⟩ := staged
      have hstages := Transaction.stages_of_edit (congrArg Transaction.Edited.result hedit)
      rw [hedit] at hstages
      obtain ⟨op, c, change, hdescription, hoperations, hfits⟩ :=
        Transaction.fits_of_stages_start (keyed_of_attained h.attained) hstages
      have hfresh : Operation.Fresh t.contents [op] := by
        refine hoperations ▸ ⟨?_, fun s hs hheld => ?_⟩
        · exact Transaction.nodup_made_of_stages hstages .nil fun s hs => nomatch hs
        · rcases Transaction.mem_made_of_stages hstages hs with hs | ⟨hnot, -⟩
          · cases hs
          · exact hnot (h.covers hheld)
      obtain ⟨told, htransaction⟩ := transaction_of_stages h.unopened hstages hdescription
        hoperations hfresh hfits
      rw [htransaction]
      exact .done hstages hoperations hfits

/-- Edits in a transaction of their own are steps. -/
theorem exists_run_of_transaction (t : Trace) (description : String) (e : Edit) :
    ∃ steps, (t.transaction description [e]).1 = t.run steps := by
  have hbegun : (t.step (.begin description)).1 = t.holding t.counters (.start description) := rfl
  cases hedit : (t.holding t.counters (.start description)).edit ⟨t.nextDraft⟩ e with
  | mk t' reply =>
    have hedited : t.run [.begin description, .edit ⟨t.nextDraft⟩ e] = t' := congrArg Prod.fst hedit
    have hcommitted : t.run [.begin description, .edit ⟨t.nextDraft⟩ e, .commit ⟨t.nextDraft⟩] =
        (t'.commit ⟨t.nextDraft⟩).1 := by
      rw [← hedited]
      rfl
    have haborted : t.run [.begin description, .edit ⟨t.nextDraft⟩ e, .abort ⟨t.nextDraft⟩] =
        t'.abort ⟨t.nextDraft⟩ := by
      rw [← hedited]
      rfl
    rw [transaction_eq, editEach, hedit]
    cases reply with
    | staged what => exact ⟨_, hcommitted.symm⟩
    | begun _ => exact ⟨_, haborted.symm⟩
    | done _ => exact ⟨_, haborted.symm⟩
    | subscribed _ => exact ⟨_, haborted.symm⟩
    | refused _ => exact ⟨_, haborted.symm⟩
    | notOpen => exact ⟨_, haborted.symm⟩

end Trace

section Edits

variable {id : TraceId} {t : Trace} {description : String} {e : Edit}
  {confirmation : Staged → String}

theorem trace_performEdit (t : Trace) (description : String) (e : Edit)
    (confirmation : Staged → String) :
    (performEdit t description e confirmation).trace = (t.transaction description [e]).1 := by
  rw [performEdit]
  split
  · next hdone => rw [hdone]
  · next hrefused =>
    rw [hrefused]
    rfl
  · next hother =>
    rw [hother]
    rfl

/-- **An edit that a command makes is refused or done.** -/
theorem ending_performEdit (h : t.Reached id) (description : String) (e : Edit)
    (confirmation : Staged → String) :
    (∃ why, (performEdit t description e confirmation).ending = .error (.refused why)) ∨
      ∃ line, (performEdit t description e confirmation).ending = .ok (.changed line) := by
  have hends := h.editEnds description e
  rw [performEdit]
  cases htransaction : t.transaction description [e] with
  | mk t' rest =>
    rw [htransaction] at hends
    cases hends with
    | refused _ => exact .inl ⟨_, rfl⟩
    | done _ _ _ => exact .inr ⟨_, rfl⟩

end Edits

/-! ## 3. What is proposed -/

section Proposing

/-- The best proposal is one of those that were made. -/
theorem mem_of_foldl_better {best : Option Proposal} {proposals : List Proposal} {p : Proposal}
    (h : proposals.foldl better best = some p) : best = some p ∨ p ∈ proposals := by
  induction proposals generalizing best with
  | nil => exact .inl h
  | cons q rest ih =>
    rcases ih h with hbetter | hrest
    · have hone : better best q = best ∨ better best q = some q := by
        unfold better
        split
        · exact .inl rfl
        · split
          · split
            · exact .inl rfl
            · exact .inr rfl
          · exact .inr rfl
      rcases hone with hsame | hnew
      · exact .inl (hsame.symm.trans hbetter)
      · rw [hnew] at hbetter
        cases hbetter
        exact .inr List.mem_cons_self
    · exact .inr (List.mem_cons_of_mem _ hrest)

/-- **The best proposal is one for some of the images.** -/
theorem exists_image_of_proposeBest {regions : List Region} {images : List Image} {p : Proposal}
    (h : proposeBest regions images = some p) : ∃ image ∈ images, p = propose regions image := by
  rcases mem_of_foldl_better h with hnone | hmem
  · cases hnone
  · obtain ⟨image, himage, hp⟩ := List.mem_map.mp hmem
    exact ⟨image, himage, hp.symm⟩

/-- Blocks are given by revisions. -/
theorem exists_revised_of_assignBlocks {image : Image} {p q : Proposal} {texts : List String}
    (h : (assignBlocks image p texts).result = .ok q) : ∃ revisions, q = p.revised revisions := by
  induction texts generalizing p with
  | nil =>
    cases h
    exact ⟨[], rfl⟩
  | cons text rest ih =>
    rw [assignBlocks] at h
    split at h
    · cases h
    · next index block name _ =>
      obtain ⟨revisions, hrest⟩ := ih h
      exact ⟨.setBlock index block :: revisions, hrest⟩

/-- Entries are taken out by revisions. -/
theorem exists_revised_of_skipEntries {p q : Proposal} {texts : List String}
    (h : skipEntries p texts = .ok q) : ∃ revisions, q = p.revised revisions := by
  induction texts generalizing p with
  | nil =>
    cases h
    exact ⟨[], rfl⟩
  | cons text rest ih =>
    rw [skipEntries] at h
    obtain ⟨id, -, h⟩ := exists_of_bind_eq_ok h
    obtain ⟨index, -, h⟩ := exists_of_bind_eq_ok h
    obtain ⟨revisions, hrest⟩ := ih h
    exact ⟨.setSelected index false :: revisions, hrest⟩

/-- **What is chosen is a proposal for the regions**, against some image. -/
theorem exists_propose_of_chooseProposal {p : Setting} {regions : List Region}
    {program : Option String} {proposal : Proposal} {image : Image}
    (h : chooseProposal p regions program = .ok (proposal, image)) :
    ∃ source, proposal = propose regions source := by
  cases program with
  | some name =>
    rw [chooseProposal] at h
    split at h
    · cases h
    · split at h
      · cases h
        exact ⟨image, rfl⟩
      · cases h
  | none =>
    rw [chooseProposal] at h
    split at h
    · cases h
    · next best hbest =>
      split at h
      · cases h
        obtain ⟨source, -, hsource⟩ := exists_image_of_proposeBest hbest
        exact ⟨source, hsource⟩
      · cases h

variable {p : Setting} {t : Trace} {what : ProposalRequest} {proposal : Proposal} {image : Image}

/-- **What is built is a revised proposal** for regions that were selected. -/
theorem exists_revised_of_built (h : (buildProposal p t what).result = .ok (proposal, image)) :
    ∃ regions source revisions, selection t p.snap what.regions = .ok regions ∧
      proposal = (propose regions source).revised revisions := by
  rw [buildProposal] at h
  dsimp only at h
  split at h
  · cases h
  · next chosen image' hchosen =>
    obtain ⟨regions, hselected, hchosen⟩ := exists_of_bind_eq_ok hchosen
    obtain ⟨edited, hedited, h⟩ := exists_of_bind_eq_ok h
    obtain ⟨skipped, hskipped, h⟩ := exists_of_bind_eq_ok h
    cases h
    split at hchosen
    · cases hchosen
    · obtain ⟨source, rfl⟩ := exists_propose_of_chooseProposal hchosen
      obtain ⟨first, rfl⟩ := exists_revised_of_assignBlocks hedited
      obtain ⟨second, rfl⟩ := exists_revised_of_skipEntries hskipped
      exact ⟨regions, source, first ++ second, hselected, List.foldl_append.symm⟩

/-- What is selected are regions of the trace as they are. -/
theorem region?_of_selection {s : Snap} {named : Option (List String)} {regions : List Region}
    (hkeyed : t.contents.Keyed) (h : selection t s named = .ok regions) {r : Region}
    (hr : r ∈ regions) : t.contents.region? r.id = some r := by
  have hthere : ∀ ids, r ∈ (regionsFor t.contents ids).filter (·.isAliveAt s) →
      t.contents.region? r.id = some r := by
    intro ids hin
    obtain ⟨id, -, hfound⟩ := List.mem_filterMap.mp (List.mem_filter.mp hin).1
    rw [hkeyed id r hfound]
    exact hfound
  cases named with
  | none =>
    cases h
    exact hthere _ hr
  | some texts =>
    obtain ⟨ids, -, h⟩ := exists_of_bind_eq_ok h
    cases h
    exact hthere ids hr

/-- **The entries of what is built are for regions as they are.** -/
theorem current_of_built (hkeyed : t.contents.Keyed)
    (h : (buildProposal p t what).result = .ok (proposal, image)) :
    ∀ e ∈ proposal.accepted, e.Current t.contents := by
  obtain ⟨regions, source, revisions, hselected, rfl⟩ := exists_revised_of_built h
  intro e he r hr
  have hmem : e.region ∈ regions := Proposal.region_mem_of_revised (List.mem_filter.mp he).1
  rw [region?_of_selection hkeyed hselected hmem] at hr
  rw [← Option.some.inj hr]

end Proposing

/-- **The commit of a proposal for regions as they are** ends in one of the three ways, if numbers
do not run out. -/
theorem Trace.Reached.settlement {id : TraceId} {t : Trace} (h : t.Reached id) {p : Proposal}
    {image : Image} {s : Snap} (hcurrent : ∀ e ∈ p.accepted, e.Current t.contents)
    (hroom : ¬ p.RunsOut t image s) : Settlement t p image s (commitProposal t p image s) := by
  refine settlement_of_commit hcurrent h.unopened (fun tx hd => ?_) hroom
  obtain ⟨steps, hsteps⟩ := t.exists_run_of_check p image s
  rw [hsteps] at hd ⊢
  exact (h.run steps).fresh hd

/-! ## 4. Any command -/

/-- What a command that maps comes to, once a proposal is built. -/
theorem ending_performMap {p : Setting} {t : Trace} {what : ProposalRequest}
    {proposal : Proposal} {image : Image}
    (h : (buildProposal p t what).result = .ok (proposal, image)) :
    (∀ summary, (commitProposal t proposal image p.snap).2 = .ok summary →
      ∃ line, (performMap p t what).ending = .ok (.changed line)) ∧
    (∀ why, (commitProposal t proposal image p.snap).2 = .error why →
      ∃ why', (performMap p t what).ending = .error why') ∧
    (∀ failures, (commitProposal t proposal image p.snap).2 = .error (.rejected failures) →
      (performMap p t what).ending = .error (.rejected failures)) ∧
    (performMap p t what).trace = (commitProposal t proposal image p.snap).1 := by
  rw [performMap, h]
  dsimp only
  cases hcommit : commitProposal t proposal image p.snap with
  | mk after reply =>
    cases reply with
    | ok summary =>
      refine ⟨fun _ _ => ⟨_, rfl⟩, fun _ hwhy => ?_, fun _ hfailures => ?_, rfl⟩
      · cases hwhy
      · cases hfailures
    | error why =>
      cases why with
      | rejected failures =>
        refine ⟨fun _ hsummary => ?_, fun _ _ => ⟨_, rfl⟩, fun _ hfailures => ?_, rfl⟩
        · cases hsummary
        · cases hfailures
          rfl
      | refused why =>
        refine ⟨fun _ hsummary => ?_, fun _ _ => ⟨_, rfl⟩, fun _ hfailures => ?_, rfl⟩
        · cases hsummary
        · cases hfailures

/-- Whether a command is one that changes the trace if it succeeds. -/
def Action.edits : Action → Bool
  | .addRegion .. | .destroyRegion .. | .map .. => true
  | .regions .. | .propose .. | .mappings .. => false

theorem ending_translateEach {c : Contents} {s : Snap} {addresses : List String} {ending : Ending}
    (h : (translateEach c s addresses).2 = .ok ending) : ending = .shown := by
  induction addresses with
  | nil =>
    cases h
    rfl
  | cons address rest ih =>
    rw [translateEach] at h
    split at h
    · cases h
    · exact ih h

/-- **A command that only looks** leaves the trace as it is, and shows what it finds if it
succeeds. -/
theorem perform_of_looks {a : Action} (ha : a.edits = false) (p : Setting) (t : Trace) :
    (a.perform p t).trace = t ∧
      ∀ ending, (a.perform p t).ending = .ok ending → ending = .shown := by
  cases a with
  | regions containing =>
    cases containing with
    | none =>
      refine ⟨rfl, fun ending h => ?_⟩
      cases h
      rfl
    | some addresses =>
      rw [Action.perform, performRegions]
      dsimp only
      split
      · exact ⟨rfl, fun ending h => nomatch h⟩
      · refine ⟨rfl, fun ending h => ?_⟩
        cases h
        rfl
  | addRegion name min max permissions => cases ha
  | destroyRegion text => cases ha
  | propose what =>
    rw [Action.perform, performPropose]
    split
    · exact ⟨rfl, fun ending h => nomatch h⟩
    · refine ⟨rfl, fun ending h => ?_⟩
      cases h
      rfl
  | map what => cases ha
  | mappings addresses =>
    cases addresses with
    | none =>
      refine ⟨rfl, fun ending h => ?_⟩
      cases h
      rfl
    | some addresses => exact ⟨rfl, fun ending h => ending_translateEach h⟩

/-- Whether an edit is about a region. -/
def Edit.onRegion : Edit → Bool
  | .addRegion .. | .destroyRegion .. => true
  | .addMapping .. => false

/-- **What a command does**, whichever trace it is given: it looks, or fails since its words are
misread, or makes one edit about a region, or maps. -/
inductive Action.Does (a : Action) (p : Setting) : Prop where
  | looks (looks : a.edits = false)
  | misread (why : CommandError) (edits : a.edits = true)
      (performs : ∀ t, a.perform p t = .fail t why)
  | edits (description : String) (e : Edit) (confirmation : Staged → String)
      (edits : a.edits = true) (about : e.onRegion = true)
      (performs : ∀ t, a.perform p t = performEdit t description e confirmation)
  | maps (what : ProposalRequest) (edits : a.edits = true)
      (performs : ∀ t, a.perform p t = performMap p t what)

theorem Action.does (a : Action) (p : Setting) : a.Does p := by
  cases a with
  | regions containing => exact .looks rfl
  | propose what => exact .looks rfl
  | mappings addresses => exact .looks rfl
  | map what => exact .maps what rfl fun _ => rfl
  | addRegion name min max permissions =>
    cases hread : readRegion min max permissions with
    | error why =>
      refine .misread why rfl fun t => ?_
      rw [perform, performAddRegion, hread]
    | ok asked =>
      refine .edits ("Add region " ++ name) (.createRegion name asked.1 p.snap asked.2)
        (fun what => "Created region " ++ stagedIdText what ++ " at " ++ asked.1.text) rfl rfl
        fun t => ?_
      rw [perform, performAddRegion, hread]
  | destroyRegion text =>
    cases hread : readRegionId text with
    | error why =>
      refine .misread why rfl fun t => ?_
      rw [perform, performDestroyRegion, hread]
    | ok id =>
      refine .edits ("Destroy region " ++ id.text) (.destroyRegion id p.snap)
        (fun _ => "Destroyed region " ++ id.text ++ " at snap " ++ Text.signedDecimal p.snap.toInt)
        rfl rfl fun t => ?_
      rw [perform, performDestroyRegion, hread]

section Performing

variable {id : TraceId} {t : Trace} {a : Action}

/-- **Every command leads along a run.** -/
theorem Trace.Reached.perform (h : t.Reached id) (p : Setting) (a : Action) :
    (a.perform p t).trace.Reached id := by
  cases a.does p with
  | looks hlooks =>
    rw [(perform_of_looks hlooks p t).1]
    exact h
  | misread why _ hperforms =>
    rw [hperforms]
    exact h
  | edits description e confirmation _ _ hperforms =>
    obtain ⟨steps, hsteps⟩ := t.exists_run_of_transaction description e
    rw [hperforms, trace_performEdit, hsteps]
    exact h.run steps
  | maps what _ hperforms =>
    rw [hperforms]
    cases hbuilt : (buildProposal p t what).result with
    | error why =>
      rw [performMap, hbuilt]
      exact h
    | ok built =>
      obtain ⟨proposal, image⟩ := built
      rw [(ending_performMap hbuilt).2.2.2]
      exact h.calls [.commitProposal proposal image p.snap]

/-- **A command that edits** has changed the trace if it succeeds. -/
theorem Trace.Reached.ending_of_edits (h : t.Reached id) {p : Setting} (ha : a.edits = true)
    {ending : Ending} (hok : (a.perform p t).ending = .ok ending) :
    ∃ line, ending = .changed line := by
  cases a.does p with
  | looks hlooks =>
    rw [ha] at hlooks
    cases hlooks
  | misread why _ hperforms =>
    rw [hperforms] at hok
    cases hok
  | edits description e confirmation _ _ hperforms =>
    rw [hperforms] at hok
    rcases ending_performEdit h description e confirmation with ⟨why, hrefused⟩ | ⟨line, hline⟩
    · rw [hrefused] at hok
      cases hok
    · rw [hline] at hok
      cases hok
      exact ⟨line, rfl⟩
  | maps what _ hperforms =>
    rw [hperforms, performMap] at hok
    split at hok
    · cases hok
    · split at hok
      · cases hok
        exact ⟨_, rfl⟩
      · cases hok
      · cases hok

end Performing

end RegionAtlas
