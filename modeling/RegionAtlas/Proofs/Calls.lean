/-
  Calls — everything that can be asked of a trace, and why all of it comes down to steps.

  Besides its own steps a trace is asked to commit proposals.  That is a program over steps: it
  opens a transaction, makes an edit for every entry that passes, and commits or aborts
  (`commitProposal_of_failures`, `fst_commitProposal`).  So a run of calls leads where some run of
  steps leads (`exists_run_of_calls`), and what holds along every run of steps holds along every run
  of calls.  Nor do such steps go back where no call does (`exists_forth_of_calls`).  In particular
  the contents after a run of calls are contents that a trace can start from (`attained_of_calls`).
-/
import RegionAtlas.Pairing.Commit
import RegionAtlas.Proofs.Origin

namespace RegionAtlas

/-! ## Checking entries -/

namespace Checked

/-- An entry makes one edit in the transaction, or none. -/
theorem trace_next (k : Checked) (d : DraftId) (image : Image) (s : Snap) (e : Entry) :
    ∃ edits : List Edit, (k.next d image s e).trace = k.trace.run (edits.map (.edit d)) := by
  unfold next
  dsimp only
  split
  · exact ⟨[], rfl⟩
  · next edit _ =>
    refine ⟨[edit], ?_⟩
    show _ = (k.trace.edit d edit).1
    split
    · next t m hedit => rw [hedit]
    · next t why hedit => rw [hedit]
    · next t reply _ _ hedit => rw [hedit]

/-- Entries make edits in the transaction and nothing else. -/
theorem trace_foldl (k : Checked) (d : DraftId) (image : Image) (s : Snap) (entries : List Entry) :
    ∃ edits : List Edit,
      (entries.foldl (fun k e => k.next d image s e) k).trace =
        k.trace.run (edits.map (.edit d)) := by
  induction entries generalizing k with
  | nil => exact ⟨[], rfl⟩
  | cons e rest ih =>
    obtain ⟨first, hfirst⟩ := k.trace_next d image s e
    obtain ⟨more, hmore⟩ := ih (k.next d image s e)
    refine ⟨first ++ more, ?_⟩
    rw [List.foldl_cons, hmore, hfirst, List.map_append, Trace.run_append]

end Checked

/-- What comes of the accepted entries of a proposal, checked in a transaction opened for them. -/
def Proposal.check (p : Proposal) (t : Trace) (image : Image) (s : Snap) : Checked :=
  p.accepted.foldl (fun k e => k.next ⟨t.nextDraft⟩ image s e)
    ⟨(t.begin ("Map regions to " ++ p.program)).1, [], []⟩

section Commit

variable {t t' : Trace} {p : Proposal} {image : Image} {s : Snap}

/-- **Committing a proposal is checking its entries**, and then aborting the transaction if any
fails. -/
theorem commitProposal_of_failures (hsome : (p.check t image s).failures ≠ []) :
    commitProposal t p image s =
      ((p.check t image s).trace.abort ⟨t.nextDraft⟩,
        .error (.rejected (p.check t image s).failures)) := by
  unfold commitProposal
  dsimp only
  split
  · next hnone => exact absurd hnone hsome
  · rfl

/-- If none fails the transaction is committed, whatever comes of it. -/
theorem fst_commitProposal (hnone : (p.check t image s).failures = []) :
    (commitProposal t p image s).1 = ((p.check t image s).trace.commit ⟨t.nextDraft⟩).1 := by
  unfold commitProposal
  dsimp only
  split
  · show _ = ((p.check t image s).trace.commit ⟨t.nextDraft⟩).1
    split
    · next hcommit => exact (congrArg Prod.fst hcommit).symm
    · next hcommit => exact (congrArg Prod.fst hcommit).symm
  · next hsome => exact absurd hnone hsome

/-- And the mappings made are what is told of it. -/
theorem commitProposal_of_done {told : List Change} (hnone : (p.check t image s).failures = [])
    (hdone : (p.check t image s).trace.commit ⟨t.nextDraft⟩ = (t', .done told)) :
    commitProposal t p image s =
      (t', .ok ⟨(p.check t image s).made.map (·.mapping), told⟩) := by
  unfold commitProposal
  dsimp only
  split
  · show _ = (t', Except.ok (CommitSummary.mk ((p.check t image s).made.map (·.mapping)) told))
    split
    · next hrefused =>
      have hreplies := congrArg Prod.snd (hrefused.symm.trans hdone)
      cases hreplies
    · next hreply =>
      have hsame := hreply.symm.trans hdone
      cases hsame
      rfl
  · next hsome => exact absurd hnone hsome

end Commit

/-! ## Calls -/

namespace Trace

/-- What can be asked of a trace: one of its steps, or to commit a proposal. -/
inductive Call where
  | step (s : Step)
  | commitProposal (p : Proposal) (image : Image) (s : Snap)

/-- The trace after a call. -/
def call (t : Trace) : Call → Trace
  | .step s => (t.step s).1
  | .commitProposal p image s => (RegionAtlas.commitProposal t p image s).1

/-- The trace after calls in order. -/
def calls (t : Trace) (cs : List Call) : Trace := cs.foldl call t

/-- Checking the entries of a proposal is a run of steps, none of which goes back. -/
theorem exists_forth_of_check (t : Trace) (p : Proposal) (image : Image) (s : Snap) :
    ∃ steps, Step.undo ∉ steps ∧ (p.check t image s).trace = t.run steps := by
  obtain ⟨edits, hedits⟩ := Checked.trace_foldl
    ⟨(t.begin ("Map regions to " ++ p.program)).1, [], []⟩ ⟨t.nextDraft⟩ image s p.accepted
  refine ⟨.begin ("Map regions to " ++ p.program) :: edits.map (.edit ⟨t.nextDraft⟩), ?_, hedits⟩
  intro hundo
  rcases List.mem_cons.mp hundo with hbegin | hedit
  · cases hbegin
  · obtain ⟨e, -, he⟩ := List.mem_map.mp hedit
    cases he

theorem exists_run_of_check (t : Trace) (p : Proposal) (image : Image) (s : Snap) :
    ∃ steps, (p.check t image s).trace = t.run steps := by
  obtain ⟨steps, -, hsteps⟩ := t.exists_forth_of_check p image s
  exact ⟨steps, hsteps⟩

/-- Every call leads where a run of steps leads, and only undo has a step that goes back. -/
theorem exists_forth_of_call (t : Trace) (c : Call) :
    ∃ steps, (Step.undo ∈ steps → c = .step .undo) ∧ t.call c = t.run steps := by
  cases c with
  | step s => exact ⟨[s], fun h => congrArg Call.step (List.mem_singleton.mp h).symm, rfl⟩
  | commitProposal p image s =>
    obtain ⟨steps, hforth, hsteps⟩ := t.exists_forth_of_check p image s
    have hlast : ∀ last : Step, last ≠ .undo → Step.undo ∉ steps ++ [last] := by
      intro last hne hundo
      rcases List.mem_append.mp hundo with hin | hin
      · exact hforth hin
      · exact hne (List.mem_singleton.mp hin).symm
    show ∃ steps, _ ∧ (RegionAtlas.commitProposal t p image s).1 = t.run steps
    by_cases hnone : (p.check t image s).failures = []
    · refine ⟨steps ++ [.commit ⟨t.nextDraft⟩], fun h => absurd h (hlast _ nofun), ?_⟩
      rw [fst_commitProposal hnone, run_append, ← hsteps]
      rfl
    · refine ⟨steps ++ [.abort ⟨t.nextDraft⟩], fun h => absurd h (hlast _ nofun), ?_⟩
      rw [commitProposal_of_failures hnone, run_append, ← hsteps]
      rfl

/-- **Calls lead where steps lead**, and go back only where they are asked to. -/
theorem exists_forth_of_calls (t : Trace) (cs : List Call) :
    ∃ steps, (Step.undo ∈ steps → Call.step .undo ∈ cs) ∧ t.calls cs = t.run steps := by
  induction cs generalizing t with
  | nil => exact ⟨[], nofun, rfl⟩
  | cons c rest ih =>
    obtain ⟨first, hfirstForth, hfirst⟩ := t.exists_forth_of_call c
    obtain ⟨more, hmoreForth, hmore⟩ := ih (t.call c)
    refine ⟨first ++ more, ?_, ?_⟩
    · intro hundo
      rcases List.mem_append.mp hundo with hin | hin
      · rw [hfirstForth hin]
        exact List.mem_cons_self
      · exact List.mem_cons_of_mem _ (hmoreForth hin)
    · show (t.call c).calls rest = _
      rw [hmore, hfirst, run_append]

theorem exists_run_of_calls (t : Trace) (cs : List Call) :
    ∃ steps, t.calls cs = t.run steps := by
  obtain ⟨steps, -, hsteps⟩ := t.exists_forth_of_calls cs
  exact ⟨steps, hsteps⟩

end Trace

/-- **A trace can start from the contents after any calls.** -/
theorem attained_of_calls {c : Contents} (hc : c.Attained) (id : TraceId) (name : String)
    (limit : Nat) (calls : List Trace.Call) :
    ((Trace.ofContents id name c limit).calls calls).contents.Attained := by
  obtain ⟨steps, hsteps⟩ := (Trace.ofContents id name c limit).exists_run_of_calls calls
  rw [hsteps]
  exact .copied id name limit steps hc

end RegionAtlas
