/-
  Atomicity — a commit that is refused is an abort, and nothing else.

  Applying the operations of a transaction works on the live contents, and on the first that does
  not fit reverts those before it.  That this restores every record depends on what the transaction
  makes being fresh, which is an invariant of the whole run and not of the transaction
  (`Apart`); given it, `Trace.commit_refused` leaves no difference between the two.

  Everything else follows from the one equation `(t.commit d).1 = t.abort d`: contents, history and
  listeners are untouched, the other transactions are as they were, and whatever happens to the
  trace later happens as if the transaction had been aborted.  A desk that holds the trace tells
  nobody.
-/
import RegionAtlas.Desk
import RegionAtlas.Proofs.Course

namespace RegionAtlas

/-! ## Desks -/

/-- A step that tells nothing changes the trace on the desk, and no window and no recorder. -/
theorem Desk.stepTrace_of_silent {desk : Desk} {id : TraceId} {t : Trace} {s : Trace.Step}
    (ht : desk.trace? id = some t) (hsilent : (t.step s).2.told = []) :
    (desk.stepTrace id s).1 = desk.setTrace (t.step s).1 := by
  rw [stepTrace, onTrace, ht]
  show (desk.setTrace (t.step s).1).tellAll (t.step s).1 (t.step s).2.told = _
  rw [hsilent]
  rfl

/-! ## Refused commits -/

/-- Of the ways a commit can end, only an abort is refused. -/
theorem commit_eq_abort {t : Trace} {T : Timeline} {d : DraftId} {why : Refusal}
    (ht : Tells t.contents t.history T) (ha : Apart t T) (h : (t.commit d).2 = .refused why) :
    t.commit d = (t.abort d, .refused why) := by
  cases hd : t.draft? d with
  | none =>
    rw [Trace.commit_notOpen hd] at h
    cases h
  | some tx =>
    have hfresh := ha.fresh ht hd
    cases hempty : tx.isEmpty with
    | true =>
      rw [Trace.commit_empty hd hempty] at h
      cases h
    | false =>
      cases hcarried : Operation.carryOut t.contents tx.operations with
      | error why' =>
        rw [Trace.commit_refused hd hfresh hcarried] at h ⊢
        cases h
        rfl
      | ok c =>
        obtain ⟨told, hcommit⟩ := Trace.commit_carryOut hd hempty hfresh hcarried
        rw [hcommit] at h
        cases h

/-- **Failed commits are atomic.**  On every trace that a run can lead to, a commit that is refused
leaves contents, both stacks with their descriptions, and listeners as they were, tells nobody, and
leaves every other transaction and the whole later life of the trace as an abort would. -/
theorem refused_commit_atomic (id : TraceId) (name : String) (c : Contents) (limit : Nat)
    (steps : List Trace.Step) (d : DraftId) (why : Refusal) :
    let t := (Trace.ofContents id name c limit).run steps
    let t' := (t.commit d).1
    (t.commit d).2 = .refused why →
      (∀ rid, t'.contents.region? rid = t.contents.region? rid) ∧
      (∀ mid, t'.contents.mapping? mid = t.contents.mapping? mid) ∧
      t'.history.done = t.history.done ∧ t'.history.undone = t.history.undone ∧
      t'.history.undoDescription? = t.history.undoDescription? ∧
      t'.history.redoDescription? = t.history.redoDescription? ∧
      t'.listeners = t.listeners ∧ (t.commit d).2.told = [] ∧
      (∀ (desk : Desk) (tid : TraceId), desk.trace? tid = some t →
        (desk.stepTrace tid (.commit d)).1 = desk.setTrace (t.abort d)) ∧
      (∀ other, other ≠ d → t'.draft? other = t.draft? other) ∧
      (∀ other, t'.commit other = (t.abort d).commit other) ∧
      (∀ later, t'.run later = (t.abort d).run later) ∧
      t'.contents = t.contents ∧ t' = t.abort d := by
  intro t t' hrefused
  obtain ⟨ht, ha⟩ := course_ofContents id name c limit steps
  have hcommit : t.commit d = (t.abort d, .refused why) := commit_eq_abort ht ha hrefused
  have habort : t' = t.abort d := congrArg Prod.fst hcommit
  have htold : (t.commit d).2.told = [] := by rw [hrefused]; rfl
  -- an abort changes nothing but which transactions are open
  rw [habort]
  refine ⟨fun _ => rfl, fun _ => rfl, rfl, rfl, rfl, rfl, rfl, htold, fun desk tid htid => ?_,
    fun other hne => ?_, fun _ => rfl, fun _ => rfl, rfl, rfl⟩
  · rw [Desk.stepTrace_of_silent (s := .commit d) htid htold]
    exact congrArg desk.setTrace habort
  · rw [Trace.draft?_abort, if_neg fun heq => hne heq.symm]

/-- Two transactions want one address: the first commits, and the second has staged a mapping
before the region that no longer fits. -/
def clashingSteps : List Trace.Step :=
  [.begin "first", .begin "second",
   .edit ⟨0⟩ (.createRegion "text" ⟨0x5000, 0x5fff, by decide⟩ 0 ⟨true, false, true⟩),
   .edit ⟨1⟩ (.addMapping ⟨0x100, 0x1ff, by decide⟩ (.since 0) "echo" ⟨"ram", 0x400000⟩),
   .edit ⟨1⟩ (.createRegion "data" ⟨0x5800, 0x67ff, by decide⟩ 0 ⟨true, true, false⟩),
   .commit ⟨0⟩]

/-- A commit that is refused at its second operation takes back the first. -/
theorem clashing_commit_atomic :
    let t := (Trace.ofContents ⟨1⟩ "echo" .empty 50).run clashingSteps
    (t.commit ⟨1⟩).2 = .refused (.overlap ⟨0x5800, 0x67ff, by decide⟩ (.region ⟨0⟩)) ∧
      (t.commit ⟨1⟩).1.contents = t.contents ∧ (t.commit ⟨1⟩).1 = t.abort ⟨1⟩ := by
  intro t
  have hrefused : (t.commit ⟨1⟩).2 =
      .refused (.overlap ⟨0x5800, 0x67ff, by decide⟩ (.region ⟨0⟩)) := by decide
  obtain ⟨-, -, -, -, -, -, -, -, -, -, -, -, hcontents, habort⟩ :=
    refused_commit_atomic ⟨1⟩ "echo" .empty 50 clashingSteps ⟨1⟩ _ hrefused
  exact ⟨hrefused, hcontents, habort⟩

end RegionAtlas
