/-
  The course of a trace — the invariant of its runs, and what one step can do.

  Two invariants tie a trace to the timeline that watches it:

    * `Tells`  the timeline's commits before the cursor are realized by the commands done, those
               after it by the commands undone, and the contents in force are those of the trace;
    * `Apart`  whatever open transactions make is covered by the counters, held by no contents that
               the timeline can reach, and made by no other open transaction.

  Each step of the trace is matched by the timeline (`course_step`); the proof goes through one
  lemma for each thing that changes contents or history: `commit_…`, `undo_spec`, `redo_spec`.
  What the step does to everything else is one of the four cases of `Advance`.  Together they are
  kept along every run (`course_run`), from any contents at all (`course_ofContents`).
-/
import RegionAtlas.Proofs.Timeline

namespace RegionAtlas

open Change (Subject)
open Timeline (Commit)

/-! ## The two invariants -/

/-- **A timeline tells the story of contents and their history.** -/
structure Tells (c : Contents) (history : History) (T : Timeline) : Prop where
  limit : T.limit = history.limit
  now : T.now = c
  bounded : T.commits.length ≤ T.limit
  sides : ∃ past future, T.commits = past.reverse ++ future ∧ T.cursor = past.length ∧
    Past history.done past c ∧ Future c history.undone future

/-- **What open transactions make is apart** from all that is held anywhere, and from each other. -/
structure Apart (t : Trace) (T : Timeline) : Prop where
  heldCovered : ∀ c, T.Visits c → ∀ s, c.Holds s → t.counters.Covers s
  madeCovered : ∀ d tx, t.draft? d = some tx → ∀ s ∈ Operation.made tx.operations,
    t.counters.Covers s
  once : ∀ d tx, t.draft? d = some tx → (Operation.made tx.operations).Nodup
  unheld : ∀ d tx, t.draft? d = some tx → ∀ s ∈ Operation.made tx.operations,
    ∀ c, T.Visits c → ¬ c.Holds s
  disjoint : ∀ d d' tx tx', t.draft? d = some tx → t.draft? d' = some tx' → d ≠ d' →
    ∀ s ∈ Operation.made tx.operations, s ∉ Operation.made tx'.operations

theorem Tells.visits {c : Contents} {history : History} {T : Timeline} (h : Tells c history T) :
    T.Visits c := .inl h.now.symm

/-- The operations of an open transaction are fresh for the contents in force. -/
theorem Apart.fresh {t : Trace} {T : Timeline} {d : DraftId} {tx : Transaction}
    (h : Apart t T) (ht : Tells t.contents t.history T) (hd : t.draft? d = some tx) :
    Operation.Fresh t.contents tx.operations :=
  ⟨h.once d tx hd, fun s hs => h.unheld d tx hd s hs t.contents ht.visits⟩

/-! ## Steps that change the history -/

theorem tells_start (c : Contents) (limit : Nat) :
    Tells c (.empty limit) (.start c limit) where
  limit := rfl
  now := rfl
  bounded := Nat.zero_le _
  sides := ⟨[], [], rfl, rfl, .start c, .finish c⟩

/-- A commit: the timeline writes it down and keeps as many as the history does. -/
theorem tells_record {c c' : Contents} {history : History} {T : Timeline} {command : Command}
    (h : Tells c history T) (hfresh : Operation.Fresh c command.operations)
    (hcarried : Operation.carryOut c command.operations = .ok c') :
    Tells c' (history.record command) (T.record ⟨command.description, c, c'⟩) := by
  obtain ⟨past, future, hcommits, hcursor, hpast, -⟩ := h.sides
  let e : Commit := ⟨command.description, c, c'⟩
  have hreal : Realizes command e := ⟨rfl, hfresh, hcarried⟩
  have hpast' : Past (command :: history.done) (e :: past) e.after := .commit hpast hreal
  -- newest first, what is in effect is the past with the new commit in front
  have hall : T.commits.take T.cursor ++ [e] = (e :: past).reverse := by
    rw [hcommits, hcursor, ← @List.length_reverse _ past, List.take_left,
      List.reverse_cons]
  -- dropping the oldest is keeping the newest
  have hkept : (T.record e).commits = ((e :: past).take history.limit).reverse := by
    show (T.commits.take T.cursor ++ [e]).drop _ = _
    rw [hall, List.reverse_take, List.length_reverse, h.limit]
  refine ⟨h.limit, rfl, ?_, (e :: past).take history.limit, [], ?_, ?_,
    hpast'.take history.limit, .finish _⟩
  · rw [hkept, List.length_reverse, List.length_take]
    show min history.limit _ ≤ T.limit
    rw [h.limit]
    exact Nat.min_le_left _ _
  · rw [hkept, List.append_nil]
  · show (T.record e).commits.length = _
    rw [hkept, List.length_reverse]

/-- **Undo**: refused at the beginning of the timeline, and otherwise a move back along it. -/
theorem undo_spec {t : Trace} {T : Timeline} (h : Tells t.contents t.history T) :
    (T.back? = none ∧ t.undo = (t, .refused .nothingToUndo)) ∨
    ∃ T' history told, T.back? = some T' ∧ Tells T'.now history T' ∧
      t.undo = ({ t with contents := T'.now, history := history }, .done told) := by
  obtain ⟨past, future, hcommits, hcursor, hpast, hfuture⟩ := h.sides
  cases hdone : t.history.done with
  | nil =>
    rw [hdone] at hpast
    obtain rfl := hpast.eq_nil
    refine .inl ⟨?_, ?_⟩
    · rw [Timeline.back?, hcursor]
      rfl
    · rw [Trace.undo, hdone]
  | cons command rest =>
    rw [hdone] at hpast
    obtain ⟨e, past', rfl, hearlier, hreal, hafter⟩ := hpast.exists_cons
    -- the commit behind the cursor is the newest of the past
    have hsplit : T.commits = past'.reverse ++ e :: future := by
      rw [hcommits, List.reverse_cons, List.append_assoc, List.singleton_append]
    have hget : T.commits[past'.length]? = some e := by
      rw [hsplit, ← @List.length_reverse _ past',
        List.getElem?_append_right (Nat.le_refl _), Nat.sub_self, List.getElem?_cons_zero]
    have hrevert : (Operation.revertAll t.contents command.operations).1 = e.before := by
      rw [← hafter]
      exact Operation.revertAll_carryOut hreal.fresh hreal.carried
    rw [← hafter] at hfuture
    refine .inr ⟨{ T with cursor := past'.length, now := e.before },
      { t.history with done := rest, undone := command :: t.history.undone },
      Change.net (Operation.revertAll t.contents command.operations).2, ?_, ?_, ?_⟩
    · rw [Timeline.back?, hcursor]
      show T.commits[past'.length]?.map _ = _
      rw [hget]
      rfl
    · exact ⟨h.limit, rfl, h.bounded, past', e :: future, hsplit, rfl, hearlier,
        .commit hreal hfuture⟩
    · rw [Trace.undo, hdone, ← hrevert]

/-- **Redo**: refused at the end of the timeline, and otherwise a move forth along it.  The
commands of the future apply again, so no other refusal is possible. -/
theorem redo_spec {t : Trace} {T : Timeline} (h : Tells t.contents t.history T) :
    (T.forth? = none ∧ t.redo = (t, .refused .nothingToRedo)) ∨
    ∃ T' history told, T.forth? = some T' ∧ Tells T'.now history T' ∧
      t.redo = ({ t with contents := T'.now, history := history }, .done told) := by
  obtain ⟨past, future, hcommits, hcursor, hpast, hfuture⟩ := h.sides
  -- the commit in front of the cursor is the next of the future
  have hget : T.commits[T.cursor]? = future[0]? := by
    rw [hcommits, hcursor, ← @List.length_reverse _ past,
      List.getElem?_append_right (Nat.le_refl _), Nat.sub_self]
  cases hundone : t.history.undone with
  | nil =>
    rw [hundone] at hfuture
    obtain rfl := hfuture.eq_nil
    refine .inl ⟨?_, ?_⟩
    · rw [Timeline.forth?, hget]
      rfl
    · rw [Trace.redo, hundone]
  | cons command rest =>
    rw [hundone] at hfuture
    obtain ⟨e, future', rfl, hreal, hlater, hbefore⟩ := hfuture.exists_cons
    obtain ⟨told, happlied⟩ := Operation.applyAll_carryOut hreal.fresh hreal.carried
    rw [hbefore] at happlied
    rw [← hbefore] at hpast
    refine .inr ⟨{ T with cursor := T.cursor + 1, now := e.after },
      { t.history with done := command :: t.history.done, undone := rest },
      Change.net told, ?_, ?_, ?_⟩
    · rw [Timeline.forth?, hget]
      rfl
    · refine ⟨h.limit, rfl, h.bounded, e :: past, future', ?_, ?_, .commit hpast hreal, hlater⟩
      · show T.commits = _
        rw [hcommits, List.reverse_cons, List.append_assoc, List.singleton_append]
      · exact congrArg (· + 1) hcursor
    · rw [Trace.redo, hundone]
      simp only [happlied]

/-- Clearing the history forgets both sides of the timeline. -/
theorem tells_forget {c : Contents} {history : History} {T : Timeline} (h : Tells c history T) :
    Tells c history.clear T.forget where
  limit := h.limit
  now := h.now
  bounded := Nat.zero_le _
  sides := ⟨[], [], rfl, rfl, .start c, .finish c⟩

/-! ## Open transactions -/

namespace Trace

variable {t : Trace} {T : Timeline} {d : DraftId} {tx : Transaction} {c : Contents}

theorem find?_insert_draft (drafts : Table DraftId Transaction) (d j : DraftId)
    (tx : Transaction) :
    (drafts.insert d tx).find? j = if d = j then some tx else drafts.find? j := by
  rw [Table.find?_insert]
  simp only [Std.LawfulEqCmp.compare_eq_iff_eq]

theorem draft?_abort (t : Trace) (d j : DraftId) :
    (t.abort d).draft? j = if d = j then none else t.draft? j := by
  show (t.drafts.erase d).find? j = _
  rw [Table.find?_erase]
  simp only [Std.LawfulEqCmp.compare_eq_iff_eq]
  rfl

theorem draft?_begin (t : Trace) (description : String) (j : DraftId) :
    (t.begin description).1.draft? j =
      if (⟨t.nextDraft⟩ : DraftId) = j then some (.start description) else t.draft? j :=
  find?_insert_draft _ _ _ _

/-- After an edit that is staged, every open transaction is the edited one or as it was. -/
theorem draft?_staged {k : Counters} {tx' txj : Transaction} {j : DraftId}
    (hj : ({ t with counters := k, drafts := t.drafts.insert d tx' } : Trace).draft? j =
      some txj) : d = j ∧ tx' = txj ∨ d ≠ j ∧ t.draft? j = some txj := by
  have hfind : (t.drafts.insert d tx').find? j = some txj := hj
  rw [find?_insert_draft] at hfind
  by_cases hdj : d = j
  · rw [if_pos hdj] at hfind
    exact .inl ⟨hdj, Option.some.inj hfind⟩
  · rw [if_neg hdj] at hfind
    exact .inr ⟨hdj, hfind⟩

theorem commit_notOpen (hd : t.draft? d = none) : t.commit d = (t, .notOpen) := by
  rw [commit, hd]

theorem commit_of_open (hd : t.draft? d = some tx) :
    t.commit d = (t.abort d).commitOperations tx.description tx.operations := by
  rw [commit, hd]

theorem commit_empty (hd : t.draft? d = some tx) (hempty : tx.isEmpty = true) :
    t.commit d = (t.abort d, .done []) := by
  rw [commit_of_open hd, commitOperations]
  exact if_pos hempty

/-- A commit that is carried out puts its contents in force and is recorded. -/
theorem commit_carryOut (hd : t.draft? d = some tx) (hempty : tx.isEmpty = false)
    (hfresh : Operation.Fresh t.contents tx.operations)
    (hcarried : Operation.carryOut t.contents tx.operations = .ok c) :
    ∃ told, t.commit d =
      ({ t.abort d with
          contents := c
          history := t.history.record ⟨tx.description, tx.operations⟩ }, .done told) := by
  obtain ⟨told, happlied⟩ := Operation.applyAll_carryOut hfresh hcarried
  refine ⟨Change.net told, ?_⟩
  have hne : ¬ tx.operations.isEmpty = true := by
    rw [← Bool.not_eq_true] at hempty
    exact hempty
  have happly : Operation.applyAll (t.abort d).contents tx.operations = ⟨c, .ok told⟩ := happlied
  rw [commit_of_open hd, commitOperations, if_neg hne, happly]
  rfl

/-- A commit that is carried out, empty or not, leads to its contents. -/
theorem commit_done (hd : t.draft? d = some tx)
    (hfresh : Operation.Fresh t.contents tx.operations)
    (hcarried : Operation.carryOut t.contents tx.operations = .ok c) :
    (t.commit d).1.contents = c ∧ ∃ told, (t.commit d).2 = .done told := by
  cases hempty : tx.isEmpty with
  | true =>
    rw [List.isEmpty_iff.mp hempty] at hcarried
    cases hcarried
    rw [commit_empty hd hempty]
    exact ⟨rfl, [], rfl⟩
  | false =>
    obtain ⟨told, hcommit⟩ := commit_carryOut hd hempty hfresh hcarried
    rw [hcommit]
    exact ⟨rfl, told, rfl⟩

/-- Commits take no numbers. -/
theorem counters_commit (t : Trace) (d : DraftId) : (t.commit d).1.counters = t.counters := by
  rw [commit]
  split
  · rfl
  · rw [commitOperations]
    split
    · rfl
    · dsimp only
      split <;> rfl

/-- Contents and operations decide what a commit leads to and what is told. -/
theorem commitOperations_congr {t t' : Trace} (h : t.contents = t'.contents)
    (description description' : String) (ops : List Operation) :
    (t.commitOperations description ops).1.contents =
        (t'.commitOperations description' ops).1.contents ∧
      (t.commitOperations description ops).2 = (t'.commitOperations description' ops).2 := by
  simp only [commitOperations, h]
  split
  · exact ⟨h, rfl⟩
  · split <;> exact ⟨rfl, rfl⟩

/-- **A commit that is refused is an abort**, whichever of its operations does not fit. -/
theorem commit_refused {why : Refusal} (hd : t.draft? d = some tx)
    (hfresh : Operation.Fresh t.contents tx.operations)
    (hcarried : Operation.carryOut t.contents tx.operations = .error why) :
    t.commit d = (t.abort d, .refused why) := by
  have hne : ¬ tx.operations.isEmpty = true := by
    intro hempty
    rw [List.isEmpty_iff.mp hempty] at hcarried
    cases hcarried
  have happly : Operation.applyAll (t.abort d).contents tx.operations = ⟨t.contents, .error why⟩ :=
    Operation.applyAll_refused hfresh hcarried
  rw [commit_of_open hd, commitOperations, if_neg hne, happly]
  rfl

theorem edit_of_stages {e : Edit} {k : Counters} {tx' : Transaction} {what : Staged}
    (hd : t.draft? d = some tx) (h : tx.Stages t.id t.contents t.counters e k tx' what) :
    t.edit d e =
      ({ t with counters := k, drafts := t.drafts.insert d tx' }, .staged what) := by
  simp only [edit, hd, Transaction.edit_of_stages h]

theorem edit_of_refused {e : Edit} {why : Refusal} (hd : t.draft? d = some tx)
    (h : (tx.edit t.id t.contents t.counters e).result = .error why) :
    t.edit d e =
      ({ t with counters := (tx.edit t.id t.contents t.counters e).counters }, .refused why) := by
  simp only [edit, hd, h]

/-- How an edit in an open transaction ends: it is staged, or refused and only the counters have
moved. -/
theorem edit_cases (hd : t.draft? d = some tx) (e : Edit) :
    (∃ tx' what k, tx.Stages t.id t.contents t.counters e k tx' what ∧
      t.edit d e = ({ t with counters := k, drafts := t.drafts.insert d tx' }, .staged what)) ∨
    ∃ why, t.edit d e =
      ({ t with counters := (tx.edit t.id t.contents t.counters e).counters }, .refused why) := by
  cases hresult : (tx.edit t.id t.contents t.counters e).result with
  | ok staged =>
    obtain ⟨tx', what⟩ := staged
    have hstages := Transaction.stages_of_edit hresult
    exact .inl ⟨tx', what, _, hstages, edit_of_stages hd hstages⟩
  | error why => exact .inr ⟨why, edit_of_refused hd hresult⟩

/-- Only edits stage anything. -/
theorem not_staged {s : Step} (hs : ∀ d e, s ≠ .edit d e) (what : Staged) :
    (t.step s).2 ≠ .staged what := by
  intro h
  cases s with
  | edit d e => exact hs d e rfl
  | commit d =>
    have hcommit : (t.commit d).2 = .staged what := h
    simp only [commit, commitOperations] at hcommit
    split at hcommit
    · cases hcommit
    · split at hcommit
      · cases hcommit
      · split at hcommit
        · cases hcommit
        · cases hcommit
  | undo =>
    have hundo : t.undo.2 = .staged what := h
    simp only [undo] at hundo
    split at hundo
    · cases hundo
    · cases hundo
  | redo =>
    have hredo : t.redo.2 = .staged what := h
    simp only [redo] at hredo
    split at hredo
    · cases hredo
    · split at hredo
      · cases hredo
      · cases hredo
  | _ => cases h

end Trace

/-! ## What one step can do -/

/-- **The cases of a step**: what becomes of drafts, counters and the contents the timeline can
reach.  Contents and history are the business of `Tells`. -/
inductive Advance (t : Trace) (T : Timeline) (s : Trace.Step) (t' : Trace) (T' : Timeline) :
    Prop where
  /-- Nothing is staged and no new contents are reached. -/
  | quiet (kept : ∀ d tx, t'.draft? d = some tx → t.draft? d = some tx)
      (next : t'.nextDraft = t.nextDraft)
      (covers : ∀ x, t.counters.Covers x → t'.counters.Covers x)
      (reached : ∀ c, T'.Visits c → T.Visits c)
      (silent : ∀ what, (t.step s).2 ≠ .staged what)
  /-- A transaction is opened. -/
  | begun {description : String} (opened : t' = (t.begin description).1) (same : T' = T)
      (silent : ∀ what, (t.step s).2 ≠ .staged what)
  /-- An edit is staged in an open transaction. -/
  | staged {d : DraftId} {e : Edit} {tx tx' : Transaction} {what : Staged} {k : Counters}
      (asked : s = .edit d e) (isOpen : t.draft? d = some tx)
      (stages : tx.Stages t.id t.contents t.counters e k tx' what)
      (moved : t' = { t with counters := k, drafts := t.drafts.insert d tx' })
      (same : T' = T) (reply : (t.step s).2 = .staged what)
  /-- The operations of an open transaction are carried out, and it is closed. -/
  | committed {d : DraftId} {tx : Transaction} {c : Contents} (isOpen : t.draft? d = some tx)
      (carried : Operation.carryOut t.contents tx.operations = .ok c)
      (kept : ∀ j tx', t'.draft? j = some tx' → d ≠ j ∧ t.draft? j = some tx')
      (next : t'.nextDraft = t.nextDraft) (counters : t'.counters = t.counters)
      (reached : ∀ c', T'.Visits c' → T.Visits c' ∨ c' = c)
      (silent : ∀ what, (t.step s).2 ≠ .staged what)

section Steps

variable {t : Trace} {T : Timeline}

/-- A step that leaves drafts, counters and reachable contents as they are, or drops some. -/
theorem advance_of_kept {s : Trace.Step} {t' : Trace} {T' : Timeline}
    (hdrafts : t'.drafts = t.drafts) (hnext : t'.nextDraft = t.nextDraft)
    (hcounters : t'.counters = t.counters) (hreached : ∀ c, T'.Visits c → T.Visits c)
    (hsilent : ∀ what, (t.step s).2 ≠ .staged what) : Advance t T s t' T' := by
  refine .quiet (fun d tx hd => ?_) hnext (fun x hx => ?_) hreached hsilent
  · rw [Trace.draft?, hdrafts] at hd
    exact hd
  · rw [hcounters]
    exact hx

theorem advance_edit (T : Timeline) (d : DraftId) (e : Edit) :
    Advance t T (.edit d e) (t.edit d e).1 T := by
  cases hd : t.draft? d with
  | none =>
    have hedit : t.edit d e = (t, .notOpen) := by rw [Trace.edit, hd]
    rw [hedit]
    refine advance_of_kept rfl rfl rfl (fun _ h => h) fun what => ?_
    show (t.edit d e).2 ≠ _
    rw [hedit]
    exact fun h => nomatch h
  | some tx =>
    rcases Trace.edit_cases hd e with ⟨tx', what, k, hstages, hedit⟩ | ⟨why, hedit⟩
    · exact .staged rfl hd hstages (by rw [hedit]) rfl (by show (t.edit d e).2 = _; rw [hedit])
    · rw [hedit]
      refine .quiet (fun _ _ h => h) rfl (fun x hx => Transaction.covers_edit hx)
        (fun _ h => h) fun what => ?_
      show (t.edit d e).2 ≠ _
      rw [hedit]
      exact fun h => nomatch h

/-- Closing a transaction drops it and keeps all others. -/
theorem advance_abort {s : Trace.Step} {d : DraftId} {T' : Timeline}
    (hreached : ∀ c, T'.Visits c → T.Visits c)
    (hsilent : ∀ what, (t.step s).2 ≠ .staged what) : Advance t T s (t.abort d) T' := by
  refine .quiet (fun j tx hj => ?_) rfl (fun _ hx => hx) hreached hsilent
  rw [Trace.draft?_abort] at hj
  split at hj
  · cases hj
  · exact hj

/-- **A commit**, in all four ways it can end, is what the timeline writes down. -/
theorem course_commit (ht : Tells t.contents t.history T) (ha : Apart t T) (d : DraftId) :
    Tells (t.commit d).1.contents (t.commit d).1.history (T.watch t (.commit d)) ∧
      Advance t T (.commit d) (t.commit d).1 (T.watch t (.commit d)) := by
  have hsilent : ∀ what, (t.step (.commit d)).2 ≠ .staged what :=
    Trace.not_staged fun _ _ h => nomatch h
  cases hd : t.draft? d with
  | none =>
    have hcommit := Trace.commit_notOpen hd
    have hT : T.watch t (.commit d) = T := by rw [Timeline.watch, hd]
    rw [hT, hcommit]
    exact ⟨ht, advance_of_kept rfl rfl rfl (fun _ h => h) hsilent⟩
  | some tx =>
    have hfresh := ha.fresh ht hd
    cases hempty : tx.isEmpty with
    | true =>
      have hcommit := Trace.commit_empty hd hempty
      have hT : T.watch t (.commit d) = T := by
        simp only [Timeline.watch, hd, hcommit, hempty, if_true]
      rw [hT, hcommit]
      exact ⟨ht, advance_abort (fun _ h => h) hsilent⟩
    | false =>
      cases hcarried : Operation.carryOut t.contents tx.operations with
      | error why =>
        have hcommit := Trace.commit_refused hd hfresh hcarried
        have hT : T.watch t (.commit d) = T := by
          simp only [Timeline.watch, hd, hcommit]
        rw [hT, hcommit]
        exact ⟨ht, advance_abort (fun _ h => h) hsilent⟩
      | ok c =>
        obtain ⟨told, hcommit⟩ := Trace.commit_carryOut hd hempty hfresh hcarried
        have hT : T.watch t (.commit d) = T.record ⟨tx.description, t.contents, c⟩ := by
          simp only [Timeline.watch, hd, hcommit, hempty, Bool.false_eq_true, if_false]
        rw [hT, hcommit]
        refine ⟨tells_record ht hfresh hcarried, .committed hd hcarried (fun j tx' hj => ?_) rfl
          rfl (fun c' hc' => Timeline.visits_record ht.now.symm hc') hsilent⟩
        have hj' : (t.abort d).draft? j = some tx' := hj
        rw [Trace.draft?_abort] at hj'
        split at hj'
        · cases hj'
        · next hne => exact ⟨hne, hj'⟩

/-- **Every step of a trace is matched by the timeline that watches it**, and is one of the four
cases of `Advance`. -/
theorem course_step (ht : Tells t.contents t.history T) (ha : Apart t T) (s : Trace.Step) :
    Tells (t.step s).1.contents (t.step s).1.history (T.watch t s) ∧
      Advance t T s (t.step s).1 (T.watch t s) := by
  cases s with
  | begin description => exact ⟨ht, .begun rfl rfl fun _ h => nomatch h⟩
  | edit d e =>
    refine ⟨?_, advance_edit T d e⟩
    show Tells (t.edit d e).1.contents (t.edit d e).1.history T
    cases hd : t.draft? d with
    | none =>
      rw [Trace.edit, hd]
      exact ht
    | some tx =>
      rcases Trace.edit_cases hd e with ⟨tx', what, k, -, hedit⟩ | ⟨why, hedit⟩
      · rw [hedit]
        exact ht
      · rw [hedit]
        exact ht
  | commit d => exact course_commit ht ha d
  | abort d => exact ⟨ht, advance_abort (fun _ h => h) fun _ h => nomatch h⟩
  | undo =>
    show Tells t.undo.1.contents t.undo.1.history (T.back?.getD T) ∧
      Advance t T .undo t.undo.1 (T.back?.getD T)
    have hsilent : ∀ what, (t.step .undo).2 ≠ .staged what :=
      Trace.not_staged fun _ _ h => nomatch h
    rcases undo_spec ht with ⟨hback, hundo⟩ | ⟨T', history, told, hback, ht', hundo⟩
    · rw [hback, hundo]
      exact ⟨ht, advance_of_kept rfl rfl rfl (fun _ h => h) hsilent⟩
    · rw [hback, hundo]
      exact ⟨ht', advance_of_kept rfl rfl rfl (fun _ h => Timeline.visits_back hback h) hsilent⟩
  | redo =>
    show Tells t.redo.1.contents t.redo.1.history (T.forth?.getD T) ∧
      Advance t T .redo t.redo.1 (T.forth?.getD T)
    have hsilent : ∀ what, (t.step .redo).2 ≠ .staged what :=
      Trace.not_staged fun _ _ h => nomatch h
    rcases redo_spec ht with ⟨hforth, hredo⟩ | ⟨T', history, told, hforth, ht', hredo⟩
    · rw [hforth, hredo]
      exact ⟨ht, advance_of_kept rfl rfl rfl (fun _ h => h) hsilent⟩
    · rw [hforth, hredo]
      exact ⟨ht', advance_of_kept rfl rfl rfl (fun _ h => Timeline.visits_forth hforth h) hsilent⟩
  | clearHistory =>
    refine ⟨tells_forget ht, advance_of_kept rfl rfl rfl ?_ fun _ h => nomatch h⟩
    rintro c (hnow | ⟨e, he, -⟩)
    · exact .inl hnow
    · exact absurd he List.not_mem_nil
  | subscribe l =>
    exact ⟨ht, advance_of_kept rfl rfl rfl (fun _ h => h) fun _ h => nomatch h⟩
  | unsubscribe id =>
    exact ⟨ht, advance_of_kept rfl rfl rfl (fun _ h => h) fun _ h => nomatch h⟩

end Steps

/-! ## Keeping apart -/

theorem apart_start (id : TraceId) (name : String) (c : Contents) (limit : Nat) :
    Apart (.ofContents id name c limit) (.start (c.ownedBy id) limit) where
  heldCovered c' hc' s hs := by
    rcases hc' with rfl | ⟨e, he, -⟩
    · exact Counters.covers_above (Contents.holds_ownedBy.mp hs)
    · exact absurd he List.not_mem_nil
  madeCovered _ _ hd := nomatch hd
  once _ _ hd := nomatch hd
  unheld _ _ hd := nomatch hd
  disjoint _ _ _ _ hd := nomatch hd

section Keeping

variable {t t' : Trace} {T T' : Timeline} {s : Trace.Step}

/-- Dropping transactions and reachable contents keeps the others apart. -/
theorem apart_quiet (ha : Apart t T)
    (hkept : ∀ d tx, t'.draft? d = some tx → t.draft? d = some tx)
    (hcovers : ∀ x, t.counters.Covers x → t'.counters.Covers x)
    (hreached : ∀ c, T'.Visits c → T.Visits c) : Apart t' T' where
  heldCovered c hc x hx := hcovers x (ha.heldCovered c (hreached c hc) x hx)
  madeCovered d tx hd x hx := hcovers x (ha.madeCovered d tx (hkept d tx hd) x hx)
  once d tx hd := ha.once d tx (hkept d tx hd)
  unheld d tx hd x hx c hc := ha.unheld d tx (hkept d tx hd) x hx c (hreached c hc)
  disjoint d d' tx tx' hd hd' := ha.disjoint d d' tx tx' (hkept d tx hd) (hkept d' tx' hd')

/-- A transaction that was just opened makes nothing. -/
theorem apart_begun (ha : Apart t T) (description : String) :
    Apart (t.begin description).1 T := by
  have hkept : ∀ d tx, (t.begin description).1.draft? d = some tx →
      t.draft? d = some tx ∨ Operation.made tx.operations = [] := by
    intro d tx hd
    rw [Trace.draft?_begin] at hd
    split at hd
    · cases hd
      exact .inr rfl
    · exact .inl hd
  -- whatever is made at all is made by a transaction that was open before
  have hmade : ∀ d tx, (t.begin description).1.draft? d = some tx →
      ∀ x ∈ Operation.made tx.operations, t.draft? d = some tx := by
    intro d tx hd x hx
    rcases hkept d tx hd with hold | hnil
    · exact hold
    · rw [hnil] at hx
      cases hx
  exact {
    heldCovered := ha.heldCovered
    madeCovered := fun d tx hd x hx => ha.madeCovered d tx (hmade d tx hd x hx) x hx
    once := by
      intro d tx hd
      rcases hkept d tx hd with hold | hnil
      · exact ha.once d tx hold
      · rw [hnil]
        exact List.nodup_nil
    unheld := fun d tx hd x hx => ha.unheld d tx (hmade d tx hd x hx) x hx
    disjoint := fun d d' tx tx' hd hd' hne x hx hx' =>
      ha.disjoint d d' tx tx' (hmade d tx hd x hx) (hmade d' tx' hd' x hx') hne x hx hx' }

/-- What is staged with a number that was free stays apart from everything that has one. -/
theorem apart_staged {d : DraftId} {e : Edit} {tx tx' : Transaction} {what : Staged}
    {k : Counters} (ha : Apart t T) (hd : t.draft? d = some tx)
    (hstages : tx.Stages t.id t.contents t.counters e k tx' what) :
    Apart { t with counters := k, drafts := t.drafts.insert d tx' } T where
  heldCovered c hc x hx := Transaction.covers_of_stages hstages (ha.heldCovered c hc x hx)
  madeCovered j txj hj x hx := by
    rcases Trace.draft?_staged hj with ⟨rfl, rfl⟩ | ⟨-, hold⟩
    · rcases Transaction.mem_made_of_stages hstages hx with hbefore | ⟨-, hnew⟩
      · exact Transaction.covers_of_stages hstages (ha.madeCovered d tx hd x hbefore)
      · exact hnew
    · exact Transaction.covers_of_stages hstages (ha.madeCovered j txj hold x hx)
  once j txj hj := by
    rcases Trace.draft?_staged hj with ⟨rfl, rfl⟩ | ⟨-, hold⟩
    · exact Transaction.nodup_made_of_stages hstages (ha.once d tx hd) (ha.madeCovered d tx hd)
    · exact ha.once j txj hold
  unheld j txj hj x hx c hc hheld := by
    rcases Trace.draft?_staged hj with ⟨rfl, rfl⟩ | ⟨-, hold⟩
    · rcases Transaction.mem_made_of_stages hstages hx with hbefore | ⟨hfree, -⟩
      · exact ha.unheld d tx hd x hbefore c hc hheld
      · exact hfree (ha.heldCovered c hc x hheld)
    · exact ha.unheld j txj hold x hx c hc hheld
  disjoint i j txi txj hi hj hij x hxi hxj := by
    rcases Trace.draft?_staged hi with ⟨rfl, rfl⟩ | ⟨-, hold⟩
    · rcases Trace.draft?_staged hj with ⟨rfl, -⟩ | ⟨-, hold⟩
      · exact hij rfl
      · rcases Transaction.mem_made_of_stages hstages hxi with hbefore | ⟨hfree, -⟩
        · exact ha.disjoint d j tx txj hd hold hij x hbefore hxj
        · exact hfree (ha.madeCovered j txj hold x hxj)
    · rcases Trace.draft?_staged hj with ⟨rfl, rfl⟩ | ⟨-, hold'⟩
      · rcases Transaction.mem_made_of_stages hstages hxj with hbefore | ⟨hfree, -⟩
        · exact ha.disjoint i d txi tx hold hd hij x hxi hbefore
        · exact hfree (ha.madeCovered i txi hold x hxi)
      · exact ha.disjoint i j txi txj hold hold' hij x hxi hxj

/-- What a transaction made is held once it is committed, and by nobody else's making. -/
theorem apart_committed {d : DraftId} {tx : Transaction} {c : Contents} (ha : Apart t T)
    (ht : Tells t.contents t.history T) (hd : t.draft? d = some tx)
    (hcarried : Operation.carryOut t.contents tx.operations = .ok c)
    (hkept : ∀ j tx', t'.draft? j = some tx' → d ≠ j ∧ t.draft? j = some tx')
    (hcounters : t'.counters = t.counters)
    (hreached : ∀ c', T'.Visits c' → T.Visits c' ∨ c' = c) : Apart t' T' := by
  -- what is held now was held before, or is what the transaction made
  have hholds : ∀ c', T'.Visits c' → ∀ x, c'.Holds x →
      (∃ c₀, T.Visits c₀ ∧ c₀.Holds x) ∨ x ∈ Operation.made tx.operations := by
    intro c' hc' x hx
    rcases hreached c' hc' with hold | rfl
    · exact .inl ⟨c', hold, hx⟩
    · exact ((Operation.holds_carryOut hcarried).mp hx).imp
        (fun hx => ⟨t.contents, ht.visits, hx⟩) id
  exact {
    heldCovered := by
      intro c' hc' x hx
      rw [hcounters]
      rcases hholds c' hc' x hx with ⟨c₀, hc₀, hx₀⟩ | hmade
      · exact ha.heldCovered c₀ hc₀ x hx₀
      · exact ha.madeCovered d tx hd x hmade
    madeCovered := by
      intro j txj hj x hx
      rw [hcounters]
      exact ha.madeCovered j txj (hkept j txj hj).2 x hx
    once := fun j txj hj => ha.once j txj (hkept j txj hj).2
    unheld := by
      intro j txj hj x hx c' hc' hheld
      obtain ⟨hne, hold⟩ := hkept j txj hj
      rcases hholds c' hc' x hheld with ⟨c₀, hc₀, hx₀⟩ | hmade
      · exact ha.unheld j txj hold x hx c₀ hc₀ hx₀
      · exact ha.disjoint d j tx txj hd hold hne x hmade hx
    disjoint := fun i j txi txj hi hj =>
      ha.disjoint i j txi txj (hkept i txi hi).2 (hkept j txj hj).2 }

/-- **Open transactions stay apart at every step.** -/
theorem apart_step (ha : Apart t T) (ht : Tells t.contents t.history T)
    (h : Advance t T s t' T') : Apart t' T' := by
  cases h with
  | quiet hkept _ hcovers hreached _ => exact apart_quiet ha hkept hcovers hreached
  | @begun description hopened hsame _ =>
    subst hopened hsame
    exact apart_begun ha description
  | staged _ hd hstages hmoved hsame _ =>
    subst hmoved hsame
    exact apart_staged ha hd hstages
  | committed hd hcarried hkept _ hcounters hreached _ =>
    exact apart_committed ha ht hd hcarried hkept hcounters hreached

end Keeping

/-! ## Runs -/

theorem Trace.run_append (t : Trace) (xs ys : List Trace.Step) :
    t.run (xs ++ ys) = (t.run xs).run ys := List.foldl_append

/-- **The invariant of a run**: it holds of every trace that starts from contents, whatever they
are, and after every step. -/
theorem course_run {t : Trace} {T : Timeline} (ht : Tells t.contents t.history T)
    (ha : Apart t T) (steps : List Trace.Step) :
    Tells (t.run steps).contents (t.run steps).history (T.along t steps) ∧
      Apart (t.run steps) (T.along t steps) := by
  induction steps generalizing t T with
  | nil => exact ⟨ht, ha⟩
  | cons s rest ih =>
    obtain ⟨ht', hadvance⟩ := course_step ht ha s
    exact ih ht' (apart_step ha ht hadvance)

/-- The invariant holds along every run of a trace that starts from contents. -/
theorem course_ofContents (id : TraceId) (name : String) (c : Contents) (limit : Nat)
    (steps : List Trace.Step) :
    let t := (Trace.ofContents id name c limit).run steps
    let T := (Timeline.start (c.ownedBy id) limit).along (.ofContents id name c limit) steps
    Tells t.contents t.history T ∧ Apart t T :=
  course_run (tells_start (c.ownedBy id) limit) (apart_start id name c limit) steps

end RegionAtlas
