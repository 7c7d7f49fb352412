/-
  Undo and redo — a trace acts as a bounded timeline, from any contents and over any run.

  The trace keeps operations and never a state: undo reverts them unchecked, redo applies them to
  whatever is there.  What an observer sees all the same is the reference of
  `RegionAtlas.Proofs.Timeline`, which keeps states and nothing else.  `ActsAs` lists what that
  means, step by step; `acts_as_timeline` proves it of every run.

  Nothing is asked of the contents that a trace starts from, and nothing of its limit: with limit
  zero the timeline has no commits and both moves are always refused.
-/
import RegionAtlas.Proofs.Course

namespace RegionAtlas

/-! ## What an observer sees -/

/-- A step after which contents and history are what they were. -/
def Trace.StandsStill (t : Trace) (s : Trace.Step) : Prop :=
  (t.step s).1.contents = t.contents ∧ (t.step s).1.history = t.history

/-- Whether a step can change contents or history at all. -/
def Trace.Step.isMove : Trace.Step → Bool
  | .commit _ | .undo | .redo | .clearHistory => true
  | .begin _ | .edit _ _ | .abort _ | .subscribe _ | .unsubscribe _ => false

/-- **A trace acts as a timeline**: what it shows, and what its next step would do. -/
structure Trace.ActsAs (t : Trace) (T : Timeline) : Prop where
  /-- The committed regions and mappings are those in force. -/
  contents : t.contents = T.now
  inside : T.cursor ≤ T.commits.length
  /-- What can be undone are the commits before the cursor, the last of them first. -/
  done : t.history.done.map (·.description) =
    ((T.commits.take T.cursor).map (·.description)).reverse
  /-- What can be redone are the commits after the cursor, the first of them first. -/
  undone : t.history.undone.map (·.description) = (T.commits.drop T.cursor).map (·.description)
  /-- Both stacks together stay within the limit. -/
  bounded : t.history.done.length + t.history.undone.length ≤ T.limit
  /-- At the beginning undo is refused, for no other cause, and changes nothing. -/
  undoFirst : T.cursor = 0 → t.undo = (t, .refused .nothingToUndo)
  /-- Behind a commit undo succeeds and puts the contents before it in force. -/
  undoBack : ∀ n, T.cursor = n + 1 → ∃ e told, T.commits[n]? = some e ∧
    t.undo.2 = .done told ∧ t.undo.1.contents = e.before
  /-- At the end redo is refused, for no other cause, and changes nothing. -/
  redoLast : T.cursor = T.commits.length → t.redo = (t, .refused .nothingToRedo)
  /-- In front of a commit redo succeeds and puts the contents after it in force. -/
  redoForth : T.cursor < T.commits.length → ∃ e told, T.commits[T.cursor]? = some e ∧
    t.redo.2 = .done told ∧ t.redo.1.contents = e.after
  /-- A commit that is not one of operations that succeeds changes nothing. -/
  commits : ∀ d, t.StandsStill (.commit d) ∨
    ∃ tx told, t.draft? d = some tx ∧ tx.isEmpty = false ∧ (t.commit d).2 = .done told
  /-- Beginning, editing, aborting and listening change nothing. -/
  others : ∀ s : Trace.Step, s.isMove = false → t.StandsStill s

/-! ## From the invariant -/

section Observed

variable {t : Trace} {T : Timeline}

/-- A cursor that cannot go back is at the beginning. -/
theorem back?_eq_none (h : Tells t.contents t.history T) (hback : T.back? = none) :
    T.cursor = 0 := by
  obtain ⟨past, future, hcommits, hcursor, -, -⟩ := h.sides
  cases hn : T.cursor with
  | zero => rfl
  | succ n =>
    unfold Timeline.back? at hback
    rw [hn] at hback
    -- the cursor is within the commits, so there is one behind it
    have hlen : T.commits.length ≤ n :=
      List.getElem?_eq_none_iff.mp (Option.map_eq_none_iff.mp hback)
    rw [hcommits, List.length_append, List.length_reverse, ← hcursor, hn] at hlen
    omega

/-- One that does goes back over the commit in front of which it comes to stand. -/
theorem exists_of_back? {T' : Timeline} {n : Nat} (hback : T.back? = some T')
    (hn : T.cursor = n + 1) : ∃ e, T.commits[n]? = some e ∧ T'.now = e.before := by
  unfold Timeline.back? at hback
  rw [hn] at hback
  obtain ⟨e, he, rfl⟩ := Option.map_eq_some_iff.mp hback
  exact ⟨e, he, rfl⟩

/-- Steps that only prepare something, or change who listens, move nothing. -/
theorem standsStill_of_not_isMove (t : Trace) {s : Trace.Step} (hs : s.isMove = false) :
    t.StandsStill s := by
  cases s with
  | begin description => exact ⟨rfl, rfl⟩
  | edit d e =>
    show (t.edit d e).1.contents = t.contents ∧ (t.edit d e).1.history = t.history
    cases hd : t.draft? d with
    | none =>
      rw [Trace.edit, hd]
      exact ⟨rfl, rfl⟩
    | some tx =>
      rcases Trace.edit_cases hd e with ⟨tx', what, k, -, hedit⟩ | ⟨why, hedit⟩
      · rw [hedit]
        exact ⟨rfl, rfl⟩
      · rw [hedit]
        exact ⟨rfl, rfl⟩
  | abort d => exact ⟨rfl, rfl⟩
  | subscribe l => exact ⟨rfl, rfl⟩
  | unsubscribe id => exact ⟨rfl, rfl⟩
  | commit d => cases hs
  | undo => cases hs
  | redo => cases hs
  | clearHistory => cases hs

/-- A commit changes nothing unless it is not empty and succeeds. -/
theorem commit_standsStill (ht : Tells t.contents t.history T) (ha : Apart t T) (d : DraftId) :
    t.StandsStill (.commit d) ∨
      ∃ tx told, t.draft? d = some tx ∧ tx.isEmpty = false ∧ (t.commit d).2 = .done told := by
  show ((t.commit d).1.contents = _ ∧ (t.commit d).1.history = _) ∨ _
  cases hd : t.draft? d with
  | none =>
    rw [Trace.commit_notOpen hd]
    exact .inl ⟨rfl, rfl⟩
  | some tx =>
    cases hempty : tx.isEmpty with
    | true =>
      rw [Trace.commit_empty hd hempty]
      exact .inl ⟨rfl, rfl⟩
    | false =>
      have hfresh := ha.fresh ht hd
      cases hcarried : Operation.carryOut t.contents tx.operations with
      | error why =>
        rw [Trace.commit_refused hd hfresh hcarried]
        exact .inl ⟨rfl, rfl⟩
      | ok c =>
        obtain ⟨told, hcommit⟩ := Trace.commit_carryOut hd hempty hfresh hcarried
        exact .inr ⟨tx, told, rfl, hempty, by rw [hcommit]⟩

/-- The two invariants of a run are all it takes to act as the timeline. -/
theorem actsAs_of_tells (ht : Tells t.contents t.history T) (ha : Apart t T) : t.ActsAs T := by
  obtain ⟨past, future, hcommits, hcursor, hpast, hfuture⟩ := ht.sides
  have htake : T.commits.take T.cursor = past.reverse := by
    rw [hcommits, hcursor, ← @List.length_reverse _ past, List.take_left]
  have hdrop : T.commits.drop T.cursor = future := by
    rw [hcommits, hcursor, ← @List.length_reverse _ past, List.drop_left]
  have hlength : T.commits.length = T.cursor + future.length := by
    rw [hcommits, hcursor, List.length_append, List.length_reverse]
  refine ⟨ht.now.symm, by omega, ?_, ?_, ?_, fun hzero => ?_, fun n hn => ?_, fun hend => ?_,
    fun hlt => ?_, commit_standsStill ht ha, fun s hs => standsStill_of_not_isMove t hs⟩
  · rw [htake, List.map_reverse, List.reverse_reverse, hpast.descriptions]
  · rw [hdrop, hfuture.descriptions]
  · have hbounded := ht.bounded
    rw [hpast.length_eq, hfuture.length_eq]
    omega
  · rcases undo_spec ht with ⟨-, hundo⟩ | ⟨T', history, told, hback, -, -⟩
    · exact hundo
    · rw [Timeline.back?, hzero] at hback
      cases hback
  · rcases undo_spec ht with ⟨hback, -⟩ | ⟨T', history, told, hback, -, hundo⟩
    · have := back?_eq_none ht hback
      omega
    · obtain ⟨e, he, hnow⟩ := exists_of_back? hback hn
      exact ⟨e, told, he, by rw [hundo], by rw [hundo]; exact hnow⟩
  · rcases redo_spec ht with ⟨-, hredo⟩ | ⟨T', history, told, hforth, -, -⟩
    · exact hredo
    · rw [Timeline.forth?, hend, List.getElem?_eq_none (Nat.le_refl _)] at hforth
      cases hforth
  · rcases redo_spec ht with ⟨hforth, -⟩ | ⟨T', history, told, hforth, -, hredo⟩
    · rw [Timeline.forth?, List.getElem?_eq_getElem hlt] at hforth
      cases hforth
    · obtain ⟨e, he, rfl⟩ := Option.map_eq_some_iff.mp hforth
      exact ⟨e, told, he, by rw [hredo], by rw [hredo]⟩

end Observed

/-! ## Every run -/

theorem Timeline.limit_watch (T : Timeline) (t : Trace) (s : Trace.Step) :
    (T.watch t s).limit = T.limit := by
  cases s with
  | commit d =>
    simp only [watch]
    split
    · split
      · rfl
      · rfl
    · rfl
  | undo =>
    show (T.back?.getD T).limit = T.limit
    unfold back?
    split
    · rfl
    · next n _ => cases T.commits[n]? <;> rfl
  | redo =>
    show (T.forth?.getD T).limit = T.limit
    unfold forth?
    cases T.commits[T.cursor]? <;> rfl
  | _ => rfl

theorem Timeline.limit_along (T : Timeline) (t : Trace) (steps : List Trace.Step) :
    (T.along t steps).limit = T.limit := by
  induction steps generalizing T t with
  | nil => rfl
  | cons s rest ih => exact (ih _ _).trans (T.limit_watch t s)

/-- **Undo and redo are exactly a bounded timeline.**  Whatever contents a trace starts from,
whatever its limit and whatever its run, it acts as the timeline that watched the run. -/
theorem acts_as_timeline (id : TraceId) (name : String) (c : Contents) (limit : Nat)
    (steps : List Trace.Step) :
    let opened := Trace.ofContents id name c limit
    let T := (Timeline.start opened.contents limit).along opened steps
    (opened.run steps).ActsAs T ∧ T.limit = limit := by
  intro opened T
  obtain ⟨ht, ha⟩ := course_ofContents id name c limit steps
  exact ⟨actsAs_of_tells ht ha, Timeline.limit_along _ _ _⟩

end RegionAtlas
