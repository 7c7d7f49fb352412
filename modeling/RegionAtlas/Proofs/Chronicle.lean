/-
  Chronicles — a run as the list of its moments, and the date of every commit in it.

  A trace remembers what its commits did and not when they were made; two commits can hold the same
  operations.  To speak of *the very commit* that an undo takes back, the run is numbered: moment
  `i` is the trace when `i` steps have been taken, and a commit is known by the number of its step.

  1. **Dates** — `Dates` keeps those numbers the way a timeline keeps its commits, and `Move` is
     what a step does to them.  A step that undoes or redoes moves past a date.

  2. **What the dates say** — `Dated`: date by date, the commits of the timeline are those made at
     these steps, with the contents at the moments on either side of them.  It is kept by every step
     (`dated_succ`), since a step moves the dates as it moves the timeline (`does`).

  3. **What a move leads to** — `Leads`: to the moment after a commit, from there back to the moment
     before it, or nowhere.  The crux is that `undo n` goes between the moments `n + 1` and `n`,
     however long ago step `n` was taken.

  4. **How long a commit can be undone** — from the step that carried it on, and at every moment in
     between (`undoable_since`).
-/
import RegionAtlas.Proofs.UndoRedo

namespace RegionAtlas

open Timeline (Commit)

/-! ## Moments -/

/-- A run of a trace, with the contents it starts from. -/
structure Chronicle where
  id : TraceId
  name : String
  start : Contents
  limit : Nat
  steps : List Trace.Step

theorem Timeline.along_append (T : Timeline) (t : Trace) (xs ys : List Trace.Step) :
    T.along t (xs ++ ys) = (T.along t xs).along (t.run xs) ys := by
  induction xs generalizing T t with
  | nil => rfl
  | cons s rest ih => exact ih (T.watch t s) (t.step s).1

namespace Chronicle

variable (x : Chronicle) (i : Nat)

def opened : Trace := .ofContents x.id x.name x.start x.limit

/-- The trace when `i` steps have been taken; after the last one it stays as it is. -/
def moment : Trace := x.opened.run (x.steps.take i)

/-- The contents at a moment. -/
def contents : Contents := (x.moment i).contents

/-- The timeline at a moment. -/
def timeline : Timeline :=
  (Timeline.start (x.start.ownedBy x.id) x.limit).along x.opened (x.steps.take i)

theorem told : Tells (x.contents i) (x.moment i).history (x.timeline i) :=
  (course_ofContents x.id x.name x.start x.limit (x.steps.take i)).1

theorem apart : Apart (x.moment i) (x.timeline i) :=
  (course_ofContents x.id x.name x.start x.limit (x.steps.take i)).2

theorem limit_timeline : (x.timeline i).limit = x.limit := Timeline.limit_along _ _ _

variable {x i} {s : Trace.Step}

theorem moment_succ (hs : x.steps[i]? = some s) : x.moment (i + 1) = ((x.moment i).step s).1 := by
  rw [moment, List.take_add_one, hs, Trace.run_append]
  rfl

theorem timeline_succ (hs : x.steps[i]? = some s) :
    x.timeline (i + 1) = (x.timeline i).watch (x.moment i) s := by
  rw [timeline, List.take_add_one, hs, Timeline.along_append]
  rfl

theorem take_succ_of_end (hs : x.steps[i]? = none) : x.steps.take (i + 1) = x.steps.take i := by
  rw [List.take_add_one, hs]
  exact List.append_nil _

/-- What a step leads to, in the four cases of `Advance`. -/
theorem advance (hs : x.steps[i]? = some s) :
    Advance (x.moment i) (x.timeline i) s (x.moment (i + 1)) (x.timeline (i + 1)) := by
  rw [moment_succ hs, timeline_succ hs]
  exact (course_step (x.told i) (x.apart i) s).2

end Chronicle

/-! ## Dates -/

/-- The steps at which commits were made, oldest first, and how many of them can be undone. -/
structure Dates where
  made : List Nat
  cursor : Nat

/-- What a step does to the commits there are: it makes one, takes one back, carries one out again,
forgets them all, or leaves them alone. -/
inductive Move where
  | still
  | commit
  | undo (date : Nat)
  | redo (date : Nat)
  | forget
  deriving DecidableEq

namespace Dates

/-- Discards the dates after the cursor, appends one, and drops the oldest beyond the limit. -/
def record (k : Dates) (limit date : Nat) : Dates :=
  let all := k.made.take k.cursor ++ [date]
  let kept := all.drop (all.length - limit)
  ⟨kept, kept.length⟩

/-- The dates after a move at a step. -/
def after (k : Dates) (limit date : Nat) : Move → Dates
  | .still => k
  | .commit => k.record limit date
  | .undo _ => ⟨k.made, k.cursor - 1⟩
  | .redo _ => ⟨k.made, k.cursor + 1⟩
  | .forget => ⟨[], 0⟩

/-- What a step of a trace does.  Commits that fail or are empty do nothing, nor does undoing or
redoing where there is nothing to undo or redo. -/
def move (k : Dates) (t : Trace) : Trace.Step → Move
  | .commit d =>
    match t.draft? d, (t.commit d).2 with
    | some tx, .done _ => if tx.isEmpty then .still else .commit
    | _, _ => .still
  | .undo =>
    match k.cursor with
    | 0 => .still
    | n + 1 => k.made[n]?.elim .still .undo
  | .redo => k.made[k.cursor]?.elim .still .redo
  | .clearHistory => .forget
  | _ => .still

/-- Dates are recorded as commits are. -/
theorem map_record {α : Type} {f : Commit → α} {g : Nat → α} {T : Timeline} {k : Dates}
    (hcursor : T.cursor = k.cursor) (hmap : T.commits.map f = k.made.map g) {e : Commit} {n : Nat}
    (hsame : f e = g n) : (T.record e).commits.map f = (k.record T.limit n).made.map g := by
  have hall : (T.commits.take T.cursor ++ [e]).map f = (k.made.take k.cursor ++ [n]).map g := by
    rw [List.map_append, List.map_append, List.map_take, List.map_take, hmap, hcursor,
      List.map_singleton, List.map_singleton, hsame]
  have hlength := congrArg List.length hall
  rw [List.length_map, List.length_map] at hlength
  show ((T.commits.take T.cursor ++ [e]).drop _).map f = _
  rw [List.map_drop, hall, hlength, ← List.map_drop]
  rfl

end Dates

namespace Chronicle

/-- What the step that follows a moment does, given the dates at that moment. -/
def moveFrom (x : Chronicle) (k : Dates) (i : Nat) : Move :=
  match x.steps[i]? with
  | some s => k.move (x.moment i) s
  | none => .still

/-- The dates of the commits at a moment. -/
def dates (x : Chronicle) : Nat → Dates
  | 0 => ⟨[], 0⟩
  | i + 1 => (x.dates i).after x.limit i (x.moveFrom (x.dates i) i)

/-- What the step that follows a moment does. -/
def move (x : Chronicle) (i : Nat) : Move := x.moveFrom (x.dates i) i

/-- A commit, by its date, that can be undone at a moment, at once or after later ones. -/
def Undoable (x : Chronicle) (n i : Nat) : Prop := n ∈ (x.dates i).made.take (x.dates i).cursor

/-- A step that carries out a commit: the one that makes it, or one that redoes it. -/
def Carries (x : Chronicle) (i n : Nat) : Prop :=
  x.move i = .commit ∧ i = n ∨ x.move i = .redo n

theorem dates_succ (x : Chronicle) (i : Nat) :
    x.dates (i + 1) = (x.dates i).after x.limit i (x.move i) := rfl

variable {x : Chronicle} {i : Nat} {s : Trace.Step}

theorem move_of_step (hs : x.steps[i]? = some s) :
    x.move i = (x.dates i).move (x.moment i) s := by
  rw [move, moveFrom, hs]

theorem move_of_end (hs : x.steps[i]? = none) : x.move i = .still := by
  rw [move, moveFrom, hs]

/-! ## What the dates say -/

/-- **The dates at a moment are those of the commits of the timeline**: each was made at its step,
between the contents at the moments on either side. -/
structure Dated (x : Chronicle) (i : Nat) : Prop where
  cursor : (x.timeline i).cursor = (x.dates i).cursor
  commits : (x.timeline i).commits.map (fun e => (e.before, e.after)) =
    (x.dates i).made.map fun n => (x.contents n, x.contents (n + 1))
  made : ∀ n ∈ (x.dates i).made, n < i ∧ x.move n = .commit

/-- A date and the commit that was made then. -/
theorem Dated.getElem? (h : x.Dated i) {k n : Nat} (hn : (x.dates i).made[k]? = some n) :
    ∃ e, (x.timeline i).commits[k]? = some e ∧ e.before = x.contents n ∧
      e.after = x.contents (n + 1) := by
  have hsides := congrArg (·[k]?) h.commits
  simp only [List.getElem?_map, hn, Option.map_some, Option.map_eq_some_iff] at hsides
  obtain ⟨e, he, heq⟩ := hsides
  exact ⟨e, he, congrArg Prod.fst heq, congrArg Prod.snd heq⟩

theorem Dated.getElem?_eq_none (h : x.Dated i) {k : Nat} (hn : (x.dates i).made[k]? = none) :
    (x.timeline i).commits[k]? = none := by
  have hsides := congrArg (·[k]?) h.commits
  simpa only [List.getElem?_map, hn, Option.map_none, Option.map_eq_none_iff] using hsides

/-- **What a step does to the timeline**, by its move. -/
inductive Does (x : Chronicle) (i : Nat) : Move → Prop where
  | still (same : x.timeline (i + 1) = x.timeline i) : Does x i .still
  | commit {d : DraftId} {tx : Transaction} (asked : x.steps[i]? = some (.commit d))
      (isOpen : (x.moment i).draft? d = some tx)
      (carried : Operation.carryOut (x.contents i) tx.operations = .ok (x.contents (i + 1)))
      (watched : x.timeline (i + 1) =
        (x.timeline i).record ⟨tx.description, x.contents i, x.contents (i + 1)⟩) :
      Does x i .commit
  | undo {k n : Nat} {e : Commit} (asked : x.steps[i]? = some .undo)
      (behind : (x.dates i).cursor = k + 1) (date : (x.dates i).made[k]? = some n)
      (commit : (x.timeline i).commits[k]? = some e)
      (watched : x.timeline (i + 1) = { x.timeline i with cursor := k, now := e.before }) :
      Does x i (.undo n)
  | redo {n : Nat} {e : Commit} (asked : x.steps[i]? = some .redo)
      (date : (x.dates i).made[(x.dates i).cursor]? = some n)
      (commit : (x.timeline i).commits[(x.dates i).cursor]? = some e)
      (watched : x.timeline (i + 1) =
        { x.timeline i with cursor := (x.dates i).cursor + 1, now := e.after }) :
      Does x i (.redo n)
  | forget (watched : x.timeline (i + 1) = (x.timeline i).forget) : Does x i .forget

theorem does_commit {d : DraftId} (hs : x.steps[i]? = some (.commit d)) :
    x.Does i ((x.dates i).move (x.moment i) (.commit d)) := by
  have hwatch := timeline_succ hs
  have hmoment : x.moment (i + 1) = ((x.moment i).commit d).1 := moment_succ hs
  cases hd : (x.moment i).draft? d with
  | none =>
    simp only [Timeline.watch, hd] at hwatch
    simp only [Dates.move, hd]
    exact .still hwatch
  | some tx =>
    have hfresh := (x.apart i).fresh (x.told i) hd
    cases hempty : tx.isEmpty with
    | true =>
      have hcommit := Trace.commit_empty hd hempty
      simp only [Timeline.watch, hd, hcommit, hempty, if_true] at hwatch
      simp only [Dates.move, hd, hcommit, hempty, if_true]
      exact .still hwatch
    | false =>
      cases hcarried : Operation.carryOut (x.contents i) tx.operations with
      | error why =>
        have hcommit := Trace.commit_refused hd hfresh hcarried
        simp only [Timeline.watch, hd, hcommit] at hwatch
        simp only [Dates.move, hd, hcommit]
        exact .still hwatch
      | ok c =>
        obtain ⟨told, hcommit⟩ := Trace.commit_carryOut hd hempty hfresh hcarried
        have hc : x.contents (i + 1) = c := by
          rw [contents, hmoment, hcommit]
        simp only [Timeline.watch, hd, hcommit, hempty, Bool.false_eq_true, if_false] at hwatch
        simp only [Dates.move, hd, hcommit, hempty, Bool.false_eq_true, if_false]
        refine .commit hs hd ?_ ?_
        · rw [hc, hcarried]
        · rw [hwatch, hc]
          rfl

/-- **Every step does to the timeline what its move says**, if the dates are right. -/
theorem does (h : x.Dated i) : x.Does i (x.move i) := by
  cases hs : x.steps[i]? with
  | none =>
    rw [move_of_end hs]
    refine .still ?_
    rw [timeline, take_succ_of_end hs]
    rfl
  | some s =>
    have hwatch := timeline_succ hs
    rw [move_of_step hs]
    cases s with
    | commit d => exact does_commit hs
    | undo =>
      have hback : x.timeline (i + 1) = (x.timeline i).back?.getD (x.timeline i) := hwatch
      rw [Timeline.back?, h.cursor] at hback
      cases hcursor : (x.dates i).cursor with
      | zero =>
        simp only [hcursor, Option.getD_none] at hback
        simp only [Dates.move, hcursor]
        exact .still hback
      | succ k =>
        simp only [hcursor] at hback
        simp only [Dates.move, hcursor]
        cases hn : (x.dates i).made[k]? with
        | none =>
          rw [h.getElem?_eq_none hn] at hback
          exact .still hback
        | some n =>
          obtain ⟨e, he, -⟩ := h.getElem? hn
          rw [he] at hback
          exact .undo hs hcursor hn he hback
    | redo =>
      have hforth : x.timeline (i + 1) = (x.timeline i).forth?.getD (x.timeline i) := hwatch
      rw [Timeline.forth?, h.cursor] at hforth
      simp only [Dates.move]
      cases hn : (x.dates i).made[(x.dates i).cursor]? with
      | none =>
        rw [h.getElem?_eq_none hn] at hforth
        exact .still hforth
      | some n =>
        obtain ⟨e, he, -⟩ := h.getElem? hn
        rw [he] at hforth
        exact .redo hs hn he hforth
    | clearHistory => exact .forget hwatch
    | begin _ => exact .still hwatch
    | edit _ _ => exact .still hwatch
    | abort _ => exact .still hwatch
    | subscribe _ => exact .still hwatch
    | unsubscribe _ => exact .still hwatch

/-- The dates stay right at every step. -/
theorem dated_succ (h : x.Dated i) : x.Dated (i + 1) := by
  have holder : ∀ n ∈ (x.dates i).made, n < i + 1 ∧ x.move n = .commit :=
    fun n hn => ⟨Nat.lt_succ_of_lt (h.made n hn).1, (h.made n hn).2⟩
  have hdates := x.dates_succ i
  have hdoes := does h
  generalize hm : x.move i = m at hdates hdoes
  cases hdoes with
  | still hsame =>
    refine ⟨?_, ?_, ?_⟩ <;> rw [hdates]
    · rw [hsame]
      exact h.cursor
    · rw [hsame]
      exact h.commits
    · exact holder
  | @commit d tx _ _ _ hwatched =>
    have hsides := Dates.map_record (f := fun e => (e.before, e.after))
      (g := fun n => (x.contents n, x.contents (n + 1))) h.cursor h.commits
      (e := ⟨tx.description, x.contents i, x.contents (i + 1)⟩) (n := i) rfl
    rw [limit_timeline, ← hwatched] at hsides
    refine ⟨?_, ?_, ?_⟩ <;> rw [hdates]
    · have hlength := congrArg List.length hsides
      rw [List.length_map, List.length_map] at hlength
      rw [hwatched] at hlength ⊢
      exact hlength
    · exact hsides
    · intro n hn
      rcases List.mem_append.mp (List.mem_of_mem_drop hn) with hold | hnew
      · exact holder n (List.mem_of_mem_take hold)
      · rw [List.mem_singleton.mp hnew]
        exact ⟨Nat.lt_succ_self i, hm⟩
  | @undo k n e _ hbehind _ _ hwatched =>
    refine ⟨?_, ?_, ?_⟩ <;> rw [hdates]
    · rw [hwatched]
      show k = (x.dates i).cursor - 1
      rw [hbehind]
      rfl
    · rw [hwatched]
      exact h.commits
    · exact holder
  | redo _ _ _ hwatched =>
    refine ⟨?_, ?_, ?_⟩ <;> rw [hdates]
    · rw [hwatched]
      rfl
    · rw [hwatched]
      exact h.commits
    · exact holder
  | forget hwatched =>
    refine ⟨?_, ?_, ?_⟩ <;> rw [hdates]
    · rw [hwatched]
      rfl
    · rw [hwatched]
      rfl
    · exact fun n hn => absurd hn List.not_mem_nil

/-- **The dates are right at every moment** of a run. -/
theorem dated (x : Chronicle) (i : Nat) : x.Dated i := by
  induction i with
  | zero => exact ⟨rfl, rfl, fun n hn => absurd hn List.not_mem_nil⟩
  | succ i ih => exact dated_succ ih

end Chronicle

/-! ## What a move leads to -/

/-- The commit behind the cursor led to the contents in force. -/
theorem Tells.after_eq {c : Contents} {history : History} {T : Timeline} {k : Nat} {e : Commit}
    (h : Tells c history T) (hcursor : T.cursor = k + 1) (he : T.commits[k]? = some e) :
    e.after = c := by
  obtain ⟨past, future, hcommits, hlength, hpast, -⟩ := h.sides
  rw [hcursor] at hlength
  generalize history.done = commands at hpast
  cases hpast with
  | start _ => cases hlength
  | @commit _ e' _ past' _ _ =>
    have hk : k = past'.reverse.length := by
      rw [List.length_reverse]
      exact Nat.succ.inj hlength
    rw [hcommits, List.reverse_cons, List.append_assoc, hk,
      List.getElem?_append_right (Nat.le_refl _), Nat.sub_self] at he
    rw [Option.some.inj he]

/-- The commit in front of the cursor leads on from the contents in force. -/
theorem Tells.before_eq {c : Contents} {history : History} {T : Timeline} {e : Commit}
    (h : Tells c history T) (he : T.commits[T.cursor]? = some e) : e.before = c := by
  obtain ⟨past, future, hcommits, hcursor, -, hfuture⟩ := h.sides
  rw [hcommits, hcursor, ← @List.length_reverse _ past, List.getElem?_append_right (Nat.le_refl _),
    Nat.sub_self] at he
  generalize history.undone = commands at hfuture
  cases hfuture with
  | finish _ => cases he
  | commit _ _ => rw [Option.some.inj he]

namespace Chronicle

variable {x : Chronicle} {i n : Nat}

/-- **What a step leads to**, by its move: on from a moment, or between the two moments on either
side of a commit that was made earlier. -/
inductive Leads (x : Chronicle) (i : Nat) : Move → Prop where
  | still (same : x.contents (i + 1) = x.contents i) : Leads x i .still
  | commit {d : DraftId} {tx : Transaction} (asked : x.steps[i]? = some (.commit d))
      (isOpen : (x.moment i).draft? d = some tx)
      (carried : Operation.carryOut (x.contents i) tx.operations = .ok (x.contents (i + 1))) :
      Leads x i .commit
  | undo {n : Nat} (asked : x.steps[i]? = some .undo) (earlier : n < i)
      (made : x.move n = .commit) (leaves : x.contents i = x.contents (n + 1))
      (reaches : x.contents (i + 1) = x.contents n) : Leads x i (.undo n)
  | redo {n : Nat} (asked : x.steps[i]? = some .redo) (earlier : n < i)
      (made : x.move n = .commit) (leaves : x.contents i = x.contents n)
      (reaches : x.contents (i + 1) = x.contents (n + 1)) : Leads x i (.redo n)
  | forget (same : x.contents (i + 1) = x.contents i) : Leads x i .forget

/-- **Every step leads where its move says.** -/
theorem leads (x : Chronicle) (i : Nat) : x.Leads i (x.move i) := by
  have h := x.dated i
  have hnow : (x.timeline (i + 1)).now = x.contents (i + 1) := (x.told (i + 1)).now
  have hdoes := does h
  generalize x.move i = m at hdoes ⊢
  cases hdoes with
  | still hsame =>
    refine .still ?_
    rw [← hnow, hsame]
    exact (x.told i).now
  | commit hasked hopen hcarried _ => exact .commit hasked hopen hcarried
  | @undo k n e hasked hbehind hdate hcommit hwatched =>
    obtain ⟨hearlier, hmade⟩ := h.made n (List.mem_of_getElem? hdate)
    obtain ⟨e', he', hbefore, hafter⟩ := h.getElem? hdate
    rw [hcommit] at he'
    cases he'
    refine .undo hasked hearlier hmade ?_ ?_
    · rw [← hafter]
      exact ((x.told i).after_eq (h.cursor.trans hbehind) hcommit).symm
    · rw [← hnow, hwatched]
      exact hbefore
  | @redo n e hasked hdate hcommit hwatched =>
    obtain ⟨hearlier, hmade⟩ := h.made n (List.mem_of_getElem? hdate)
    obtain ⟨e', he', hbefore, hafter⟩ := h.getElem? hdate
    rw [hcommit] at he'
    cases he'
    refine .redo hasked hearlier hmade ?_ ?_
    · rw [← hbefore]
      exact ((x.told i).before_eq (h.cursor ▸ hcommit)).symm
    · rw [← hnow, hwatched]
      exact hafter
  | forget hwatched =>
    refine .forget ?_
    rw [← hnow, hwatched]
    exact (x.told i).now

/-- A commit that is carried out starts from the contents it was made on, and leads to those it
led to then. -/
theorem Carries.sides (h : x.Carries i n) :
    x.contents i = x.contents n ∧ x.contents (i + 1) = x.contents (n + 1) := by
  rcases h with ⟨-, rfl⟩ | hredo
  · exact ⟨rfl, rfl⟩
  · have hleads := x.leads i
    rw [hredo] at hleads
    cases hleads with
    | redo _ _ _ hleaves hreaches => exact ⟨hleaves, hreaches⟩

/-! ## Commits that can be undone -/

/-- **What can be undone after a step**: what could be before it, or the commit that it carried
out. -/
theorem undoable_succ (h : x.Undoable n (i + 1)) : x.Undoable n i ∨ x.Carries i n := by
  have hdoes := does (x.dated i)
  unfold Undoable at h ⊢
  rw [dates_succ] at h
  unfold Carries
  generalize x.move i = m at h hdoes ⊢
  cases hdoes with
  | still _ => exact .inl h
  | commit _ _ _ _ =>
    rcases List.mem_append.mp (List.mem_of_mem_drop (List.mem_of_mem_take h)) with hold | hnew
    · exact .inl hold
    · exact .inr (.inl ⟨rfl, (List.mem_singleton.mp hnew).symm⟩)
  | undo _ _ _ _ _ =>
    exact .inl (List.take_subset_take_left _ (Nat.sub_le _ 1) h)
  | redo _ hdate _ _ =>
    have htake : n ∈ (x.dates i).made.take ((x.dates i).cursor + 1) := h
    rw [List.take_add_one, hdate] at htake
    rcases List.mem_append.mp htake with hold | hnew
    · exact .inl hold
    · exact .inr (.inr (congrArg Move.redo (List.mem_singleton.mp hnew).symm))
  | forget _ => exact absurd (List.mem_of_mem_take h) List.not_mem_nil

/-- **A commit that can be undone was carried out by some step, and could be undone ever since.** -/
theorem undoable_since (h : x.Undoable n i) :
    ∃ j, j < i ∧ x.Carries j n ∧ ∀ k, j < k → k ≤ i → x.Undoable n k := by
  induction i with
  | zero => exact absurd (List.mem_of_mem_take h) List.not_mem_nil
  | succ i ih =>
    rcases undoable_succ h with hbefore | hcarries
    · obtain ⟨j, hj, hcarries, hsince⟩ := ih hbefore
      refine ⟨j, Nat.lt_succ_of_lt hj, hcarries, fun k hjk hki => ?_⟩
      rcases Nat.lt_or_eq_of_le hki with hlt | rfl
      · exact hsince k hjk (Nat.le_of_lt_succ hlt)
      · exact h
    · refine ⟨i, Nat.lt_succ_self i, hcarries, fun k hik hki => ?_⟩
      rw [Nat.le_antisymm hki hik]
      exact h

/-- What is undone could be undone. -/
theorem undoable_of_undo (h : x.move i = .undo n) : x.Undoable n i := by
  have hdoes := does (x.dated i)
  rw [h] at hdoes
  cases hdoes with
  | @undo k _ _ _ hbehind hdate _ _ =>
    rw [Undoable, hbehind, List.take_add_one, hdate]
    exact List.mem_append_right _ (List.mem_singleton_self n)

end Chronicle

end RegionAtlas
