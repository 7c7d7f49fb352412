/-
  Timelines — undo and redo, as a list of commits and a cursor.

  1. **The reference** — `Timeline`: commits, oldest first, each with its description and the
     contents before and after it, and a cursor that says how many of them are in effect.  A commit
     discards what is after the cursor, appends itself and drops the oldest beyond the limit; back
     and forth move the cursor and put the contents of that commit in force.  Nothing is reverted
     or applied here: contents are only ever copied.

  2. **What realizes it** — `Realizes`: a command leads from the contents before its commit to those
     after it.  The commands a history can undo make up a `Past` of commits that ends where the
     contents are, those it can redo a `Future` that starts there.  Going back is then
     `Operation.revertAll_carryOut`, going forth `Operation.applyAll_carryOut`.

  3. **What it can reach** — `Visits`: the contents in force and those of its commits.  Recording a
     commit reaches nothing new but the contents after it (`visits_record`); moving the cursor
     reaches nothing new at all.

  That a trace is watched by its timeline along every run is the subject of
  `RegionAtlas.Proofs.Course`.
-/
import RegionAtlas.Ledger.Trace
import RegionAtlas.Proofs.Staging

namespace RegionAtlas

open Change (Subject)

/-! ## The reference -/

/-- A committed transaction with the contents before and after it. -/
structure Timeline.Commit where
  description : String
  before : Contents
  after : Contents

/-- Commits, oldest first, and a cursor: how many of them are in effect. -/
structure Timeline where
  commits : List Timeline.Commit
  cursor : Nat
  /-- The contents in force. -/
  now : Contents
  /-- How many commits are kept before the cursor. -/
  limit : Nat

namespace Timeline

def start (c : Contents) (limit : Nat) : Timeline := ⟨[], 0, c, limit⟩

/-- Discards what is after the cursor, appends a commit, and drops the oldest beyond the limit. -/
def record (T : Timeline) (e : Commit) : Timeline :=
  let all := T.commits.take T.cursor ++ [e]
  let kept := all.drop (all.length - T.limit)
  { T with commits := kept, cursor := kept.length, now := e.after }

/-- Moves the cursor back over a commit, to the contents before it; none at the beginning. -/
def back? (T : Timeline) : Option Timeline :=
  match T.cursor with
  | 0 => none
  | n + 1 => T.commits[n]?.map fun e => { T with cursor := n, now := e.before }

/-- Moves the cursor forth over a commit, to the contents after it; none at the end. -/
def forth? (T : Timeline) : Option Timeline :=
  T.commits[T.cursor]?.map fun e => { T with cursor := T.cursor + 1, now := e.after }

/-- Forgets the commits on both sides of the cursor. -/
def forget (T : Timeline) : Timeline := { T with commits := [], cursor := 0 }

/-- The timeline after a step of a trace.  Only a commit that succeeds and is not empty is written
down; beginning, editing, aborting, and commits that fail or are empty leave it alone. -/
def watch (T : Timeline) (t : Trace) : Trace.Step → Timeline
  | .commit d =>
    match t.draft? d, (t.commit d).2 with
    | some tx, .done _ =>
      if tx.isEmpty then T
      else T.record ⟨tx.description, t.contents, (t.commit d).1.contents⟩
    | _, _ => T
  | .undo => T.back?.getD T
  | .redo => T.forth?.getD T
  | .clearHistory => T.forget
  | _ => T

/-- The timeline after a run of a trace. -/
def along (T : Timeline) (t : Trace) : List Trace.Step → Timeline
  | [] => T
  | s :: rest => (T.watch t s).along (t.step s).1 rest

/-- Contents that are in force or can come into force by moving the cursor. -/
def Visits (T : Timeline) (c : Contents) : Prop :=
  c = T.now ∨ ∃ e ∈ T.commits, c = e.before ∨ c = e.after

/-- A commit visits nothing but what it leads to. -/
theorem visits_record {T : Timeline} {e : Commit} {c : Contents} (hbefore : e.before = T.now)
    (h : (T.record e).Visits c) : T.Visits c ∨ c = e.after := by
  rcases h with hnow | ⟨e', he', hc⟩
  · exact .inr hnow
  · rcases List.mem_append.mp (List.mem_of_mem_drop he') with hold | hnew
    · exact .inl (.inr ⟨e', List.mem_of_mem_take hold, hc⟩)
    · obtain rfl := List.mem_singleton.mp hnew
      exact hc.imp (fun h => .inl (h.trans hbefore)) id

/-- Going back leads to nothing that was not on the timeline. -/
theorem visits_back {T T' : Timeline} {c : Contents} (h : T.back? = some T')
    (hc : T'.Visits c) : T.Visits c := by
  unfold back? at h
  split at h
  · cases h
  · obtain ⟨e, he, rfl⟩ := Option.map_eq_some_iff.mp h
    rcases hc with hnow | hcommit
    · exact .inr ⟨e, List.mem_of_getElem? he, .inl hnow⟩
    · exact .inr hcommit

/-- Nor does going forth. -/
theorem visits_forth {T T' : Timeline} {c : Contents} (h : T.forth? = some T')
    (hc : T'.Visits c) : T.Visits c := by
  obtain ⟨e, he, rfl⟩ := Option.map_eq_some_iff.mp h
  rcases hc with hnow | hcommit
  · exact .inr ⟨e, List.mem_of_getElem? he, .inr hnow⟩
  · exact .inr hcommit

end Timeline

/-! ## Commands and commits -/

open Timeline (Commit)

/-- A command whose operations lead from the contents before a commit to those after it. -/
structure Realizes (command : Command) (e : Commit) : Prop where
  description : command.description = e.description
  fresh : Operation.Fresh e.before command.operations
  carried : Operation.carryOut e.before command.operations = .ok e.after

/-- Commands that realize commits, both newest first, the newest ending at given contents. -/
inductive Past : List Command → List Commit → Contents → Prop where
  | start (c : Contents) : Past [] [] c
  | commit {command : Command} {e : Commit} {commands : List Command} {es : List Commit}
      (earlier : Past commands es e.before) (real : Realizes command e) :
      Past (command :: commands) (e :: es) e.after

/-- Commands that realize commits, both next first, the next starting from given contents. -/
inductive Future : Contents → List Command → List Commit → Prop where
  | finish (c : Contents) : Future c [] []
  | commit {command : Command} {e : Commit} {commands : List Command} {es : List Commit}
      (real : Realizes command e) (later : Future e.after commands es) :
      Future e.before (command :: commands) (e :: es)

/-- Without commands there are no commits behind the cursor. -/
theorem Past.eq_nil {es : List Commit} {c : Contents} (h : Past [] es c) : es = [] := by
  cases h
  rfl

/-- The newest command of a past led to the contents at its end. -/
theorem Past.exists_cons {command : Command} {commands : List Command} {es : List Commit}
    {c : Contents} (h : Past (command :: commands) es c) :
    ∃ e es', es = e :: es' ∧ Past commands es' e.before ∧ Realizes command e ∧ e.after = c := by
  cases h with
  | commit hearlier hreal => exact ⟨_, _, rfl, hearlier, hreal, rfl⟩

/-- And none in front of it. -/
theorem Future.eq_nil {c : Contents} {es : List Commit} (h : Future c [] es) : es = [] := by
  cases h
  rfl

/-- The next command of a future leads on from the contents at its start. -/
theorem Future.exists_cons {command : Command} {commands : List Command} {es : List Commit}
    {c : Contents} (h : Future c (command :: commands) es) :
    ∃ e es', es = e :: es' ∧ Realizes command e ∧ Future e.after commands es' ∧ e.before = c := by
  cases h with
  | commit hreal hlater => exact ⟨_, _, rfl, hreal, hlater, rfl⟩

/-- The newest commands of a past are a past of the newest commits: what the limit drops is the
oldest. -/
theorem Past.take {commands : List Command} {es : List Commit} {c : Contents}
    (h : Past commands es c) (n : Nat) : Past (commands.take n) (es.take n) c := by
  induction h generalizing n with
  | start c =>
    rw [List.take_nil, List.take_nil]
    exact .start c
  | commit _ hreal ih =>
    cases n with
    | zero => exact .start _
    | succ n => exact .commit (ih n) hreal

/-- Commands and commits go by the same descriptions, in one order. -/
theorem Past.descriptions {commands : List Command} {es : List Commit} {c : Contents}
    (h : Past commands es c) : commands.map (·.description) = es.map (·.description) := by
  induction h with
  | start c => rfl
  | commit _ hreal ih => rw [List.map_cons, List.map_cons, hreal.description, ih]

theorem Future.descriptions {c : Contents} {commands : List Command} {es : List Commit}
    (h : Future c commands es) : commands.map (·.description) = es.map (·.description) := by
  induction h with
  | finish c => rfl
  | commit hreal _ ih => rw [List.map_cons, List.map_cons, hreal.description, ih]

/-- So there are as many of one as of the other. -/
theorem Past.length_eq {commands : List Command} {es : List Commit} {c : Contents}
    (h : Past commands es c) : commands.length = es.length := by
  simpa only [List.length_map] using congrArg List.length h.descriptions

theorem Future.length_eq {c : Contents} {commands : List Command} {es : List Commit}
    (h : Future c commands es) : commands.length = es.length := by
  simpa only [List.length_map] using congrArg List.length h.descriptions

end RegionAtlas
