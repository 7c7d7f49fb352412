/-
  Traces — recorded execution sessions: committed contents, the history that produced them, the
  transactions open on them, and who is told when they change.

  Readers see contents as of some commit, undo or redo, never a transaction in progress.  What
  happens to a trace happens in steps:
    * `begin`, `edit`, `commit`, `abort`   the life of a transaction; any number may be open;
    * `undo`, `redo`, `clearHistory`       moves along the history;
    * `subscribe`, `unsubscribe`           who is told.

  A commit applies all of a transaction's operations or none.  One that stages nothing succeeds
  without being recorded.  After a commit, undo or redo whose net effect is not empty, every
  listener is told that effect once; no other step tells anybody anything.

  The history is two stacks.  Recording a command forgets everything that could have been redone,
  and then the oldest commands beyond the limit; with limit zero nothing is ever kept.  Undo and
  redo move one command from one stack to the other.
-/
import RegionAtlas.Ledger.Transaction

namespace RegionAtlas

/-! ## History -/

/-- The operations of one committed transaction. -/
structure Command where
  description : String
  operations : List Operation
  deriving DecidableEq

/-- Bounded stacks of commands, newest first. -/
structure History where
  undone : List Command
  done : List Command
  limit : Nat
  deriving DecidableEq

namespace History

/-- Nothing to undo and nothing to redo. -/
def empty (limit : Nat) : History := ⟨[], [], limit⟩

/-- Keeps a new command, the newest ones up to the limit, and nothing to redo. -/
def record (h : History) (c : Command) : History :=
  { h with done := (c :: h.done).take h.limit, undone := [] }

/-- Forgets both stacks and keeps the limit. -/
def clear (h : History) : History := { h with done := [], undone := [] }

/-- What would be undone next. -/
def undoDescription? (h : History) : Option String := h.done.head?.map (·.description)

/-- What would be redone next. -/
def redoDescription? (h : History) : Option String := h.undone.head?.map (·.description)

end History

/-! ## The trace -/

/-- Who may listen to a trace. -/
inductive Listener where
  | recorder (id : RecorderId)
  | window (id : WindowId)
  deriving DecidableEq

/-- A recorded execution session. -/
structure Trace where
  id : TraceId
  name : String
  contents : Contents
  history : History
  counters : Counters
  drafts : Table DraftId Transaction
  nextDraft : Nat
  listeners : List (SubscriptionId × Listener)
  nextSubscription : Nat
  deriving DecidableEq

namespace Trace

/-- How many commands a trace remembers when nothing else is said. -/
def defaultUndoLimit : Nat := 50

/-- A trace that starts from given contents, with nothing to undo. -/
def ofContents (id : TraceId) (name : String) (c : Contents) (undoLimit : Nat) : Trace where
  id := id
  name := name
  contents := c.ownedBy id
  history := .empty undoLimit
  counters := .above c
  drafts := .empty
  nextDraft := 0
  listeners := []
  nextSubscription := 0

/-- Whether every region refers back to the trace. -/
def ownsRegions (t : Trace) : Bool := t.contents.regions.values.all (·.owner == t.id)

def draft? (t : Trace) (d : DraftId) : Option Transaction := t.drafts.find? d

/-! ## Replies -/

/-- How a step ended. -/
inductive Reply where
  | begun (draft : DraftId)
  | staged (what : Staged)
  /-- Done; the changes are what every listener was told, none where nobody was told anything. -/
  | done (told : List Change)
  | subscribed (id : SubscriptionId)
  | refused (why : Refusal)
  /-- The step names a transaction that is not open, and changed nothing. -/
  | notOpen
  deriving DecidableEq

/-- What every listener was told. -/
def Reply.told : Reply → List Change
  | done changes => changes
  | _ => []

/-! ## Transactions -/

/-- Opens a transaction. -/
def begin (t : Trace) (description : String) : Trace × DraftId :=
  ({ t with
      drafts := t.drafts.insert ⟨t.nextDraft⟩ (.start description)
      nextDraft := t.nextDraft + 1 },
    ⟨t.nextDraft⟩)

/-- Closes a transaction and forgets what it staged. -/
def abort (t : Trace) (d : DraftId) : Trace := { t with drafts := t.drafts.erase d }

/-- Makes an edit in an open transaction. -/
def edit (t : Trace) (d : DraftId) (e : Edit) : Trace × Reply :=
  match t.draft? d with
  | none => (t, .notOpen)
  | some tx =>
    let edited := tx.edit t.id t.contents t.counters e
    match edited.result with
    | .ok (tx', what) =>
      ({ t with counters := edited.counters, drafts := t.drafts.insert d tx' }, .staged what)
    | .error why => ({ t with counters := edited.counters }, .refused why)

/-- Applies the operations of a transaction, and records them as one command if there are any. -/
def commitOperations (t : Trace) (description : String) (ops : List Operation) : Trace × Reply :=
  if ops.isEmpty then (t, .done [])
  else
    let applied := Operation.applyAll t.contents ops
    match applied.result with
    | .ok changes =>
      ({ t with
          contents := applied.contents
          history := t.history.record ⟨description, ops⟩ },
        .done (Change.net changes))
    | .error why => ({ t with contents := applied.contents }, .refused why)

/-- Commits an open transaction.  It is closed afterwards, also where the commit is refused. -/
def commit (t : Trace) (d : DraftId) : Trace × Reply :=
  match t.draft? d with
  | none => (t, .notOpen)
  | some tx => (t.abort d).commitOperations tx.description tx.operations

/-- Makes edits in an open transaction up to the first that is refused: what they staged, and that
refusal. -/
def editEach (t : Trace) (d : DraftId) : List Edit → Trace × List Staged × Option Reply
  | [] => (t, [], none)
  | e :: rest =>
    match t.edit d e with
    | (t', .staged what) =>
      let (t'', staged, reply) := editEach t' d rest
      (t'', what :: staged, reply)
    | (t', reply) => (t', [], some reply)

/-- Runs edits in a transaction of their own: commits it if all succeed, and aborts it at the first
that is refused. -/
def transaction (t : Trace) (description : String) (edits : List Edit) :
    Trace × List Staged × Reply :=
  let (t, d) := t.begin description
  match t.editEach d edits with
  | (t, staged, some reply) => (t.abort d, staged, reply)
  | (t, staged, none) =>
    let (t, reply) := t.commit d
    (t, staged, reply)

/-! ## History -/

/-- Reverts the command committed or redone last. -/
def undo (t : Trace) : Trace × Reply :=
  match t.history.done with
  | [] => (t, .refused .nothingToUndo)
  | command :: rest =>
    let (contents, changes) := Operation.revertAll t.contents command.operations
    ({ t with
        contents := contents
        history := { t.history with done := rest, undone := command :: t.history.undone } },
      .done (Change.net changes))

/-- Applies the command undone last again. -/
def redo (t : Trace) : Trace × Reply :=
  match t.history.undone with
  | [] => (t, .refused .nothingToRedo)
  | command :: rest =>
    let applied := Operation.applyAll t.contents command.operations
    match applied.result with
    | .ok changes =>
      ({ t with
          contents := applied.contents
          history := { t.history with done := command :: t.history.done, undone := rest } },
        .done (Change.net changes))
    | .error why => ({ t with contents := applied.contents }, .refused why)

/-- Forgets everything that could be undone or redone. -/
def clearHistory (t : Trace) : Trace := { t with history := t.history.clear }

/-! ## Subscriptions -/

/-- Adds a listener behind those there are. -/
def subscribe (t : Trace) (l : Listener) : Trace × SubscriptionId :=
  ({ t with
      listeners := t.listeners ++ [(⟨t.nextSubscription⟩, l)]
      nextSubscription := t.nextSubscription + 1 },
    ⟨t.nextSubscription⟩)

/-- Removes the listener of that number, if there is one. -/
def unsubscribe (t : Trace) (id : SubscriptionId) : Trace :=
  { t with listeners := t.listeners.filter (·.1 != id) }

/-! ## Steps and runs -/

/-- One step in the life of a trace. -/
inductive Step where
  | begin (description : String)
  | edit (draft : DraftId) (e : Edit)
  | commit (draft : DraftId)
  | abort (draft : DraftId)
  | undo
  | redo
  | clearHistory
  | subscribe (listener : Listener)
  | unsubscribe (id : SubscriptionId)
  deriving DecidableEq

/-- The trace after a step, and how the step ended. -/
def step (t : Trace) : Step → Trace × Reply
  | .begin description =>
    let (t, d) := t.begin description
    (t, .begun d)
  | .edit d e => t.edit d e
  | .commit d => t.commit d
  | .abort d => (t.abort d, .done [])
  | .undo => t.undo
  | .redo => t.redo
  | .clearHistory => (t.clearHistory, .done [])
  | .subscribe l =>
    let (t, id) := t.subscribe l
    (t, .subscribed id)
  | .unsubscribe id => (t.unsubscribe id, .done [])

/-- The trace after a run of steps. -/
def run (t : Trace) (steps : List Step) : Trace := steps.foldl (fun t s => (t.step s).1) t

end Trace

end RegionAtlas
