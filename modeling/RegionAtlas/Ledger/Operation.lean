/-
  Operations — the single reversible edits that a transaction is made of.

  A commit, and a redo, applies a list of operations in order; an undo reverts it, last first.
  Applying checks each operation against whatever was committed in the meantime and refuses the
  whole list at the first that no longer fits: those before it are reverted, last first.
  Reverting checks nothing, since only applied operations are ever reverted.
-/
import RegionAtlas.Ledger.Change
import RegionAtlas.Ledger.Contents
import RegionAtlas.Ledger.Refusal

namespace RegionAtlas

/-- A reversible edit of contents. -/
inductive Operation where
  | createRegion (region : Region)
  | setLifespan (id : RegionId) (old new : Lifespan)
  | createMapping (mapping : Mapping)
  deriving DecidableEq

namespace Operation

/-- The contents after an operation and what changed, or why it does not fit. -/
def apply (c : Contents) : Operation → Except Refusal (Contents × Change)
  | createRegion r =>
    match c.regionConflict? r.range r.lifespan with
    | some existing => .error (.overlap r.range (.region existing))
    | none => .ok (c.insertRegion r, .regionAdded r.id)
  | setLifespan id old new =>
    match c.region? id with
    | none => .error (.unknownRegion id)
    | some r =>
      if r.lifespan = old then .ok (c.setLifespan id new, .regionChanged id)
      else .error (.concurrentModification id)
  | createMapping m =>
    match c.mappingConflict? m with
    | some existing => .error (.overlap m.traceRange (.mapping existing))
    | none => .ok (c.insertMapping m, .mappingAdded m.id)

/-- The contents without an operation that was applied, and what changed. -/
def revert (c : Contents) : Operation → Contents × Change
  | createRegion r => (c.eraseRegion r.id, .regionRemoved r.id)
  | setLifespan id old _ => (c.setLifespan id old, .regionChanged id)
  | createMapping m => (c.eraseMapping m.id, .mappingRemoved m.id)

/-- Reverts operations in the order given, collecting what changed. -/
def revertEach (c : Contents) : List Operation → Contents × List Change
  | [] => (c, [])
  | op :: rest =>
    let (c', change) := op.revert c
    let (c'', changes) := revertEach c' rest
    (c'', change :: changes)

/-- Reverts applied operations, last first. -/
def revertAll (c : Contents) (ops : List Operation) : Contents × List Change :=
  revertEach c ops.reverse

/-- How applying a list of operations ended. -/
structure Applied where
  contents : Contents
  result : Except Refusal (List Change)

/-- Applies operations in order.  `done` are those applied so far, newest first, and `changes`
what they changed, newest first.  At the first operation that does not fit, those done are
reverted. -/
def applyEach (c : Contents) (done : List Operation) (changes : List Change) :
    List Operation → Applied
  | [] => ⟨c, .ok changes.reverse⟩
  | op :: rest =>
    match op.apply c with
    | .ok (c', change) => applyEach c' (op :: done) (change :: changes) rest
    | .error refusal => ⟨(revertEach c done).1, .error refusal⟩

/-- Applies a whole list of operations, or none of them. -/
def applyAll (c : Contents) (ops : List Operation) : Applied := applyEach c [] [] ops

end Operation

end RegionAtlas
