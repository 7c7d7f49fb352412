/-
  Refusals — why a trace does not do what it is asked to, and the sentence that says so.

  Every edit, commit, undo and redo that does not succeed names exactly one cause.  A refusal
  leaves the committed contents as they were.
-/
import RegionAtlas.Record.Mapping
import RegionAtlas.Record.Region

namespace RegionAtlas

/-- What already occupies addresses that something else wants. -/
inductive Occupant where
  | region (id : RegionId)
  | mapping (id : MappingId)
  deriving DecidableEq

/-- The kind of what is there, and its number. -/
def Occupant.text : Occupant → String
  | region id => "region " ++ id.text
  | mapping id => "mapping " ++ id.text

/-- What is numbered. -/
inductive Numbered where
  | regions
  | mappings
  deriving DecidableEq

def Numbered.text : Numbered → String
  | regions => "region"
  | mappings => "mapping"

/-- Why a trace refuses. -/
inductive Refusal where
  /-- Two regions, or two mappings, would collide. -/
  | overlap (range : AddressRange) (existing : Occupant)
  /-- The lifespan of the region is closed. -/
  | alreadyDestroyed (id : RegionId)
  | unknownRegion (id : RegionId)
  /-- A lifespan would stop before it starts. -/
  | invalidLifespan (start stop : Snap)
  /-- The static side of a mapping would pass the last address of its space. -/
  | lengthMismatch (traceLength staticLength : UInt64)
  /-- Another transaction changed the region in between. -/
  | concurrentModification (id : RegionId)
  /-- Every number has been handed out. -/
  | idsExhausted (kind : Numbered)
  | nothingToUndo
  | nothingToRedo
  deriving DecidableEq

/-- A lifespan that would stop before it starts, in words. -/
def invertedLifespanText (start stop : Snap) : String :=
  "lifespan cannot end at " ++ Text.signedDecimal stop.toInt ++ " when it starts at " ++
    Text.signedDecimal start.toInt

/-- The sentence that a refusal is reported in. -/
def Refusal.message : Refusal → String
  | overlap range existing => range.text ++ " overlaps " ++ existing.text
  | alreadyDestroyed id => "region " ++ id.text ++ " has already been destroyed"
  | unknownRegion id => "region " ++ id.text ++ " does not exist"
  | invalidLifespan start stop => invertedLifespanText start stop
  | lengthMismatch traceLength staticLength =>
    "trace range is " ++ String.ofList (Text.markedHex traceLength) ++
      " bytes but static range is " ++ String.ofList (Text.markedHex staticLength) ++ " bytes"
  | concurrentModification id =>
    "region " ++ id.text ++ " was modified by a concurrent transaction"
  | idsExhausted kind => "the trace has run out of " ++ kind.text ++ " ids"
  | nothingToUndo => "there is nothing to undo"
  | nothingToRedo => "there is nothing to redo"

/-- The mapping of a trace range onto the static addresses from a place on, or the refusal of one
that does not fit there. -/
def Mapping.fit (id : MappingId) (range : AddressRange) (lifespan : Lifespan) (program : String)
    (place : StaticAddress) : Except Refusal Mapping :=
  match make? id range lifespan program place with
  | some m => .ok m
  | none => .error (.lengthMismatch range.length (room place.offset))

end RegionAtlas
