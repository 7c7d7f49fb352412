/-
  Changes — what listeners are told, and how a sequence of raw changes becomes the net effect.

  Raw changes come one per operation.  What listeners hear names each object once, in the order in
  which the objects first appeared, with what happened to it on the whole: added and then removed
  is nothing at all, added and then changed is added, removed and then added again is changed.
-/
import RegionAtlas.Record.Id

namespace RegionAtlas

/-- A change to the committed contents of a trace. -/
inductive Change where
  | regionAdded (id : RegionId)
  /-- The lifespan of the region is another one. -/
  | regionChanged (id : RegionId)
  | regionRemoved (id : RegionId)
  | mappingAdded (id : MappingId)
  | mappingRemoved (id : MappingId)
  deriving DecidableEq

namespace Change

/-- What a change is about. -/
inductive Subject where
  | region (id : RegionId)
  | mapping (id : MappingId)
  deriving DecidableEq

/-- What happened to a subject on the whole. -/
inductive Effect where
  | added
  | changed
  | removed
  /-- Added and gone again. -/
  | vanished
  deriving DecidableEq

def subject : Change → Subject
  | regionAdded id | regionChanged id | regionRemoved id => .region id
  | mappingAdded id | mappingRemoved id => .mapping id

def effect : Change → Effect
  | regionAdded _ | mappingAdded _ => .added
  | regionChanged _ => .changed
  | regionRemoved _ | mappingRemoved _ => .removed

/-- Whether a change is about a region. -/
def touchesRegion (c : Change) : Bool :=
  match c.subject with
  | .region _ => true
  | .mapping _ => false

/-- The change that tells of an effect; nothing is told of what vanished.  A mapping never changes,
so one that was removed and added back is told as added. -/
def of? : Subject → Effect → Option Change
  | _, .vanished => none
  | .region id, .added => some (regionAdded id)
  | .region id, .changed => some (regionChanged id)
  | .region id, .removed => some (regionRemoved id)
  | .mapping id, .removed => some (mappingRemoved id)
  | .mapping id, .added => some (mappingAdded id)
  | .mapping id, .changed => some (mappingAdded id)

/-- One effect after another on the same subject. -/
def Effect.merge : Effect → Effect → Effect
  | .added, .removed => .vanished
  | .added, _ => .added
  | .vanished, .added => .added
  | .vanished, _ => .vanished
  | .removed, .added => .changed
  | _, later => later

/-- Merges an effect into those found so far, subjects in order of first appearance. -/
def merge (s : Subject) (e : Effect) : List (Subject × Effect) → List (Subject × Effect)
  | [] => [(s, e)]
  | (t, f) :: rest => if t = s then (t, f.merge e) :: rest else (t, f) :: merge s e rest

/-- The effects of raw changes, one per subject. -/
def effects (raw : List Change) : List (Subject × Effect) :=
  raw.foldl (fun found c => merge c.subject c.effect found) []

/-- The net effect of raw changes. -/
def net (raw : List Change) : List Change := (effects raw).filterMap fun (s, e) => of? s e

end Change

end RegionAtlas
