/-
  Trace databases — the saved form of a trace: its committed regions and mappings.

  What is read may have been edited by hand, so it is checked on the way to contents, regions
  before mappings, each record in the order of the document against those before it:
    * numbers are distinct, and the reserved one is not among them;
    * no two regions are alive at one address at one snap;
    * the two sides of a mapping reach equally far, and no two mappings collide.
  The first record that breaks a rule decides the fault.  History is not saved.
-/
import RegionAtlas.Archive.Record
import RegionAtlas.Ledger.Trace

namespace RegionAtlas

/-- The saved form of a trace. -/
structure Database where
  regions : List Region
  mappings : List Mapping
  deriving DecidableEq

/-- What is wrong with the records of a database. -/
inductive DatabaseFault where
  | duplicateRegion (id : RegionId)
  | duplicateMapping (id : MappingId)
  | overlappingRegions (region other : RegionId)
  | overlappingMappings (mapping other : MappingId)
  | regionIdOutOfRange (id : RegionId)
  | mappingIdOutOfRange (id : MappingId)
  | inconsistentMapping (id : MappingId)
  deriving DecidableEq

/-- What is said of a fault, with the numbers of the records in it. -/
def DatabaseFault.message : DatabaseFault → String
  | duplicateRegion id => "Region " ++ id.text ++ " is listed more than once"
  | duplicateMapping id => "Mapping " ++ id.text ++ " is listed more than once"
  | overlappingRegions region other =>
    "Region " ++ region.text ++ " overlaps region " ++ other.text ++ " while both are alive"
  | overlappingMappings mapping other =>
    "Mapping " ++ mapping.text ++ " overlaps mapping " ++ other.text
  | regionIdOutOfRange id => "Region id " ++ id.text ++ " is out of range"
  | mappingIdOutOfRange id => "Mapping id " ++ id.text ++ " is out of range"
  | inconsistentMapping id =>
    "Mapping " ++ id.text ++ " has trace and static ranges of different lengths"

namespace Database

/-- The database of a trace that has nothing. -/
def empty : Database := ⟨[], []⟩

/-- The saved form of contents, records in order of their numbers. -/
def ofContents (c : Contents) : Database := ⟨c.regions.values, c.mappings.values⟩

/-! ## Checking -/

/-- Adds a region to contents that hold those listed before it. -/
def addRegion (c : Contents) (r : Region) : Except DatabaseFault Contents :=
  if r.id.raw = reservedId then .error (.regionIdOutOfRange r.id)
  else if c.regions.contains r.id then .error (.duplicateRegion r.id)
  else
    match c.regionConflict? r.range r.lifespan with
    | some other => .error (.overlappingRegions r.id other)
    | none => .ok (c.insertRegion r)

/-- Adds a mapping to contents that hold those listed before it. -/
def addMapping (c : Contents) (m : Mapping) : Except DatabaseFault Contents :=
  if m.id.raw = reservedId then .error (.mappingIdOutOfRange m.id)
  else if c.mappings.contains m.id then .error (.duplicateMapping m.id)
  else if m.isConsistent then
    match c.mappingConflict? m with
    | some other => .error (.overlappingMappings m.id other)
    | none => .ok (c.insertMapping m)
  else .error (.inconsistentMapping m.id)

/-- The contents that a database describes, or the first fault in it. -/
def toContents (db : Database) : Except DatabaseFault Contents := do
  let c ← db.regions.foldlM addRegion .empty
  db.mappings.foldlM addMapping c

/-! ## Written form -/

open Json

/-- Both lists are written also where they are empty. -/
def toJson (db : Database) : Json :=
  .object
    [("regions", .array (db.regions.map Region.toJson)),
     ("mappings", .array (db.mappings.map Mapping.toJson))]

structure Found where
  regions : Option (List Region)
  mappings : Option (List Mapping)

def fields : List (RecordField Found) :=
  [.of "regions" Found.regions (fun r a => { r with regions := a }) (decodeList Region.decode),
   .of "mappings" Found.mappings (fun r a => { r with mappings := a })
     (decodeList Mapping.decode)]

/-- A list that is not written is empty. -/
def Found.make (r : Found) : Option Database :=
  some ⟨r.regions.getD [], r.mappings.getD []⟩

/-- Records are read one by one and not checked against each other; that is for `toContents`. -/
def decode : Decoder Database := decodeRecord ⟨none, none⟩ fields Found.make

end Database

/-- The text that a trace is saved as. -/
def Trace.savedText (t : Trace) : String := (Database.ofContents t.contents).toJson.pretty

end RegionAtlas
