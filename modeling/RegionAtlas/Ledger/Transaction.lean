/-
  Transactions — units of work staged against a trace before they are committed.

  A transaction sees the committed contents through its own staged edits: a region it created or
  destroyed as it staged it, every other one as it is committed at the time of asking.  Each edit
  is checked when it is made, against exactly that view; one that is refused stages nothing.

  Numbers are taken from counters that the trace shares between its transactions.  They only ever
  grow, and a number stays taken even where the edit that took it is refused or never committed:
    * a region's number is taken after its range was found free;
    * a mapping's number is taken first, before anything else is checked.
-/
import RegionAtlas.Ledger.Operation

namespace RegionAtlas

/-! ## Counters -/

/-- The next region and mapping number to hand out. -/
structure Counters where
  region : UInt64
  mapping : UInt64
  deriving DecidableEq

namespace Counters

/-- The counters of a trace that starts from given contents. -/
def above (c : Contents) : Counters := ⟨c.nextRegion, c.nextMapping⟩

/-- Takes a region number; the reserved one is never handed out. -/
def takeRegion? (k : Counters) : Option (RegionId × Counters) :=
  if k.region = reservedId then none else some (⟨k.region⟩, { k with region := k.region + 1 })

/-- Takes a mapping number; the reserved one is never handed out. -/
def takeMapping? (k : Counters) : Option (MappingId × Counters) :=
  if k.mapping = reservedId then none else some (⟨k.mapping⟩, { k with mapping := k.mapping + 1 })

end Counters

/-! ## Edits -/

/-- What can be asked of a transaction. -/
inductive Edit where
  | addRegion (name : String) (lifespan : Lifespan) (range : AddressRange)
      (permissions : Permissions)
  /-- Closes the lifespan of a region. -/
  | destroyRegion (id : RegionId) (stop : Snap)
  | addMapping (range : AddressRange) (lifespan : Lifespan) (program : String)
      (place : StaticAddress)
  deriving DecidableEq

/-- A region that exists from a snap on. -/
def Edit.createRegion (name : String) (range : AddressRange) (start : Snap)
    (permissions : Permissions) : Edit :=
  .addRegion name (.since start) range permissions

/-- What an edit staged. -/
inductive Staged where
  | region (id : RegionId)
  | destroyed
  | mapping (id : MappingId)
  deriving DecidableEq

/-! ## Transactions -/

/-- Edits staged so far: the operations in order, the latest form of every region they touch, and
the mappings they add. -/
structure Transaction where
  description : String
  operations : List Operation
  regions : Table RegionId Region
  mappings : List Mapping
  deriving DecidableEq

namespace Transaction

def start (description : String) : Transaction := ⟨description, [], .empty, []⟩

def isEmpty (tx : Transaction) : Bool := tx.operations.isEmpty

/-- A region as the transaction sees it. -/
def region? (tx : Transaction) (c : Contents) (id : RegionId) : Option Region :=
  match tx.regions.find? id with
  | some r => some r
  | none => c.region? id

/-- Every region as the transaction sees it: committed ones it did not touch, then its own. -/
def visibleRegions (tx : Transaction) (c : Contents) : List Region :=
  c.regions.values.filter (fun r => !tx.regions.contains r.id) ++ tx.regions.values

/-- Every mapping as the transaction sees it: committed ones, then its own. -/
def visibleMappings (tx : Transaction) (c : Contents) : List Mapping :=
  c.mappings.values ++ tx.mappings

/-- The numbers of the regions alive at a snap, lowest address first, as the transaction sees it. -/
def query (tx : Transaction) (c : Contents) (s : Snap) : List RegionId :=
  (aliveAt (tx.visibleRegions c) s).map (·.id)

def regionConflict? (tx : Transaction) (c : Contents) (range : AddressRange)
    (lifespan : Lifespan) : Option RegionId :=
  firstRegionConflict? (tx.visibleRegions c) range lifespan

def mappingConflict? (tx : Transaction) (c : Contents) (m : Mapping) : Option MappingId :=
  firstMappingConflict? (tx.visibleMappings c) m

/-! ### Staging -/

/-- Stages a new region. -/
def stageRegion (tx : Transaction) (r : Region) : Transaction :=
  { tx with
    operations := tx.operations ++ [.createRegion r]
    regions := tx.regions.insert r.id r }

/-- Stages another lifespan for a region that the transaction sees under a number. -/
def stageLifespan (tx : Transaction) (id : RegionId) (r : Region) (new : Lifespan) :
    Transaction :=
  { tx with
    operations := tx.operations ++ [.setLifespan id r.lifespan new]
    regions := tx.regions.insert id (r.withLifespan new) }

/-- Stages a new mapping. -/
def stageMapping (tx : Transaction) (m : Mapping) : Transaction :=
  { tx with
    operations := tx.operations ++ [.createMapping m]
    mappings := tx.mappings ++ [m] }

/-! ### Edits -/

/-- How an edit ended: the counters after it, and the transaction after it with what it staged, or
why it was refused. -/
structure Edited where
  counters : Counters
  result : Except Refusal (Transaction × Staged)

def addRegion (tx : Transaction) (owner : TraceId) (c : Contents) (k : Counters) (name : String)
    (lifespan : Lifespan) (range : AddressRange) (permissions : Permissions) : Edited :=
  match tx.regionConflict? c range lifespan with
  | some existing => ⟨k, .error (.overlap range (.region existing))⟩
  | none =>
    match k.takeRegion? with
    | none => ⟨k, .error (.idsExhausted .regions)⟩
    | some (id, k') =>
      ⟨k', .ok (tx.stageRegion ⟨id, owner, name, range, permissions, lifespan⟩, .region id)⟩

def destroyRegion (tx : Transaction) (c : Contents) (k : Counters) (id : RegionId)
    (stop : Snap) : Edited :=
  match tx.region? c id with
  | none => ⟨k, .error (.unknownRegion id)⟩
  | some r =>
    if r.lifespan.isOpen then
      match r.lifespan.closedAt? stop with
      | none => ⟨k, .error (.invalidLifespan r.lifespan.start stop)⟩
      | some new => ⟨k, .ok (tx.stageLifespan id r new, .destroyed)⟩
    else ⟨k, .error (.alreadyDestroyed id)⟩

def addMapping (tx : Transaction) (c : Contents) (k : Counters) (range : AddressRange)
    (lifespan : Lifespan) (program : String) (place : StaticAddress) : Edited :=
  match k.takeMapping? with
  | none => ⟨k, .error (.idsExhausted .mappings)⟩
  | some (id, k') =>
    match Mapping.fit id range lifespan program place with
    | .error why => ⟨k', .error why⟩
    | .ok m =>
      match tx.mappingConflict? c m with
      | some existing => ⟨k', .error (.overlap range (.mapping existing))⟩
      | none => ⟨k', .ok (tx.stageMapping m, .mapping id)⟩

/-- Makes an edit on behalf of a trace. -/
def edit (tx : Transaction) (owner : TraceId) (c : Contents) (k : Counters) : Edit → Edited
  | .addRegion name lifespan range permissions =>
    tx.addRegion owner c k name lifespan range permissions
  | .destroyRegion id stop => tx.destroyRegion c k id stop
  | .addMapping range lifespan program place => tx.addMapping c k range lifespan program place

end Transaction

end RegionAtlas
