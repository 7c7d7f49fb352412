/-
  Contents — the committed regions and mappings of one trace: what every reader sees.

  The questions asked of contents:
    * `query`            the regions alive at a snap, lowest address first;
    * `regionConflict?`  the first region, by number, that a range and lifespan would collide with;
    * `mappingConflict?` the first mapping, by number, that a mapping would collide with;
    * `nextRegion`, `nextMapping`  the lowest numbers above every number in use.
-/
import RegionAtlas.Ledger.Table
import RegionAtlas.Record.Mapping
import RegionAtlas.Record.Region

namespace RegionAtlas

/-! ## Lists of records -/

/-- The regions alive at a snap, lowest address first, the number breaking ties. -/
def aliveAt (regions : List Region) (s : Snap) : List Region :=
  (regions.filter (·.isAliveAt s)).mergeSort Region.address_le

/-- The first region that collides with a range and lifespan. -/
def firstRegionConflict? (regions : List Region) (range : AddressRange) (lifespan : Lifespan) :
    Option RegionId :=
  (regions.find? (·.conflictsWith range lifespan)).map (·.id)

/-- The first mapping that collides with another. -/
def firstMappingConflict? (mappings : List Mapping) (m : Mapping) : Option MappingId :=
  (mappings.find? (·.conflictsWith m)).map (·.id)

/-! ## The committed state -/

/-- The committed regions and mappings of a trace, each under its number. -/
structure Contents where
  regions : Table RegionId Region
  mappings : Table MappingId Mapping
  deriving DecidableEq

namespace Contents

/-- No regions and no mappings. -/
def empty : Contents := ⟨.empty, .empty⟩

/-- The region of a number, alive at any snap or not. -/
def region? (c : Contents) (id : RegionId) : Option Region := c.regions.find? id

/-- The mapping of a number. -/
def mapping? (c : Contents) (id : MappingId) : Option Mapping := c.mappings.find? id

/-- The regions alive at a snap, lowest address first. -/
def regionsAt (c : Contents) (s : Snap) : List Region := aliveAt c.regions.values s

/-- The numbers of the regions alive at a snap, lowest address first. -/
def query (c : Contents) (s : Snap) : List RegionId := (c.regionsAt s).map (·.id)

/-- Those regions alive at a snap that share an address with one of the ranges. -/
def regionsIntersecting (c : Contents) (s : Snap) (ranges : List AddressRange) : List Region :=
  (c.regionsAt s).filter (·.range.intersectsAny ranges)

/-- The first region in the way of something, in order of the numbers. -/
def regionConflict? (c : Contents) (range : AddressRange) (lifespan : Lifespan) :
    Option RegionId :=
  firstRegionConflict? c.regions.values range lifespan

/-- The first mapping in the way of another, likewise. -/
def mappingConflict? (c : Contents) (m : Mapping) : Option MappingId :=
  firstMappingConflict? c.mappings.values m

def insertRegion (c : Contents) (r : Region) : Contents :=
  { c with regions := c.regions.insert r.id r }

def eraseRegion (c : Contents) (id : RegionId) : Contents :=
  { c with regions := c.regions.erase id }

/-- Gives a region another lifespan; nothing happens where there is none of that number. -/
def setLifespan (c : Contents) (id : RegionId) (l : Lifespan) : Contents :=
  { c with regions := c.regions.adjust id (·.withLifespan l) }

def insertMapping (c : Contents) (m : Mapping) : Contents :=
  { c with mappings := c.mappings.insert m.id m }

def eraseMapping (c : Contents) (id : MappingId) : Contents :=
  { c with mappings := c.mappings.erase id }

/-- The same contents, every region referring to a trace. -/
def ownedBy (c : Contents) (t : TraceId) : Contents :=
  { c with regions := c.regions.map (·.ownedBy t) }

/-- The number after one, except that none comes after the reserved one. -/
def after (n : UInt64) : UInt64 := if n = reservedId then n else n + 1

/-- The lowest region number above every one in use; the reserved one where there is none. -/
def nextRegion (c : Contents) : UInt64 :=
  match c.regions.lastKey? with
  | none => 0
  | some id => after id.raw

/-- The lowest mapping number above every one in use; the reserved one where there is none. -/
def nextMapping (c : Contents) : UInt64 :=
  match c.mappings.lastKey? with
  | none => 0
  | some id => after id.raw

end Contents

end RegionAtlas
