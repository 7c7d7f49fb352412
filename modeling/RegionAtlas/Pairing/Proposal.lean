/-
  Proposals — a tentative pairing of regions with the blocks of one image.

  Regions are attributed to modules by their names, and within a module they are paired with
  blocks by rank: the lowest region gets the lowest block, and so on.  Addresses of a trace and of
  a program are never compared with each other.

  Modules are served one after another, and a block once given is gone:
    * better name matches first, then the module with the lower lowest region, then by path;
    * each takes the eligible blocks that are left in order of their starts, ties in catalog order,
      one for each of its regions by lowest address and number, as far as they go.

  A region without a module, without a match or without a block left has an entry without a block.

  A proposal may be edited before it is committed.  A block is held by one entry at most: giving it
  to another takes it away from its holder, which is told.  An entry that gets a block is selected,
  and one without a block never is.
-/
import RegionAtlas.Pairing.Image
import RegionAtlas.Record.Region

namespace RegionAtlas

/-! ## Entries -/

/-- A region and the block it would be mapped to. -/
structure Entry where
  region : Region
  block : Option Block
  selected : Bool
  deriving DecidableEq

namespace Entry

/-- An entry as it is proposed: selected exactly if it has a block. -/
def ofPair (region : Region) (block : Option Block) : Entry := ⟨region, block, block.isSome⟩

/-- Whether the entry would be committed. -/
def isAccepted (e : Entry) : Bool := e.selected && e.block.isSome

/-- As much of the region as fits in the block. -/
def length? (e : Entry) : Option UInt64 := e.block.map fun b => min e.region.range.length b.length

/-- The trace side of the mapping it would become. -/
def traceRange? (e : Entry) : Option AddressRange :=
  e.length?.bind fun n => AddressRange.ofStartLength? e.region.range.min n

/-- Where the static side of that mapping would start. -/
def place? (e : Entry) : Option StaticAddress := e.block.map (·.start)

/-- By region name, then lowest address, then number. -/
def order_le (e f : Entry) : Bool :=
  match compare e.region.name f.region.name with
  | .lt => true
  | .gt => false
  | .eq => e.region.address_le f.region

end Entry

/-- What a proposal is worth: pairings first, then the quality of their name matches.  The second is
a plain number: each pairing adds at most three to it, so it is a word of 32 bits as long as no more
than 1431655765 regions are paired (`similarity_propose_lt`). -/
structure Score where
  paired : Nat
  similarity : Nat
  deriving DecidableEq

/-- Whether a score is at least another. -/
def Score.atLeast (s t : Score) : Bool :=
  s.paired > t.paired || (s.paired == t.paired && s.similarity ≥ t.similarity)

/-- A pairing of regions with blocks of one program. -/
structure Proposal where
  program : String
  entries : List Entry
  score : Score
  deriving DecidableEq

namespace Proposal

/-- The entries that would be committed. -/
def accepted (p : Proposal) : List Entry := p.entries.filter (·.isAccepted)

/-- Where a region stands. -/
def indexOf? (p : Proposal) (id : RegionId) : Option Nat :=
  p.entries.findIdx? (·.region.id == id)

end Proposal

/-! ## Modules of a selection -/

/-- Of regions with one number, only the first. -/
def distinctRegions : List Region → List Region
  | [] => []
  | r :: rest => r :: (distinctRegions rest).filter (·.id != r.id)

/-- Of equal keys, only the first. -/
def distinctKeys : List ModuleKey → List ModuleKey
  | [] => []
  | k :: rest => k :: (distinctKeys rest).filter (· != k)

/-- The regions of one module, lowest first, with the match of the module and its slots. -/
structure Group where
  key : ModuleKey
  quality : NameMatch
  slots : List Slot
  members : List Region

namespace Group

/-- The group of a module among regions. -/
def of (image : Image) (regions : List Region) (key : ModuleKey) : Group :=
  let (quality, slots) := key.eligible image
  let members := regions.filter fun r => ModuleKey.ofName? r.name == some key
  ⟨key, quality, slots, members.mergeSort Region.address_le⟩

/-- The lowest address of its regions. -/
def lowest (g : Group) : UInt64 :=
  match g.members with
  | [] => 0
  | r :: _ => r.range.min

/-- Whether a group is served no later than another. -/
def order_le (g h : Group) : Bool :=
  match compare h.quality.weight g.quality.weight with
  | .lt => true
  | .gt => false
  | .eq =>
    match compare g.lowest h.lowest with
    | .lt => true
    | .gt => false
    | .eq => (compare g.key.path h.key.path).isLE

end Group

/-- The groups of the modules that some regions name, in the order in which they are served. -/
def groups (image : Image) (regions : List Region) : List Group :=
  let keys := distinctKeys (regions.filterMap fun r => ModuleKey.ofName? r.name)
  (keys.map (Group.of image regions)).mergeSort Group.order_le

/-! ## Giving out blocks -/

/-- A region that was given a slot. -/
structure Pairing where
  region : RegionId
  slot : Slot
  quality : NameMatch
  deriving DecidableEq

/-- What a group gets of the slots that are left. -/
def Group.serve (g : Group) (taken : List Pairing) : List Pairing :=
  let left := g.slots.filter fun s => !taken.any (·.slot.position == s.position)
  let ranked := left.mergeSort fun s t => s.block.range.min ≤ t.block.range.min
  (g.members.zip ranked).map fun (r, s) => ⟨r.id, s, g.quality⟩

/-- Serves groups in order, after some pairings were made. -/
def serveAll (taken : List Pairing) : List Group → List Pairing
  | [] => taken
  | g :: rest => serveAll (taken ++ g.serve taken) rest

/-- The pairings of regions with slots of an image. -/
def pairings (image : Image) (regions : List Region) : List Pairing :=
  serveAll [] ((groups image regions).filter (·.quality != .nothing))

/-- What pairings are worth. -/
def Score.of (pairings : List Pairing) : Score where
  paired := pairings.length
  similarity := pairings.foldr (fun p n => p.quality.weight + n) 0

/-- Proposes a block of the image for each of the regions. -/
def propose (regions : List Region) (image : Image) : Proposal :=
  let regions := distinctRegions regions
  let pairings := pairings image regions
  let blockOf := fun r : Region => (pairings.find? (·.region == r.id)).map (·.slot.block)
  { program := image.name
    entries := (regions.map fun r => Entry.ofPair r (blockOf r)).mergeSort Entry.order_le
    score := .of pairings }

/-! ## Choosing an image -/

/-- The better of the best so far and a proposal: one that pairs nothing never counts, and of
equally good ones the earlier stays. -/
def better (best : Option Proposal) (p : Proposal) : Option Proposal :=
  if p.score.paired = 0 then best
  else
    match best with
    | some b => if b.score.atLeast p.score then some b else some p
    | none => some p

/-- The best proposal against any of the images. -/
def proposeBest (regions : List Region) (images : List Image) : Option Proposal :=
  (images.map (propose regions)).foldl better none

/-- Whether mapping onto an image makes sense: some region is alive at the snap and of a module
with an eligible block. -/
def canMap (regions : List Region) (s : Snap) (image : Image) : Bool :=
  regions.any fun r =>
    r.isAliveAt s &&
      match ModuleKey.ofName? r.name with
      | some k => !(k.eligible image).2.isEmpty
      | none => false

/-! ## Editing -/

namespace Proposal

/-- The first entry, other than the one at `index`, that holds a block. -/
def holder? (p : Proposal) (index : Nat) (b : Block) : Option Nat :=
  (p.entries.zipIdx.find? fun (e, i) => i != index && e.block == some b).map (·.2)

/-- Changes one entry. -/
def modifyEntry (p : Proposal) (index : Nat) (f : Entry → Entry) : Proposal :=
  { p with entries := p.entries.modify index f }

/-- Gives an entry a block, or none, and tells which other entry lost it.  An index past the end
changes nothing. -/
def setBlock (p : Proposal) (index : Nat) (block : Option Block) : Proposal × Option Nat :=
  if index < p.entries.length then
    let displaced := block.bind (p.holder? index)
    let p :=
      match displaced with
      | some other => p.modifyEntry other fun e => { e with block := none, selected := false }
      | none => p
    (p.modifyEntry index fun e => { e with block := block, selected := block.isSome }, displaced)
  else (p, none)

/-- Takes an entry into the commit or out of it. -/
def setSelected (p : Proposal) (index : Nat) (selected : Bool) : Proposal :=
  p.modifyEntry index fun e => { e with selected := selected && e.block.isSome }

end Proposal

end RegionAtlas
