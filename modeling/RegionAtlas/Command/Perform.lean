/-
  Performing a command — what each of the six does to a trace at a snap, and what it prints.

  A command works on a trace in memory and neither reads nor writes a file.  It ends in one of
  three ways: something was shown; the trace was changed, with a line to print once that is saved;
  or an error.  What was printed before an error stays printed.
-/
import RegionAtlas.Command.Error
import RegionAtlas.Command.Report
import RegionAtlas.Command.Request

namespace RegionAtlas

/-! ## Reading words -/

/-- A hexadecimal address. -/
def readAddress (s : String) : Except CommandError UInt64 :=
  match Text.address? s.toList with
  | some n => .ok n
  | none => .error (.badAddress s)

/-- The number of a region, in decimal, behind any number of `#`. -/
def RegionId.ofText? (s : String) : Option RegionId :=
  (Text.word? 10 (s.toList.dropWhile (· == '#'))).map RegionId.mk

def readRegionId (s : String) : Except CommandError RegionId :=
  match RegionId.ofText? s with
  | some id => .ok id
  | none => .error (.badRegionId s)

/-- A region and the name of a block, with an equals sign between them; an empty name stands for
no block. -/
def readAssignment (s : String) : Except CommandError (RegionId × String) :=
  match Text.splitFirst? (· == '=') s.toList with
  | none => .error (.badAssignment s)
  | some (region, block) =>
    (readRegionId (String.ofList region)).map fun id => (id, String.ofList (Text.trim block))

/-! ## Output -/

/-- How a command ended. -/
inductive Ending where
  | shown
  /-- The trace is to be saved, and then this is to be printed. -/
  | changed (confirmation : String)
  deriving DecidableEq

/-- What a command did: the trace after it, the lines it printed and those about what went wrong,
and how it ended. -/
structure Performed where
  trace : Trace
  printed : List String
  noted : List String
  ending : Except CommandError Ending

namespace Performed

def fail (t : Trace) (why : CommandError) : Performed := ⟨t, [], [], .error why⟩

/-- Shows lines. -/
def display (t : Trace) (lines : List String) : Performed := ⟨t, lines, [], .ok .shown⟩

end Performed

/-- What a command works with besides the trace. -/
structure Setting where
  project : Project
  snap : Snap
  deriving DecidableEq

/-! ## Regions -/

/-- The rows of the regions alive at the snap. -/
def shownRows (t : Trace) (s : Snap) : List Row := (t.contents.regionsAt s).map Row.ofRegion

/-- Lists regions. -/
def performRegions (t : Trace) (s : Snap) (containing : Option (List String)) : Performed :=
  let rows := shownRows t s
  match containing with
  | none => .display t (Report.regionLines rows)
  | some addresses =>
    match addresses.mapM readAddress with
    | .error why => .fail t why
    | .ok addresses =>
      let wanted := addresses.map AddressRange.single
      .display t (Report.regionLines (rows.filter (·.range.intersectsAny wanted)))

/-- Makes one edit in a transaction of its own. -/
def performEdit (t : Trace) (description : String) (e : Edit) (confirmation : Staged → String) :
    Performed :=
  match t.transaction description [e] with
  | (t, what :: _, .done _) => ⟨t, [], [], .ok (.changed (confirmation what))⟩
  | (t, _, .refused why) => .fail t (.refused why)
  | (t, _, _) => .display t []

/-- The permissions that are asked for. -/
def readPermissions : Option String → Except CommandError Permissions
  | none => .ok .readOnly
  | some s =>
    match Permissions.ofText? s with
    | some p => .ok p
    | none => .error (.badPermissions s)

/-- The range and permissions that a new region is asked for with. -/
def readRegion (min max : String) (permissions : Option String) :
    Except CommandError (AddressRange × Permissions) := do
  let min ← readAddress min
  let max ← readAddress max
  match AddressRange.of? min max with
  | none => .error (.invertedRegion min max)
  | some range =>
    let permissions ← readPermissions permissions
    pure (range, permissions)

/-- The number of a new region in words. -/
def stagedIdText : Staged → String
  | .region id => id.text
  | .mapping id => id.text
  | .destroyed => ""

def performAddRegion (t : Trace) (s : Snap) (name min max : String)
    (permissions : Option String) : Performed :=
  match readRegion min max permissions with
  | .error why => .fail t why
  | .ok (range, permissions) =>
    performEdit t ("Add region " ++ name) (.createRegion name range s permissions) fun what =>
      "Created region " ++ stagedIdText what ++ " at " ++ range.text

def performDestroyRegion (t : Trace) (s : Snap) (id : String) : Performed :=
  match readRegionId id with
  | .error why => .fail t why
  | .ok id =>
    performEdit t ("Destroy region " ++ id.text) (.destroyRegion id s) fun _ =>
      "Destroyed region " ++ id.text ++ " at snap " ++ Text.signedDecimal s.toInt

/-! ## Proposals -/

/-- The regions that still exist of a selection. -/
def regionsFor (c : Contents) (ids : List RegionId) : List Region := ids.filterMap c.region?

/-- The regions that are to be mapped: those named, or else those shown, as far as they are alive
at the snap. -/
def selection (t : Trace) (s : Snap) (named : Option (List String)) :
    Except CommandError (List Region) := do
  let ids ←
    match named with
    | some texts => texts.mapM readRegionId
    | none => pure (t.contents.query s)
  pure ((regionsFor t.contents ids).filter (·.isAliveAt s))

/-- The proposal for a selection, with the image it is for, before any edit. -/
def chooseProposal (p : Setting) (regions : List Region) (program : Option String) :
    Except CommandError (Proposal × Image) :=
  match program with
  | some name =>
    match p.project.image? name with
    | none => .error (.unknownProgram name)
    | some image =>
      if canMap regions p.snap image then .ok (propose regions image, image)
      else .error (.unrelatedProgram name)
  | none =>
    let images := p.project.images.filter (canMap regions p.snap)
    match proposeBest regions images with
    | none => .error .noMatchingProgram
    | some proposal =>
      match images.find? (·.name == proposal.program) with
      | some image => .ok (proposal, image)
      | none => .error .programVanished

/-- The entry of a region. -/
def entryIndex (p : Proposal) (id : RegionId) : Except CommandError Nat :=
  match p.indexOf? id with
  | some index => .ok index
  | none => .error (.notProposed id)

/-- The block that is asked for by name. -/
def readBlock (image : Image) (name : String) : Except CommandError (Option Block) :=
  if name.isEmpty then .ok none
  else
    match image.blockNamed? name with
    | some b => .ok (some b)
    | none => .error (.unknownBlock image.name name)

/-- What an assignment says of a proposal: which entry gets which block, and the block's name. -/
def readAssigned (p : Proposal) (image : Image) (s : String) :
    Except CommandError (Nat × Option Block × String) := do
  let (id, name) ← readAssignment s
  let index ← entryIndex p id
  let block ← readBlock image name
  pure (index, block, name)

/-- A note that an entry lost its block to another. -/
def takenNote (p : Proposal) (name : String) (loser : Nat) : List String :=
  match p.entries[loser]? with
  | some e => ["Block " ++ name ++ " taken from region " ++ e.region.id.text]
  | none => []

/-- A proposal in the course of being edited, with the notes made so far. -/
structure EditedProposal where
  notes : List String
  result : Except CommandError Proposal

/-- Gives entries the blocks that are asked for, in order. -/
def assignBlocks (image : Image) (p : Proposal) : List String → EditedProposal
  | [] => ⟨[], .ok p⟩
  | s :: rest =>
    match readAssigned p image s with
    | .error why => ⟨[], .error why⟩
    | .ok (index, block, name) =>
      let (p, displaced) := p.setBlock index block
      let edited := assignBlocks image p rest
      { edited with notes := displaced.elim [] (takenNote p name) ++ edited.notes }

/-- Takes entries out of the commit, in order. -/
def skipEntries (p : Proposal) : List String → Except CommandError Proposal
  | [] => .ok p
  | s :: rest => do
    let id ← readRegionId s
    let index ← entryIndex p id
    skipEntries (p.setSelected index false) rest

/-- What was proposed: the notes made on the way, and the proposal with its image. -/
structure Built where
  notes : List String
  result : Except CommandError (Proposal × Image)

/-- The proposal that is asked for. -/
def buildProposal (p : Setting) (t : Trace) (what : ProposalRequest) : Built :=
  let chosen := do
    let regions ← selection t p.snap what.regions
    if regions.isEmpty then .error .nothingSelected
    else chooseProposal p regions what.program
  match chosen with
  | .error why => ⟨[], .error why⟩
  | .ok (proposal, image) =>
    let edited := assignBlocks image proposal what.assignments
    let result := do
      let proposal ← skipEntries (← edited.result) what.skipped
      pure (proposal, image)
    ⟨edited.notes, result⟩

def performPropose (p : Setting) (t : Trace) (what : ProposalRequest) : Performed :=
  let built := buildProposal p t what
  match built.result with
  | .error why => ⟨t, [], built.notes, .error why⟩
  | .ok (proposal, _) => ⟨t, Report.proposalLines proposal, built.notes, .ok .shown⟩

def performMap (p : Setting) (t : Trace) (what : ProposalRequest) : Performed :=
  let built := buildProposal p t what
  match built.result with
  | .error why => ⟨t, [], built.notes, .error why⟩
  | .ok (proposal, image) =>
    let lines := Report.proposalLines proposal
    match commitProposal t proposal image p.snap with
    | (t, .ok summary) =>
      ⟨t, lines, built.notes,
        .ok (.changed
          ("Created " ++ Text.decimal summary.created.length ++ " static mappings"))⟩
    | (t, .error (.rejected failures)) =>
      ⟨t, lines, built.notes ++ failures.map ("Cannot map " ++ ·.message),
        .error (.rejected failures)⟩
    | (t, .error (.refused why)) => ⟨t, lines, built.notes, .error (.commitRefused why)⟩

/-! ## Mappings -/

/-- What an address is translated to, through the first mapping alive at the snap that covers it. -/
def translate (c : Contents) (s : Snap) (address : String) : Except CommandError String :=
  let alive := c.mappings.values.filter (·.lifespan.contains s)
  if address.toList.contains ':' then
    match StaticAddress.ofText? address with
    | none => .error (.badStaticAddress address)
    | some a =>
      .ok (match alive.findSome? (·.toTrace? a) with
        | some n => Report.hexText n
        | none => "(unmapped)")
  else
    (readAddress address).map fun n =>
      match alive.findSome? (·.toStatic? n) with
      | some a => a.text
      | none => "(unmapped)"

/-- Translates addresses in order, up to the first that is not understood. -/
def translateEach (c : Contents) (s : Snap) : List String → List String × Except CommandError Ending
  | [] => ([], .ok .shown)
  | address :: rest =>
    match translate c s address with
    | .error why => ([], .error why)
    | .ok text =>
      let (lines, ending) := translateEach c s rest
      ((address ++ " -> " ++ text) :: lines, ending)

def performMappings (t : Trace) (s : Snap) (addresses : Option (List String)) : Performed :=
  match addresses with
  | none => .display t (Report.mappingLines t.contents.mappings.values)
  | some addresses =>
    let (lines, ending) := translateEach t.contents s addresses
    ⟨t, lines, [], ending⟩

/-! ## Any command -/

/-- Performs a command on a trace. -/
def Action.perform (p : Setting) (t : Trace) : Action → Performed
  | .regions containing => performRegions t p.snap containing
  | .addRegion name min max permissions => performAddRegion t p.snap name min max permissions
  | .destroyRegion id => performDestroyRegion t p.snap id
  | .propose what => performPropose p t what
  | .map what => performMap p t what
  | .mappings addresses => performMappings t p.snap addresses

end RegionAtlas
