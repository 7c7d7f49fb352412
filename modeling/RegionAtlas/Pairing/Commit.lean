/-
  Committing a proposal — its accepted entries become static mappings, all of them or none.

  Every accepted entry is checked, in the order of the proposal: its region is alive at the snap,
  its block is in the image, and its mapping collides neither with a committed mapping nor with
  that of an earlier entry.  If all pass, the mappings are made in one transaction, each with the
  lifespan that its region has at the time.  If any fails, nothing is made and every failure is
  reported.  The proposal itself is only read.
-/
import RegionAtlas.Ledger.Trace
import RegionAtlas.Pairing.Proposal

namespace RegionAtlas

/-! ## Failures -/

/-- Why an entry cannot be committed. -/
inductive FailureReason where
  /-- A committed mapping is in the way. -/
  | overlap (id : MappingId)
  /-- The mapping of another entry is in the way. -/
  | overlapsEntry (id : RegionId)
  /-- The region is gone, or not alive at the snap. -/
  | staleRegion
  /-- The block is not in the image any more. -/
  | staleBlock
  /-- Anything else the trace refuses. -/
  | invalid (why : Refusal)
  deriving DecidableEq

def FailureReason.message : FailureReason → String
  | overlap id => "overlaps existing mapping " ++ id.text
  | overlapsEntry id => "overlaps the mapping proposed for region " ++ id.text
  | staleRegion => "region is no longer alive"
  | staleBlock => "block is no longer part of the program"
  | invalid why => why.message

/-- An entry that cannot be committed. -/
structure Failure where
  region : RegionId
  reason : FailureReason
  deriving DecidableEq

def Failure.message (f : Failure) : String :=
  "region " ++ f.region.text ++ ": " ++ f.reason.message

/-- Why a proposal is not committed. -/
inductive CommitError where
  /-- Some entries failed, so nothing was made. -/
  | rejected (failures : List Failure)
  /-- Every entry passed, but the trace refused the commit. -/
  | refused (why : Refusal)
  deriving DecidableEq

def CommitError.message : CommitError → String
  | rejected failures =>
    Text.decimal failures.length ++ " proposal entries could not be mapped"
  | refused why => "commit failed: " ++ why.message

/-! ## Entries -/

/-- The edit that maps an entry, or why there is none. -/
def Entry.mappingEdit (e : Entry) (region : Option Region) (image : Image) (s : Snap) :
    Except FailureReason Edit :=
  match region with
  | none => .error .staleRegion
  | some r =>
    if r.isAliveAt s then
      match e.block, e.traceRange? with
      | some b, some range =>
        if image.contains b then .ok (.addMapping range r.lifespan image.name b.start)
        else .error .staleBlock
      | _, _ => .error .staleBlock
    else .error .staleRegion

/-- Which entry a mapping was staged for. -/
structure Made where
  mapping : MappingId
  region : RegionId
  deriving DecidableEq

/-- Why an entry fails whose mapping the trace refuses, given what was staged for earlier ones. -/
def FailureReason.ofRefusal (made : List Made) : Refusal → FailureReason
  | .overlap _ (.mapping id) =>
    match made.find? (·.mapping == id) with
    | some m => .overlapsEntry m.region
    | none => .overlap id
  | why => .invalid why

/-- What came of the entries checked so far. -/
structure Checked where
  trace : Trace
  made : List Made
  failures : List Failure

/-- Stages the mapping of one entry in an open transaction, or notes why it fails. -/
def Checked.next (k : Checked) (d : DraftId) (image : Image) (s : Snap) (e : Entry) : Checked :=
  let id := e.region.id
  let fail := fun reason => k.failures ++ [⟨id, reason⟩]
  let region := (k.trace.draft? d).bind fun tx => tx.region? k.trace.contents id
  match e.mappingEdit region image s with
  | .error reason => { k with failures := fail reason }
  | .ok edit =>
    match k.trace.edit d edit with
    | (t, .staged (.mapping m)) => { k with trace := t, made := k.made ++ [⟨m, id⟩] }
    | (t, .refused why) => { k with trace := t, failures := fail (.ofRefusal k.made why) }
    | (t, _) => { k with trace := t }

/-! ## The commit -/

/-- What a committed proposal made, and what listeners were told of it. -/
structure CommitSummary where
  created : List MappingId
  told : List Change
  deriving DecidableEq

/-- Makes the accepted entries of a proposal into mappings. -/
def commitProposal (t : Trace) (p : Proposal) (image : Image) (s : Snap) :
    Trace × Except CommitError CommitSummary :=
  let (t, d) := t.begin ("Map regions to " ++ p.program)
  let checked := p.accepted.foldl (fun (k : Checked) e => k.next d image s e) ⟨t, [], []⟩
  match checked.failures with
  | [] =>
    match checked.trace.commit d with
    | (t, .refused why) => (t, .error (.refused why))
    | (t, reply) => (t, .ok ⟨checked.made.map (·.mapping), reply.told⟩)
  | failures => (checked.trace.abort d, .error (.rejected failures))

end RegionAtlas
