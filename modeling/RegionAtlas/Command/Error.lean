/-
  Command errors — why a command ends without success, of which kind that is, and in which words.
-/
import RegionAtlas.Pairing.Commit
import RegionAtlas.Session

namespace RegionAtlas

/-- Why a command fails. -/
inductive CommandError where
  /-- The command line is not understood. -/
  | usage
  | noCommand
  | project (why : ProjectError)
  /-- No trace is named, and the project has none to fall back on. -/
  | noTraces
  | session (why : SessionError)
  | badSnap (text : String)
  | badAddress (text : String)
  | badStaticAddress (text : String)
  | badRegionId (text : String)
  | badPermissions (text : String)
  | badAssignment (text : String)
  | invertedRegion (min max : UInt64)
  | refused (why : Refusal)
  | nothingSelected
  | unknownProgram (name : String)
  | unrelatedProgram (name : String)
  | noMatchingProgram
  | programVanished
  | unknownBlock (program block : String)
  | notProposed (id : RegionId)
  | rejected (failures : List Failure)
  | commitRefused (why : Refusal)
  deriving DecidableEq

namespace CommandError

/-- Errors of what a command loads keep their kind; what a user wrote wrong is invalid input. -/
def kind : CommandError → ErrorKind
  | project why => why.kind
  | session why => why.kind
  | unknownProgram _ | unrelatedProgram _ | noMatchingProgram | unknownBlock _ _ => .notFound
  | rejected _ => .invalidData
  | programVanished | commitRefused _ => .other
  | _ => .invalidInput

/-- The words of an error.  Those of the command line are left to what reads it. -/
def message? : CommandError → Option String
  | usage => none
  | noCommand => some "No command given, try --help for a list of commands."
  | project why => why.message?
  | noTraces => some "The project lists no traces, specify one with --trace."
  | session why => why.message?
  | badSnap text => some (text ++ " is not a valid snap")
  | badAddress text => some (text ++ " is not a valid address")
  | badStaticAddress text => some (text ++ " is not a valid static address")
  | badRegionId text => some (text ++ " is not a valid region id")
  | badPermissions text => some (text ++ " is not a valid permission string")
  | badAssignment text => some (text ++ " should look like region=block")
  | invertedRegion min max =>
    some ("Region cannot end at " ++ String.ofList (Text.hex max) ++ " when it starts at " ++
      String.ofList (Text.hex min))
  | refused why => some why.message
  | nothingSelected => some "No regions selected at this snap."
  | unknownProgram name => some ("Program " ++ name ++ " does not exist")
  | unrelatedProgram name =>
    some ("None of the selected regions belong to program " ++ name)
  | noMatchingProgram => some "No program in the project matches the selected regions."
  | programVanished => some "Proposed program vanished"
  | unknownBlock program block => some ("Program " ++ program ++ " has no block " ++ block)
  | notProposed id => some ("Region " ++ id.text ++ " is not part of the proposal")
  | rejected failures => some (CommitError.rejected failures).message
  | commitRefused why => some (CommitError.refused why).message

end CommandError

end RegionAtlas
