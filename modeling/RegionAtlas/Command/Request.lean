/-
  Requests — the six commands, the options in front of and behind them, and what a command line
  asks for.

  What a request holds is still text: a name that cannot be understood is a matter of the command
  that is to use it.  An option that is given both in front of the subcommand and behind it counts
  as it is given behind.
-/
import RegionAtlas.Command.Arguments

namespace RegionAtlas

open Arguments

/-! ## Commands by name -/

/-- What can be done. -/
inductive CommandName where
  | regions
  | addRegion
  | destroyRegion
  | propose
  | map
  | mappings
  deriving DecidableEq

namespace CommandName

def all : List CommandName := [regions, addRegion, destroyRegion, propose, map, mappings]

def text : CommandName → String
  | regions => "regions"
  | addRegion => "add-region"
  | destroyRegion => "destroy-region"
  | propose => "propose"
  | map => "map"
  | mappings => "mappings"

/-- What the command does. -/
def about : CommandName → String
  | regions => "List the regions alive at the current snap"
  | addRegion => "Create a region that is alive from the current snap onwards"
  | destroyRegion => "End a region's lifespan at the current snap"
  | propose => "Propose static mappings for the selected regions"
  | map => "Propose static mappings for the selected regions and commit them"
  | mappings => "List the static mappings of the trace"

/-- The command of a name, in any ASCII case. -/
def ofText? (s : String) : Option CommandName :=
  all.find? fun c => c.text.toList == Text.lower s.toList

/-- The command of exactly that name. -/
def exactly? (s : String) : Option CommandName := all.find? (·.text == s)

end CommandName

/-! ## Forms -/

/-- The options that both places know. -/
def globalOptions : List OptionForm :=
  [.valued "project", .valued "trace",
   { OptionForm.valued "snap" with dashValues := true },
   ⟨"verbose", some 'v', false, true, false⟩]

/-- The place in front of the subcommand. -/
def frontForm : Form := ⟨globalOptions, 0, 0⟩

/-- The place behind a subcommand. -/
def CommandName.form : CommandName → Form
  | regions => ⟨.listed "containing" :: globalOptions, 0, 0⟩
  | addRegion => ⟨.valued "flags" :: globalOptions, 3, 3⟩
  | destroyRegion => ⟨globalOptions, 1, 1⟩
  | propose | map =>
    ⟨.listed "region" :: .listed "assign" :: .listed "skip" :: globalOptions, 0, 1⟩
  | mappings => ⟨.listed "translate" :: globalOptions, 0, 0⟩

/-! ## Requests -/

/-- Which proposal is asked for: for which program and regions, and with which edits. -/
structure ProposalRequest where
  program : Option String
  regions : Option (List String)
  assignments : List String
  skipped : List String
  deriving DecidableEq

/-- A command with its words. -/
inductive Action where
  | regions (containing : Option (List String))
  | addRegion (name min max : String) (permissions : Option String)
  | destroyRegion (id : String)
  | propose (what : ProposalRequest)
  | map (what : ProposalRequest)
  | mappings (translate : Option (List String))
  deriving DecidableEq

/-- A command, and the project, trace and snap it is for. -/
structure Request where
  project : Option String
  trace : Option String
  snap : Option String
  action : Action
  deriving DecidableEq

/-- What a command line asks for. -/
inductive Asked where
  | nothing
  | version (of : Option CommandName)
  | help
  | command (what : Request)
  deriving DecidableEq

def ProposalRequest.ofMatches (m : Matches) : ProposalRequest where
  program := m.word? 0
  regions := m.valuesOf? "region"
  assignments := (m.valuesOf? "assign").getD []
  skipped := (m.valuesOf? "skip").getD []

/-- The command with the words behind it. -/
def Action.ofMatches (name : CommandName) (m : Matches) : Action :=
  match name with
  | .regions => .regions (m.valuesOf? "containing")
  | .addRegion =>
    .addRegion ((m.word? 0).getD "") ((m.word? 1).getD "") ((m.word? 2).getD "")
      (m.valueOf? "flags")
  | .destroyRegion => .destroyRegion ((m.word? 0).getD "")
  | .propose => .propose (.ofMatches m)
  | .map => .map (.ofMatches m)
  | .mappings => .mappings (m.valuesOf? "translate")

/-- An option that both places know, as it is given behind or else in front. -/
def eitherValue? (front behind : Matches) (name : String) : Option String :=
  (behind.valueOf? name).or (front.valueOf? name)

/-- A word that ends the place in front. -/
def isSubcommand (word : String) : Bool := (CommandName.exactly? word).isSome || word == "help"

/-- What an interruption asks for; none for a command line that is refused. -/
def Asked.ofInterruption (place : Option CommandName) : Interruption → Option Asked
  | .usage => none
  | .version => some (.version place)
  | .help => some .help

/-- What a complete reading of both places asks for. -/
def Request.ofMatches (name : CommandName) (front behind : Matches) : Request where
  project := eitherValue? front behind "project"
  trace := eitherValue? front behind "trace"
  snap := eitherValue? front behind "snap"
  action := .ofMatches name behind

/-- What a list of words asks for; none for a command line that is refused.  The place behind the
subcommand is checked first. -/
def Asked.ofWords? (words : List String) : Option Asked :=
  match readWords frontForm isSubcommand .start words with
  | .error i => ofInterruption none i
  | .ok front =>
    match front.subcommand with
    | none =>
      if front.found.isComplete frontForm then some .nothing else none
    | some (word, rest) =>
      match CommandName.exactly? word with
      | none => some .help
      | some name =>
        match readWords name.form (fun _ => false) .start rest with
        | .error i => ofInterruption (some name) i
        | .ok behind =>
          if behind.found.isComplete name.form && front.found.isComplete frontForm then
            some (.command (.ofMatches name front.found behind.found))
          else none

end RegionAtlas
