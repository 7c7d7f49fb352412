/-
  Arguments — how a list of words on the command line is read.

  There are two places: in front of a subcommand and behind it.  Each place has a form, which says
  what options it knows and how many plain words it takes.  The words of a place are read in order:
    * `--name` and `--name=value` are options; dashes in front of the name and equals signs in
      front of the value do not count, and what is given to a flag is passed over;
    * an option that takes a value takes the next word, and a repeatable one every word up to the
      next that begins with a dash; only an option that says so takes words that begin with a dash;
    * `-v` and the like are flags of one letter, which can stand together behind one dash;
    * `--` ends the options; a dash alone is a plain word;
    * in front, a plain word that names a subcommand ends the place.
  Asking for the version or for help ends the reading at once, and so does a word that fits nowhere.
  When a place has been read, no option but a repeatable one may have been given twice, every one
  that takes a value must have got one, and no required word may be missing.
-/
import RegionAtlas.Text.Blank

namespace RegionAtlas.Arguments

/-! ## Forms -/

/-- An option as a place knows it. -/
structure OptionForm where
  name : String
  letter : Option Char
  takesValue : Bool
  repeatable : Bool
  /-- Whether its value may begin with a dash. -/
  dashValues : Bool
  deriving DecidableEq

/-- An option that takes one value. -/
def OptionForm.valued (name : String) : OptionForm := ⟨name, none, true, false, false⟩

/-- An option that takes any number of values. -/
def OptionForm.listed (name : String) : OptionForm := ⟨name, none, true, true, false⟩

/-- What a place takes. -/
structure Form where
  options : List OptionForm
  /-- How many plain words, at least and at most. -/
  required : Nat
  allowed : Nat
  deriving DecidableEq

/-- What ends the reading early. -/
inductive Interruption where
  | usage
  | version
  | help
  deriving DecidableEq

/-- What was found in a place. -/
structure Matches where
  /-- Every option, as often as it was given. -/
  given : List OptionForm
  /-- Every value with the name of its option. -/
  values : List (String × String)
  words : List String
  deriving DecidableEq

namespace Matches

def empty : Matches := ⟨[], [], []⟩

/-- The values of an option; none where it was not given any. -/
def valuesOf? (m : Matches) (name : String) : Option (List String) :=
  match (m.values.filter (·.1 == name)).map (·.2) with
  | [] => none
  | values => some values

def valueOf? (m : Matches) (name : String) : Option String :=
  (m.values.find? (·.1 == name)).map (·.2)

def word? (m : Matches) (index : Nat) : Option String := m.words[index]?

end Matches

/-! ## Reading a place -/

/-- How far a place has been read. -/
structure State where
  found : Matches
  /-- The option that takes the next word. -/
  pending : Option OptionForm
  /-- Whether the options have ended. -/
  plainOnly : Bool
  deriving DecidableEq

namespace State

def start : State := ⟨.empty, none, false⟩

/-- Takes note of an option. -/
def give (st : State) (o : OptionForm) : State :=
  { st with
    found := { st.found with given := st.found.given ++ [o] }
    pending := if o.takesValue then some o else none }

/-- Gives an option a value. -/
def addValue (st : State) (o : OptionForm) (value : String) : State :=
  { st with
    found := { st.found with values := st.found.values ++ [(o.name, value)] }
    pending := if o.repeatable then some o else none }

/-- Takes a plain word. -/
def addWord (st : State) (form : Form) (word : String) : Except Interruption State :=
  if st.found.words.length < form.allowed then
    .ok { st with found := { st.found with words := st.found.words ++ [word] } }
  else .error .usage

/-- Takes an option that is written out. -/
def addLong (st : State) (form : Form) (word : List Char) : Except Interruption State :=
  let body := word.dropWhile (· == '-')
  let (name, value) : List Char × Option (List Char) :=
    match Text.splitFirst? (· == '=') body with
    | some (name, value) => (name, some (value.dropWhile (· == '=')))
    | none => (body, none)
  match form.options.find? (·.name.toList == name), value with
  | some o, some value =>
    if o.takesValue then
      .ok { (st.give o).addValue o (String.ofList value) with pending := none }
    else .ok (st.give o)
  | some o, none => .ok (st.give o)
  | none, _ =>
    if name = "version".toList then .error .version
    else if name = "help".toList then .error .help
    else .error .usage

/-- Takes flags of one letter. -/
def addLetters (st : State) (form : Form) : List Char → Except Interruption State
  | [] => .ok st
  | c :: rest =>
    match form.options.find? (·.letter == some c) with
    | some o => (st.give o).addLetters form rest
    | none =>
      if c = 'V' then .error .version
      else if c = 'h' then .error .help
      else .error .usage

/-- Takes a word that begins with a dash and is more than that. -/
def addDashed (st : State) (form : Form) (word : List Char) : Except Interruption State :=
  match word with
  | ['-', '-'] => .ok { st with plainOnly := true }
  | '-' :: '-' :: _ => st.addLong form word
  | _ => st.addLetters form (word.drop 1)

end State

/-- Whether a word begins with a dash and is more than that. -/
def isDashed (word : String) : Bool :=
  match word.toList with
  | '-' :: _ :: _ => true
  | _ => false

/-- A place that has been read, and the subcommand behind it with the words that are left. -/
structure Read where
  found : Matches
  subcommand : Option (String × List String)

/-- Reads words up to a subcommand. -/
def readWords (form : Form) (isSubcommand : String → Bool) (st : State) :
    List String → Except Interruption Read
  | [] => .ok ⟨st.found, none⟩
  | word :: rest =>
    if st.plainOnly then do
      readWords form isSubcommand (← st.addWord form word) rest
    else
      match st.pending with
      | some o =>
        if isDashed word && !o.dashValues then do
          readWords form isSubcommand (← st.addDashed form word.toList) rest
        else readWords form isSubcommand (st.addValue o word) rest
      | none =>
        if isSubcommand word then .ok ⟨st.found, some (word, rest)⟩
        else if isDashed word then do
          readWords form isSubcommand (← st.addDashed form word.toList) rest
        else do
          readWords form isSubcommand (← st.addWord form word) rest

/-- Whether a place that has been read is complete. -/
def Matches.isComplete (m : Matches) (form : Form) : Bool :=
  m.given.all (fun o =>
    (o.repeatable || m.given.count o ≤ 1) && (!o.takesValue || (m.valueOf? o.name).isSome)) &&
    form.required ≤ m.words.length

end RegionAtlas.Arguments
