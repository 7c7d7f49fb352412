/-
  Processes — one process for each command line, and one trace for them all.

  The program loads a trace, performs a command on it, and saves it if the command changed it.  The
  next process starts from what was saved.  Another way to run the same command lines is to keep the
  trace in memory and never load it again.  Either way each command line succeeds or fails alike,
  and the same regions and mappings come of it, but for the numbers of mappings.

  The invariant is that the files keep a twin of the trace in memory (`Keeps`): what a process loads
  differs from that trace in the numbers of mappings only.  For one command line:

    * commands end alike in twins, and leave twins (`Trace.Twin.perform`);
    * what is saved is loaded by the next process as it was (`Database.loadContents_put`), and
      numbers go on after those in use, so that it is a twin again (`Trace.Twin.reload`);
    * the project is still where it was, since only the database is written
      (`Files.read_put_of_ne`), and so is the database, since writing makes no directory
      (`Files.locate_put`).
-/
import RegionAtlas.Proofs.Invocations
import RegionAtlas.Proofs.Twins

namespace RegionAtlas

/-! ## Two ways to run command lines -/

/-- What a request does to a trace that is kept in memory, and the error it ends with, if any. -/
def Request.serve (r : Request) (place : PlacedProject) (name : String) (t : Trace) :
    Trace × Option CommandError :=
  match chooseSnap place.project name r.snap with
  | .error why => (t, some why)
  | .ok snap =>
    let done := r.action.perform ⟨place.project, snap⟩ t
    match done.ending with
    | .error why => (done.trace, some why)
    | .ok _ => (done.trace, none)

/-- What a command line does to a trace that is kept in memory.  Nothing but a command gets that
far. -/
def attend (place : PlacedProject) (name : String) (t : Trace) (words : List String) :
    Trace × Option CommandError :=
  match Asked.ofWords? words with
  | none => (t, some .usage)
  | some .nothing => (t, some .noCommand)
  | some (.version _) => (t, none)
  | some .help => (t, none)
  | some (.command r) => r.serve place name t

/-- What is asked for is for a trace of a project, if it is a command. -/
def Asked.IsFor (path : String) (place : PlacedProject) (name : String) : Asked → Prop
  | command r => r.projectPath = path ∧ chooseTrace place.project r.trace = .ok name
  | _ => True

instance (path : String) (place : PlacedProject) (name : String) :
    DecidablePred (Asked.IsFor path place name)
  | .command _ => inferInstanceAs (Decidable (_ ∧ _))
  | .nothing => .isTrue trivial
  | .version _ => .isTrue trivial
  | .help => .isTrue trivial

/-- Runs command lines on one trace, and tells the error that each ends with, if any. -/
def attendEach (place : PlacedProject) (name : String) (t : Trace) :
    List (List String) → Trace × List (Option CommandError)
  | [] => (t, [])
  | words :: rest =>
    let first := attend place name t words
    let later := attendEach place name first.1 rest
    (later.1, first.2 :: later.2)

/-- Runs command lines as a process each, and tells the error that each ends with, if any. -/
def invokeEach (files : Files) : List (List String) → Files × List (Option CommandError)
  | [] => (files, [])
  | words :: rest =>
    let run := invoke files words
    let later := invokeEach run.files rest
    (later.1, run.error :: later.2)

/-! ## Loading what was saved -/

namespace Trace

variable {id : TraceId} {t t' : Trace} {place : PlacedProject} {name : String}

/-- The next number of a mapping has been counted. -/
theorem Reached.nextMapping_le (h : t.Reached id) :
    t.contents.nextMapping.toNat ≤ t.counters.mapping.toNat := by
  cases hlast : t.contents.mappings.rows.getLast? with
  | none =>
    rw [Contents.nextMapping, Table.lastKey?, hlast]
    exact Nat.zero_le _
  | some row =>
    have hheld : t.contents.Holds (.mapping row.1) :=
      ⟨row.2, Table.find?_eq_some.mpr (List.mem_of_getLast? hlast)⟩
    rw [Contents.nextMapping, Table.lastKey?, hlast]
    show (Contents.after row.1.raw).toNat ≤ _
    rcases h.covers hheld with hreserved | hlt
    · rw [hreserved]
      exact toNat_le_reservedId _
    · have hfree : row.1.raw ≠ reservedId := by
        intro hreserved
        rw [hreserved] at hlt
        exact Nat.not_lt_of_le (toNat_le_reservedId _) (UInt64.lt_iff_toNat_lt.mp hlt)
      have hadd := UInt64.toNat_add row.1.raw 1
      have hone : (1 : UInt64).toNat = 1 := rfl
      have hmod := Nat.mod_le (row.1.raw.toNat + 1) (2 ^ 64)
      rw [UInt64.lt_iff_toNat_lt] at hlt
      rw [Contents.after, if_neg hfree]
      omega

theorem tight_trace (place : PlacedProject) (name : String) (c : Contents) :
    (place.trace name c).Tight := (c.nextRegion_ownedBy ⟨1⟩).symm

theorem Reached.contents_reloaded (h : t.Reached ⟨1⟩) (place : PlacedProject) (name : String) :
    (place.trace name (t.contents.ownedBy unownedId)).contents = t.contents := by
  refine Eq.trans ?_ h.ownedBy_contents
  refine Contents.ext_find (fun rid => ?_) fun _ => rfl
  show ((t.contents.ownedBy unownedId).ownedBy ⟨1⟩).region? rid = _
  rw [Contents.region?_ownedBy, Contents.region?_ownedBy, Contents.region?_ownedBy, Option.map_map]
  rfl

/-- **A trace that is loaded again is a twin of the one that was saved.** -/
theorem Twin.reload (h : t.Twin t') (hreached : t'.Reached ⟨1⟩) (place : PlacedProject)
    (name : String) : t.Twin (place.trace name (t'.contents.ownedBy unownedId)) where
  contents := by
    rw [hreached.contents_reloaded]
    exact h.contents
  mappingNumbers := Nat.le_trans hreached.nextMapping_le h.mappingNumbers

end Trace

/-! ## One command line -/

/-- **Files keep a twin of a trace**: a project lists a trace whose database loads as a twin of it,
and the database has a place of its own to be written to. -/
structure Keeps (files : Files) (path : String) (place : PlacedProject) (name : String)
    (config : TraceConfig) (key : String) (t : Trace) : Prop where
  twin : ∃ c, files.Lists path place name config c ∧ t.Twin (place.trace name c)
  located : ∃ spot, files.locate (place.databasePath config) = .ok spot ∧ spot.path? = some key
  apart : ∃ spot, files.locate path = .ok spot ∧ spot.path? ≠ some key
  reached : t.Reached ⟨1⟩
  tight : t.Tight

section Keeping

variable {files : Files} {path : String} {place : PlacedProject} {name : String}
  {config : TraceConfig} {key : String} {t : Trace} {r : Request}

/-- A command that fails or only looks leaves the files, and they keep what they kept. -/
theorem Keeps.stay {t₁ : Trace} {c : Contents} (h : Keeps files path place name config key t)
    (hlists : files.Lists path place name config c) (htwin : t₁.Twin (place.trace name c))
    (hreached : t₁.Reached ⟨1⟩) (htight : t₁.Tight) :
    Keeps files path place name config key t₁ :=
  ⟨⟨c, hlists, htwin⟩, h.located, h.apart, hreached, htight⟩

/-- **A trace that is saved is kept.** -/
theorem Keeps.save {t₁ t₁' : Trace} {c : Contents} (h : Keeps files path place name config key t)
    (hlists : files.Lists path place name config c) (htwin : t₁.Twin t₁')
    (hreached : t₁.Reached ⟨1⟩) (hreached' : t₁'.Reached ⟨1⟩) (htight : t₁.Tight) :
    Keeps (files.put key t₁'.savedText) path place name config key t₁ := by
  obtain ⟨spot, hlocated, hkey⟩ := h.located
  obtain ⟨other, hother, hne⟩ := h.apart
  have hreachable := Files.reachable_of_locate hlocated hkey
  have hproject : PlacedProject.load (files.put key t₁'.savedText) path =
      PlacedProject.load files path := by
    rw [PlacedProject.load, PlacedProject.load, Files.read_put_of_ne hreachable _ hother hne]
  exact {
    twin := ⟨t₁'.contents.ownedBy unownedId,
      ⟨hproject.trans hlists.project, hlists.listed,
        Database.loadContents_put hreached'.attained hlocated hkey⟩,
      htwin.reload hreached' place name⟩
    located := ⟨_, Files.locate_put hreachable _ hlocated, (spot.path?_after _ _).trans hkey⟩
    apart := ⟨_, Files.locate_put hreachable _ hother, by rw [Place.path?_after]; exact hne⟩
    reached := hreached
    tight := htight }

/-- **The step**: a request ends alike as a process and in memory, and the files keep a twin of the
trace again. -/
theorem Keeps.request (h : Keeps files path place name config key t) (hpath : r.projectPath = path)
    (hname : chooseTrace place.project r.trace = .ok name)
    (hroom : ∀ why, (r.serve place name t).2 = some why → ¬ why.IsShortage) :
    (r.run files).error.isSome = (r.serve place name t).2.isSome ∧
      Keeps (r.run files).files path place name config key (r.serve place name t).1 := by
  obtain ⟨c, hlists, htwin⟩ := h.twin
  have hloaded := place.reached_trace name (Database.attained_of_loadContents hlists.loads)
  have hopen := Request.open_of_lists (hpath ▸ hlists) hname
  rw [Request.run, hopen]
  rw [Request.serve] at hroom ⊢
  cases hsnap : chooseSnap place.project name r.snap with
  | error why => exact ⟨rfl, h⟩
  | ok snap =>
    rw [hsnap] at hroom
    dsimp only [Except.map] at hroom ⊢
    have hshort : ∀ why, (r.action.perform ⟨place.project, snap⟩ t).ending = .error why →
        ¬ why.IsShortage := by
      intro why hwhy
      refine hroom why ?_
      rw [hwhy]
    have halike := htwin.perform h.tight (Trace.tight_trace place name c) h.reached hloaded
      ⟨place.project, snap⟩ r.action hshort
    have hreached := h.reached.perform ⟨place.project, snap⟩ r.action
    have hreached' := hloaded.perform ⟨place.project, snap⟩ r.action
    have htight := h.tight.perform h.reached ⟨place.project, snap⟩ r.action hshort
    cases halike with
    | failed hending hending' htwin₁ =>
      rw [hending, hending']
      exact ⟨rfl, h.stay hlists htwin₁ hreached htight⟩
    | @done ending ending' hok hok' htwin₁ =>
      rw [hok, hok']
      cases hedits : r.action.edits with
      | false =>
        obtain rfl := (perform_of_looks hedits _ _).2 ending' hok'
        have hleft := (perform_of_looks hedits ⟨place.project, snap⟩ t).1
        dsimp only
        rw [hleft]
        exact ⟨rfl, h⟩
      | true =>
        obtain ⟨line, rfl⟩ := hloaded.ending_of_edits hedits hok'
        obtain ⟨spot, hlocated, hkey⟩ := h.located
        have hsaved : Loaded.save ⟨place, name, ⟨place.project, snap⟩, place.trace name c⟩
            (r.action.perform ⟨place.project, snap⟩ (place.trace name c)).trace files =
              .ok (files.put key (r.left place name c snap).savedText) := by
          rw [Loaded.save, hlists.listed]
          dsimp only
          rw [Trace.save, Files.write_eq_ok.mpr ⟨spot, key, hlocated, hkey, rfl⟩]
          rfl
        dsimp only
        rw [hsaved]
        exact ⟨rfl, h.save hlists htwin₁ hreached hreached' htight⟩

/-- **Whatever is asked for**, it ends alike, and the files keep a twin of the trace again. -/
theorem Keeps.attend {words : List String} (h : Keeps files path place name config key t)
    (hfor : ∀ asked ∈ Asked.ofWords? words, asked.IsFor path place name)
    (hroom : ∀ why, (attend place name t words).2 = some why → ¬ why.IsShortage) :
    (invoke files words).error.isSome = (RegionAtlas.attend place name t words).2.isSome ∧
      Keeps (invoke files words).files path place name config key
        (RegionAtlas.attend place name t words).1 := by
  rw [invoke]
  rw [RegionAtlas.attend] at hroom ⊢
  cases hasked : Asked.ofWords? words with
  | none => exact ⟨rfl, h⟩
  | some asked =>
    cases asked with
    | nothing => exact ⟨rfl, h⟩
    | version place => exact ⟨rfl, h⟩
    | help => exact ⟨rfl, h⟩
    | command r =>
      obtain ⟨hpath, hname⟩ := hfor _ hasked
      rw [hasked] at hroom
      exact h.request hpath hname hroom

/-! ## All of them -/

/-- **The run**: command lines end alike one after another, and the files keep a twin of the trace
that all of them leave. -/
theorem Keeps.attendEach {invocations : List (List String)}
    (h : Keeps files path place name config key t)
    (hfor : ∀ words ∈ invocations, ∀ asked ∈ Asked.ofWords? words,
      asked.IsFor path place name)
    (hroom : ∀ why, some why ∈ (attendEach place name t invocations).2 → ¬ why.IsShortage) :
    (invokeEach files invocations).2.map Option.isSome =
        (RegionAtlas.attendEach place name t invocations).2.map Option.isSome ∧
      Keeps (invokeEach files invocations).1 path place name config key
        (RegionAtlas.attendEach place name t invocations).1 := by
  induction invocations generalizing files t with
  | nil => exact ⟨rfl, h⟩
  | cons words rest ih =>
    obtain ⟨hends, hkept⟩ := h.attend (hfor words List.mem_cons_self) fun why hwhy =>
      hroom why (hwhy ▸ List.mem_cons_self)
    obtain ⟨hrest, hkept⟩ := ih hkept (fun words hwords => hfor words (.tail _ hwords))
      fun why hwhy => hroom why (List.mem_cons_of_mem _ hwhy)
    exact ⟨congrArg₂ List.cons hends hrest, hkept⟩

end Keeping

/-- **A process for each command line comes to the same as one that goes on.**  Take a project with
a trace whose database loads, and can be written to without writing over the project.  Run command
lines for that trace, each as a process that loads the trace, acts and saves; or run them on the
trace in memory, which is never loaded again.  Unless numbers run out, the same command lines fail,
and the trace that is loaded in the end has the same regions under the same numbers as the one in
memory, and the same mappings in the same order, but for their numbers. -/
theorem processes_act_as_session {files : Files} {path : String} {place : PlacedProject}
    {name : String} {config : TraceConfig} {c : Contents} {seat spot : Place} {key : String}
    {invocations : List (List String)} (hlists : files.Lists path place name config c)
    (hproject : files.locate path = .ok seat)
    (hdatabase : files.locate (place.databasePath config) = .ok spot)
    (hkey : spot.path? = some key) (hapart : seat.path? ≠ some key)
    (hfor : ∀ words ∈ invocations, ∀ asked ∈ Asked.ofWords? words,
      asked.IsFor path place name)
    (hroom : ∀ why, some why ∈ (attendEach place name (place.trace name c) invocations).2 →
      ¬ why.IsShortage) :
    let processes := invokeEach files invocations
    let session := attendEach place name (place.trace name c) invocations
    processes.2.map Option.isSome = session.2.map Option.isSome ∧
      ∃ c', processes.1.Lists path place name config c' ∧
        (place.trace name c').contents.regions = session.1.contents.regions ∧
        (place.trace name c').contents.mappings.values.map Mapping.bare =
          session.1.contents.mappings.values.map Mapping.bare := by
  intro processes session
  have hstart : Keeps files path place name config key (place.trace name c) := {
    twin := ⟨c, hlists, ⟨⟨rfl, rfl⟩, Nat.le_refl _⟩⟩
    located := ⟨spot, hdatabase, hkey⟩
    apart := ⟨seat, hproject, hapart⟩
    reached := place.reached_trace name (Database.attained_of_loadContents hlists.loads)
    tight := Trace.tight_trace place name c }
  obtain ⟨hends, hkept⟩ := hstart.attendEach hfor hroom
  obtain ⟨c', hlists', htwin⟩ := hkept.twin
  exact ⟨hends, c', hlists', htwin.contents.regions.symm, htwin.contents.mappings.symm⟩

/-- A project that is written is loaded again, from where it was written. -/
theorem PlacedProject.load_put {files : Files} {path key : String} {spot : Place}
    (hplace : files.locate path = .ok spot) (hkey : spot.path? = some key) (project : Project) :
    load (files.put key project.toJson.pretty) path = .ok ⟨project, Files.parent path⟩ := by
  have hread := (Json.roundTrips_of_node Project.decode_node (fun _ => rfl) project Json.pretty
    (List.mem_cons_of_mem _ List.mem_cons_self)).1
  rw [load, Files.read_put_self hplace hkey]
  dsimp only
  rw [hread]

/-! A trace of two programs, and a database that is not there yet. -/

def twoPrograms : Project where
  traces := .ofList [("run", ⟨"run.db", 0⟩)]
  programs := .ofList
    [("cat", ⟨"ram", [⟨".text", ⟨0x600000⟩, ⟨0x100⟩⟩]⟩),
     ("echo", ⟨"ram", [⟨".text", ⟨0x400000⟩, ⟨0x100⟩⟩]⟩)]
  settings := .standard

def twoProgramsPlace : PlacedProject := ⟨twoPrograms, Files.parent "tracemap.json"⟩

def twoProgramsFiles : Files := Files.empty.put "tracemap.json" twoPrograms.toJson.pretty

/-- Maps a program, tries it again, ends its region twice, and maps the other program later. -/
def twoProgramsCommands : List (List String) :=
  [["add-region", "Memory[/bin/echo 0x55550000]", "55550000", "555500ff"],
   ["map", "echo"],
   ["map", "echo"],
   ["destroy-region", "--snap", "4", "0"],
   ["destroy-region", "0"],
   ["--snap", "4", "add-region", "Memory[/bin/cat 0x66660000]", "66660000", "666600ff"],
   ["--snap", "4", "map", "cat"]]

/-- The attempt that is rejected takes a number in memory, and no process after it knows. -/
theorem twoPrograms_processes :
    let processes := invokeEach twoProgramsFiles twoProgramsCommands
    let session := attendEach twoProgramsPlace "run" (twoProgramsPlace.trace "run" .empty)
      twoProgramsCommands
    session.2.map Option.isSome = [false, false, true, false, true, false, false] ∧
    session.1.contents.mappings.keys = [⟨0⟩, ⟨2⟩] ∧
    processes.2.map Option.isSome = session.2.map Option.isSome ∧
      ∃ c', processes.1.Lists "tracemap.json" twoProgramsPlace "run" ⟨"run.db", 0⟩ c' ∧
        (twoProgramsPlace.trace "run" c').contents.regions = session.1.contents.regions ∧
        (twoProgramsPlace.trace "run" c').contents.mappings.values.map Mapping.bare =
          session.1.contents.mappings.values.map Mapping.bare := by
  have hvacant : Files.empty.locate "tracemap.json" = .ok (.vacant "tracemap.json") := by
    decide +kernel
  have hspare : Files.empty.locate "run.db" = .ok (.vacant "run.db") := by decide +kernel
  have hreachable := Files.reachable_of_locate hvacant rfl
  have hproject := Files.locate_put hreachable twoPrograms.toJson.pretty hvacant
  have hdatabase := Files.locate_put hreachable twoPrograms.toJson.pretty hspare
  have hload : PlacedProject.load twoProgramsFiles "tracemap.json" = .ok twoProgramsPlace :=
    PlacedProject.load_put hvacant rfl twoPrograms
  have hempty : Database.loadContents twoProgramsFiles "run.db" = .ok .empty := by
    rw [Database.loadContents, Database.load, Files.read, twoProgramsFiles, hdatabase]
    rfl
  have hpath : twoProgramsPlace.databasePath ⟨"run.db", 0⟩ = "run.db" := by decide +kernel
  have hlists : twoProgramsFiles.Lists "tracemap.json" twoProgramsPlace "run" ⟨"run.db", 0⟩
      .empty :=
    ⟨hload, by decide +kernel, hpath ▸ hempty⟩
  have herrors : (attendEach twoProgramsPlace "run" (twoProgramsPlace.trace "run" .empty)
      twoProgramsCommands).2 = [none, none, some (.rejected [⟨⟨0⟩, .overlap ⟨0⟩⟩]), none,
        some (.refused (.alreadyDestroyed ⟨0⟩)), none, none] := by decide +kernel
  have hnumbers : (attendEach twoProgramsPlace "run" (twoProgramsPlace.trace "run" .empty)
      twoProgramsCommands).1.contents.mappings.keys = [⟨0⟩, ⟨2⟩] := by decide +kernel
  have hfor : ∀ words ∈ twoProgramsCommands, ∀ asked ∈ Asked.ofWords? words,
      asked.IsFor "tracemap.json" twoProgramsPlace "run" := by decide +kernel
  have hroom : ∀ why, some why ∈ (attendEach twoProgramsPlace "run"
      (twoProgramsPlace.trace "run" .empty) twoProgramsCommands).2 → ¬ why.IsShortage := by
    intro why hwhy
    rw [herrors] at hwhy
    have hone : why = .rejected [⟨⟨0⟩, .overlap ⟨0⟩⟩] ∨ why = .refused (.alreadyDestroyed ⟨0⟩) := by
      simpa using hwhy
    rcases hone with rfl | rfl
    · rintro ⟨f, hf, hwant⟩
      rw [List.mem_singleton.mp hf] at hwant
      cases hwant
    · exact id
  intro processes session
  exact ⟨congrArg (List.map Option.isSome) herrors, hnumbers,
    processes_act_as_session hlists hproject (hpath ▸ hdatabase) rfl (by decide) hfor hroom⟩

end RegionAtlas
