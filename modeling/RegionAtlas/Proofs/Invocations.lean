/-
  Invocations — what a run of the program does to the files.

  A run reads files, performs a command in memory, and writes at most one file, last of all.  So it
  is enough to know how a request can end, and there are three ways (`Request.Ends`):

    * with an error, wherever it comes from;
    * with something shown;
    * with a trace to save, and then the file that the database path leads to is written.

  Which of the last two it is, is decided by the command (`perform_of_looks`, `ending_of_edits`).
  What is written is loaded again as the contents that the command left (`loadContents_put`), since
  the text of a database is read back and what is saved of a trace is accepted.
-/
import RegionAtlas.Command.Invoke
import RegionAtlas.Proofs.Commands
import RegionAtlas.Proofs.Paths
import RegionAtlas.Proofs.Reload
import RegionAtlas.Proofs.RoundTrip

namespace RegionAtlas

/-! ## What is loaded -/

/-- **A project lists a trace, and its database loads.** -/
structure Files.Lists (files : Files) (path : String) (place : PlacedProject) (name : String)
    (config : TraceConfig) (c : Contents) : Prop where
  project : PlacedProject.load files path = .ok place
  listed : place.project.traces.find? name = some config
  loads : Database.loadContents files (place.databasePath config) = .ok c

/-- The trace that a command is given, which starts from what the database describes. -/
def PlacedProject.trace (p : PlacedProject) (name : String) (c : Contents) : Trace :=
  .ofContents ⟨1⟩ name c p.project.settings.undoLimit.toNat

theorem Database.attained_of_loadContents {files : Files} {path : String} {c : Contents}
    (h : loadContents files path = .ok c) : c.Attained := by
  obtain ⟨db, -, hread⟩ := exists_of_bind_eq_ok h
  exact .loaded (of_mapError_eq_ok hread)

section Opening

variable {files : Files} {r : Request} {place : PlacedProject} {name : String}
  {config : TraceConfig} {c : Contents}

theorem PlacedProject.reached_trace (p : PlacedProject) (name : String) (hc : c.Attained) :
    (p.trace name c).Reached ⟨1⟩ := Trace.reached_ofContents hc _ _ _

/-- **A request opens the trace that it is for**, once its snap is understood. -/
theorem Request.open_of_lists (h : files.Lists r.projectPath place name config c)
    (hname : chooseTrace place.project r.trace = .ok name) :
    r.open files = (chooseSnap place.project name r.snap).map fun snap =>
      ⟨place, name, ⟨place.project, snap⟩, place.trace name c⟩ := by
  unfold Request.open
  rw [h.project]
  show (chooseTrace place.project r.trace).bind _ = _
  rw [hname]
  show (chooseSnap place.project name r.snap).bind _ = _
  cases chooseSnap place.project name r.snap with
  | error why => rfl
  | ok snap =>
    show ((Session.openListed _ _ files place name).mapError CommandError.session).bind _ = _
    rw [Session.openListed]
    dsimp only [Session.trace?, Session.start, Table.find?_empty]
    rw [h.listed]
    dsimp only
    rw [h.loads]
    rfl

theorem Session.lists_of_openListed {opened : Opened} {settings : Settings}
    (hproject : PlacedProject.load files r.projectPath = .ok place)
    (h : (Session.start .empty settings).2.openListed (Session.start .empty settings).1 files place
      name = .ok opened) :
    ∃ config c, files.Lists r.projectPath place name config c := by
  rw [openListed] at h
  dsimp only [Session.trace?, Session.start, Table.find?_empty] at h
  cases hlisted : place.project.traces.find? name with
  | none =>
    rw [hlisted] at h
    cases h
  | some config =>
    rw [hlisted] at h
    dsimp only at h
    cases hloads : Database.loadContents files (place.databasePath config) with
    | error why =>
      rw [hloads] at h
      cases h
    | ok c => exact ⟨config, c, hproject, hlisted, hloads⟩

/-- **What is opened is listed**: no request opens anything else. -/
theorem Request.lists_of_open {loaded : Loaded} (h : r.open files = .ok loaded) :
    ∃ place name config c snap, files.Lists r.projectPath place name config c ∧
      chooseTrace place.project r.trace = .ok name ∧
      chooseSnap place.project name r.snap = .ok snap ∧
      loaded = ⟨place, name, ⟨place.project, snap⟩, place.trace name c⟩ := by
  have hopen := h
  unfold Request.open at h
  obtain ⟨place, hplace, h⟩ := exists_of_bind_eq_ok h
  obtain ⟨name, hname, h⟩ := exists_of_bind_eq_ok h
  obtain ⟨snap, hsnap, h⟩ := exists_of_bind_eq_ok h
  obtain ⟨opened, hopened, -⟩ := exists_of_bind_eq_ok h
  obtain ⟨config, c, hlists⟩ :=
    Session.lists_of_openListed (of_mapError_eq_ok hplace) (of_mapError_eq_ok hopened)
  rw [Request.open_of_lists hlists hname, hsnap] at hopen
  cases hopen
  exact ⟨place, name, config, c, snap, hlists, hname, hsnap, rfl⟩

end Opening

/-! ## What is saved -/

/-- The text that a database is written as is read back, but for the owners of regions. -/
theorem Database.read_pretty (db : Database) :
    read (.ofText db.toJson.pretty) = .ok (db.ownedBy unownedId) :=
  (Json.roundTrips_of_node Database.decode_node (fun db => db.toJson_ownedBy unownedId) db
    Json.pretty (List.mem_cons_of_mem _ List.mem_cons_self)).1

theorem Contents.Attained.ownedBy {c : Contents} (hc : c.Attained) (id : TraceId) :
    (c.ownedBy id).Attained := .copied id "" 0 [] hc

/-- **What is saved of contents is loaded again**, from where it was saved. -/
theorem Database.loadContents_put {files : Files} {spot : Place} {path key : String} {c : Contents}
    (hc : c.Attained) (hplace : files.locate path = .ok spot) (hkey : spot.path? = some key) :
    loadContents (files.put key (ofContents c).toJson.pretty) path = .ok (c.ownedBy unownedId) := by
  rw [loadContents, load, Files.read_put_self hplace hkey]
  dsimp only
  rw [read_pretty, ← ofContents_ownedBy]
  show ((ofContents (c.ownedBy unownedId)).toContents.mapError DatabaseError.fault) = _
  rw [toContents_ofContents (hc.ownedBy unownedId)]
  rfl

/-- The trace as a request leaves it, in memory. -/
def Request.left (r : Request) (place : PlacedProject) (name : String) (c : Contents)
    (snap : Snap) : Trace :=
  (r.action.perform ⟨place.project, snap⟩ (place.trace name c)).trace

/-- **A request saves**: the text of the trace as the command left it is put where the database path
of that trace leads. -/
structure Request.Saves (r : Request) (files after : Files) (place : PlacedProject) (name : String)
    (config : TraceConfig) (c : Contents) (snap : Snap) (key : String) : Prop where
  lists : files.Lists r.projectPath place name config c
  traceName : chooseTrace place.project r.trace = .ok name
  traceSnap : chooseSnap place.project name r.snap = .ok snap
  located : ∃ spot, files.locate (place.databasePath config) = .ok spot ∧ spot.path? = some key
  written : after = files.put key (r.left place name c snap).savedText

/-! ## How a request ends -/

/-- **The ways in which a request ends.** -/
inductive Request.Ends (r : Request) (files : Files) : Run → Prop where
  | failed {printed noted : List String} (why : CommandError) :
      Ends r files ⟨files, printed, noted, some why⟩
  | looked {printed noted : List String} (looks : r.action.edits = false) :
      Ends r files ⟨files, printed, noted, none⟩
  | saved {printed noted : List String} {after : Files} {place : PlacedProject} {name : String}
      {config : TraceConfig} {c : Contents} {snap : Snap} {key : String}
      (edits : r.action.edits = true)
      (saves : r.Saves files after place name config c snap key) :
      Ends r files ⟨after, printed, noted, none⟩

theorem Request.ends (r : Request) (files : Files) : r.Ends files (r.run files) := by
  rw [run]
  cases hopen : r.open files with
  | error why => exact .failed why
  | ok loaded =>
    obtain ⟨place, name, config, c, snap, hlists, hname, hsnap, rfl⟩ := lists_of_open hopen
    have hreached := place.reached_trace name (Database.attained_of_loadContents hlists.loads)
    dsimp only
    cases hending : (r.action.perform ⟨place.project, snap⟩ (place.trace name c)).ending with
    | error why => exact .failed why
    | ok ending =>
      cases hedits : r.action.edits with
      | false =>
        obtain rfl := (perform_of_looks hedits _ _).2 ending hending
        exact .looked hedits
      | true =>
        obtain ⟨line, rfl⟩ := hreached.ending_of_edits hedits hending
        dsimp only
        cases hsaved : Loaded.save ⟨place, name, ⟨place.project, snap⟩, place.trace name c⟩
            (r.action.perform ⟨place.project, snap⟩ (place.trace name c)).trace files with
        | error why => exact .failed why
        | ok after =>
          rw [Loaded.save, hlists.listed] at hsaved
          have hwritten := of_mapError_eq_ok (of_mapError_eq_ok hsaved)
          obtain ⟨spot, key, hlocated, hkey, hafter⟩ := Files.write_eq_ok.mp hwritten
          exact .saved hedits ⟨hlists, hname, hsnap, ⟨spot, hlocated, hkey⟩, hafter⟩

/-- A run for a request ends as the request does. -/
theorem Request.ends_invoke {files : Files} {words : List String} {r : Request}
    (h : Asked.ofWords? words = some (.command r)) : r.Ends files (invoke files words) := by
  rw [invoke, h]
  exact r.ends files

/-- A run that no command is asked of changes nothing. -/
theorem files_invoke_of_idle (files : Files) {words : List String}
    (h : ∀ r, Asked.ofWords? words ≠ some (.command r)) : (invoke files words).files = files := by
  rw [invoke]
  split
  · rfl
  · rfl
  · rfl
  · rfl
  · next r hr => exact absurd hr (h r)

/-- **What has changed after a run** is the database of the trace it is for, and nothing else has:
the outer layer, which writes what has changed, writes that text alone, and whoever reads its bytes
finds what the run has left there. -/
theorem saves_of_mem_changedSince {files : Files} {words : List String} {path text : String}
    (h : (path, text) ∈ (invoke files words).files.changedSince files) :
    ∃ r place name config c snap, Asked.ofWords? words = some (.command r) ∧
      r.Saves files (invoke files words).files place name config c snap path ∧
      text = (r.left place name c snap).savedText ∧
      (invoke files words).files.sources.find? path = some (.ofBytes text.toUTF8) := by
  by_cases hasked : ∃ r, Asked.ofWords? words = some (.command r)
  · obtain ⟨r, hr⟩ := hasked
    refine ⟨r, ?_⟩
    have hends : r.Ends files (invoke files words) := r.ends_invoke hr
    generalize invoke files words = run at h hends ⊢
    cases hends with
    | failed why =>
      rw [Files.changedSince_self] at h
      cases h
    | looked looks =>
      rw [Files.changedSince_self] at h
      cases h
    | @saved _ _ after place name config c snap key _ hsaves =>
      rw [hsaves.written] at h
      obtain ⟨rfl, rfl, -⟩ := Files.mem_changedSince_put.mp h
      have hfound : after.sources.find? path =
          some (.ofBytes (r.left place name c snap).savedText.toUTF8) := by
        rw [hsaves.written, Files.find?_put, if_pos rfl, Json.Source.ofBytes_toUTF8]
      exact ⟨place, name, config, c, snap, hr, hsaves, rfl, hfound⟩
  · have hsame := files_invoke_of_idle files fun r hr => hasked ⟨r, hr⟩
    rw [hsame, Files.changedSince_self] at h
    cases h

/-- **Runs of the program spare the files.**  Whatever files there are and whatever is asked:

  * a run that ends with an error leaves every file as it was;
  * so does one that asks for no command, or for one that only looks;
  * one that edits and succeeds has changed at most one file, the database of the trace it is for,
    and that is now the text of the trace as the command left it. -/
theorem invocations_spare_files (files : Files) (words : List String) :
    let run := invoke files words
    (∀ why, run.error = some why → run.files = files) ∧
    ((∀ r, Asked.ofWords? words ≠ some (.command r)) → run.files = files) ∧
    (∀ r, Asked.ofWords? words = some (.command r) → r.action.edits = false →
      run.files = files) ∧
    ∀ r, Asked.ofWords? words = some (.command r) → r.action.edits = true → run.error = none →
      ∃ place name config c snap key, r.Saves files run.files place name config c snap key ∧
        (∀ other, other ≠ key → run.files.sources.find? other = files.sources.find? other) ∧
        run.files.directories = files.directories ∧
        run.files.read (place.databasePath config) = .ok (.ofText
          (Database.ofContents (r.left place name c snap).contents).toJson.pretty) := by
  intro run
  have hcommand : ∀ r, Asked.ofWords? words = some (.command r) → r.Ends files run :=
    fun r hr => r.ends_invoke hr
  have hidle : (∀ r, Asked.ofWords? words ≠ some (.command r)) → run.files = files :=
    files_invoke_of_idle files
  clear_value run
  refine ⟨fun why herror => ?_, hidle, fun r hr hlooks => ?_, fun r hr hedits hdone => ?_⟩
  · by_cases hasked : ∃ r, Asked.ofWords? words = some (.command r)
    · obtain ⟨r, hr⟩ := hasked
      cases hcommand r hr with
      | failed why => rfl
      | looked _ => rfl
      | saved _ _ => cases herror
    · exact hidle fun r hr => hasked ⟨r, hr⟩
  · cases hcommand r hr with
    | failed why => rfl
    | looked _ => rfl
    | saved hedits _ =>
      rw [hlooks] at hedits
      cases hedits
  · cases hcommand r hr with
    | failed why => cases hdone
    | looked hlooks =>
      rw [hlooks] at hedits
      cases hedits
    | @saved _ _ after place name config c snap key _ hsaves =>
      obtain ⟨spot, hlocated, hkey⟩ := hsaves.located
      refine ⟨place, name, config, c, snap, key, hsaves, ?_⟩
      rw [hsaves.written]
      refine ⟨fun other hne => ?_, rfl, Files.read_put_self hlocated hkey _⟩
      rw [Files.find?_put, if_neg hne]

/-- A project with a trace whose database is not there yet, and a file that is none of its and ends
in a byte that belongs to no character. -/
def bootFiles : Files where
  sources := .ofList
    [("tracemap.json", .ofText "\x7b\"traces\": \x7b\"boot\": \x7b\"snap\": 4\x7d\x7d\x7d"),
     ("notes", [some 'k', none])]
  directories := []

def bootWords : List String := ["add-region", "code", "1000", "1fff"]

def bootRequest : Request := ⟨none, none, none, .addRegion "code" "1000" "1fff" none⟩

/-- A region is added and saved, and one that is not there is not destroyed. -/
theorem boot_spared :
    ((invoke bootFiles bootWords).error = none ∧ ∃ place name config c snap key,
      bootRequest.Saves bootFiles (invoke bootFiles bootWords).files place name config c snap key) ∧
    (invoke bootFiles ["destroy-region", "#7"]).error = some (.refused (.unknownRegion ⟨7⟩)) ∧
      (invoke bootFiles ["destroy-region", "#7"]).files = bootFiles := by
  have hasked : Asked.ofWords? bootWords = some (.command bootRequest) := by decide +kernel
  have hedits : bootRequest.action.edits = true := by decide
  have hdone : (invoke bootFiles bootWords).error = none := by decide +kernel
  have hrefused : (invoke bootFiles ["destroy-region", "#7"]).error =
      some (.refused (.unknownRegion ⟨7⟩)) := by decide +kernel
  have hsaves := (invocations_spare_files bootFiles bootWords).2.2.2 bootRequest hasked hedits hdone
  obtain ⟨place, name, config, c, snap, key, hsaved, -⟩ := hsaves
  have hspared := (invocations_spare_files bootFiles ["destroy-region", "#7"]).1 _ hrefused
  exact ⟨⟨hdone, place, name, config, c, snap, key, hsaved⟩, hrefused, hspared⟩

end RegionAtlas
