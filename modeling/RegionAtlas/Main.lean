/-
  The program on the command line.

  It finds the project and the database that the words ask for, runs on those, writes the files
  that are not as they were, and prints.
-/
import RegionAtlas.Command.Invoke

open RegionAtlas

/-- Notes the file at a path, if there is one. -/
def noteFile (files : Files) (path : String) : IO Files := do
  try
    let bytes ← IO.FS.readBinFile path
    return files.note path (some (.ofBytes bytes))
  catch
    | .noFileOrDirectory .. => return files.note path none
    | e => throw e

/-- The files that a list of words is about. -/
def findFiles (words : List String) : IO Files := do
  match Asked.ofWords? words with
  | some (.command request) =>
    let files ← noteFile .empty request.projectPath
    match request.databasePath? files with
    | some path => noteFile files path
    | none => return files
  | _ => return .empty

def main (words : List String) : IO UInt32 := do
  let files ← findFiles words
  let run := invoke files words
  for (path, text) in run.files.changedSince files do
    IO.FS.writeFile path text
  for line in run.printed do
    IO.println line
  for line in run.noted do
    IO.eprintln line
  match run.error with
  | none => return 0
  | some why =>
    IO.eprintln ("Error: " ++ why.message?.getD "the arguments or files cannot be understood")
    return 1
