import DaggerWorkflows.Program

/-!
# The outer layer

The program is given the part of the world that it may look at, and what its
report says is carried out. No container runner can be reached from here, so
every check that needs one fails.
-/

namespace DaggerWorkflows.Main

/-- The path of a place. -/
def pathOf (place : List String) : String := "/" ++ String.intercalate "/" place

/-- The places that a path leads through, from the place it starts from. -/
def placesOf (origin : List String) (path : String) : List (List String) :=
  let start := if FilePath.isAbsolute path then [] else origin
  (FilePath.parts path).foldl (fun places name =>
    let here := places.getLast?.getD start
    places ++ [if name = "." then here else if name = ".." then here.dropLast
      else here ++ [name]]) [start]

/-- What stands at a place. -/
def look (place : List String) : IO (Option StorageEntry) := do
  try
    let _ ← (← IO.FS.realPath (pathOf place)).readDir
    return some .directory
  catch _ =>
    try return some (.file (← IO.FS.readBinFile (pathOf place)))
    catch _ => return none

/-- Add what stands at some places. -/
def observe (files : FileSystem) (places : List (List String)) :
    IO FileSystem :=
  places.foldlM (fun files place => do
    match ← look place with
    | some entry =>
        return if place.isEmpty then files else files.put place entry
    | none => return files) files

/-- The places in a directory. -/
def children (place : List String) : IO (List (List String)) := do
  try
    let entries ← (← IO.FS.realPath (pathOf place)).readDir
    return entries.toList.map fun e => place ++ [e.fileName]
  catch _ => return []

/-- The paths that a command line makes the program look at: the manifest and
the directory of the workflows. -/
def pathsOf (environment : CommandLine.Environment) (words : List String) :
    List String :=
  match CommandLine.Invocation.ofWords environment words with
  | .error _ => []
  | .ok i =>
      match i.command with
      | .generate _ output false =>
          [i.manifest, FilePath.join output ".github/workflows"]
      | _ => [i.manifest]

/-- The part of the file system that the program looks at. -/
def filesFor (environment : CommandLine.Environment) (words : List String) :
    IO FileSystem := do
  let origin := FilePath.parts (← IO.FS.realPath ".").toString
  let places := (pathsOf environment words).map (placesOf origin)
  let files ← observe ⟨[], origin⟩
    (placesOf origin "." ++ placesOf [] (pathOf origin))
  let files ← observe files places.flatten
  let workflows := (places[1]?.bind (·.getLast?)).toList
  observe files (← workflows.mapM children).flatten

/-- Make the changes that lead from one file system to another. -/
def carryOut (before after : FileSystem) : IO Unit := do
  for (place, entry) in after.entries do
    unless before.get? place == some entry do
      match entry with
      | .directory => IO.FS.createDirAll (pathOf place)
      | .file contents => IO.FS.writeBinFile (pathOf place) contents

/-- The environment variables that stand in for options. -/
def environment : IO CommandLine.Environment := do
  let values ← (CommandLine.Opt.shared.filterMap (·.environmentName?)).mapM
    fun name => do
    return (name, ← IO.getEnv name)
  return fun name => (values.lookup name).join

/-- The answer of a runner that cannot be reached. -/
def unreachable : RunnerReply :=
  ⟨0, .error (.runner "no container engine can be reached")⟩

/-- What is shown when help is asked for. -/
def usage : String := "Usage: gha [OPTIONS] <COMMAND>\n"

end DaggerWorkflows.Main

open DaggerWorkflows DaggerWorkflows.Main in
/-- Run the program. -/
def main (words : List String) : IO UInt32 := do
  let environment ← environment
  let files ← filesFor environment words
  let host : Host := ⟨fun _ => ⟨fun _ _ => unreachable⟩, .unlimited, usage⟩
  let report := Program.run ⟨environment, files, host⟩ words
  for event in report.events do
    IO.eprintln event.message
  if let some complaint := report.complaint then
    IO.eprintln ("error: " ++ complaint)
  try
    carryOut files report.files
    IO.print report.stdout
    return report.exitCode.toUInt32
  catch e =>
    IO.eprintln ("error: " ++ toString e)
    return 3
