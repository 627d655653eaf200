import DaggerWorkflows.CommandLine
import DaggerWorkflows.Generate
import DaggerWorkflows.LogFilter
import DaggerWorkflows.Registry.Check

/-!
# The program

A run reads its command line, loads the manifest and then generates workflows
or checks pipelines. All that it does to the world is in its report.
-/

namespace DaggerWorkflows

/-- What a machine offers to the runs on it. -/
structure Host where
  /-- The container runner, for each image that containers may start from. -/
  runner : String → Runner
  stdout : Sink
  /-- The text that the command line library has for those who ask for help. -/
  helpText : String

/-- A machine whose runner looks at the image and the script, and where all can
be printed. -/
def Host.ofScripts (reply : String → String → RunnerReply) : Host :=
  ⟨fun image => .ofScripts (reply image), .unlimited, ""⟩

instance : Coe (String → String → RunnerReply) Host := ⟨.ofScripts⟩

/-- What a run finds around it. -/
structure World where
  environment : CommandLine.Environment
  files : FileSystem
  host : Host

/-- How a run ended. -/
structure Report where
  exitCode : Nat
  stdout : String
  /-- What people are told when a run fails. -/
  complaint : Option String
  /-- The events that are to be shown. -/
  events : List Event
  files : FileSystem

namespace Program

open CommandLine

/-- The exit code of a run that was interrupted: 128 and the number of the
signal. -/
def interrupted : Nat := 130

/-- How the program ends after an error. -/
def exitCode : Error → Nat
  | .cancelled => interrupted
  | e => e.exitCode

/-- How the program ends after a log filter that is not well formed. -/
def badFilter : Nat := 3

/-- The name and the version of the program, as they are shown. -/
def versionText : String := "gha 0.4.0\n"

/-- The report of a run that has left all files as they were. -/
def unchanged (world : World) (exitCode : Nat) (stdout : String)
    (complaint : Option String) : Report :=
  ⟨exitCode, stdout, complaint, [], world.files⟩

/-- The report of a run that has no command to run. It is no failure that a text
asked for cannot be printed. -/
def stopped (world : World) (stop : Stop) : Report :=
  match stop with
  | .help =>
      unchanged world stop.exitCode
        (world.host.stdout.write world.host.helpText).1 none
  | .version =>
      unchanged world stop.exitCode (world.host.stdout.write versionText).1 none
  | .refused r => unchanged world stop.exitCode "" (some r.message)

/-- The report of a command that ended with a result. -/
def report {α : Type} (files : FileSystem) (stdout : String) (r : Traced α) :
    Report :=
  match r.result with
  | .ok _ => ⟨0, stdout, none, r.events, files⟩
  | .error e => ⟨exitCode e, stdout, some e.message, r.events, files⟩

/-- Run a command with the registry of the manifest. -/
def runCommand (world : World) (r : Registry) : Command → Report
  | .generate stem _ true =>
      let (printed, done) := r.generateTo stem world.host.stdout
      report world.files printed done
  | .generate stem output false =>
      let (files, written) := r.generate stem output world.files
      report files "" written
  | .check repo concurrency timeout baseImage =>
      let outcome := r.checkWithin repo concurrency
        (world.host.runner baseImage) timeout ContainerRunner.name
      report world.files "" ⟨outcome.result, outcome.events⟩

/-- Load the manifest and run the command. -/
def runLoaded (world : World) (i : Invocation) : Report :=
  let loaded := Manifest.loadRegistry world.files i.manifest i.settings.settings
  match loaded.result with
  | .error _ => report world.files "" loaded
  | .ok registry =>
      let done := runCommand world registry i.command
      { done with events := loaded.events ++ done.events }

/-- Run what a command line says, unless its log filter is not well formed. -/
def runInvocation (world : World) (i : Invocation) : Report :=
  if (i.logFilter.map LogFilter.isWellFormed).getD true then
    let done := runLoaded world i
    { done with events := done.events.filter fun e => i.level.shows e.severity }
  else unchanged world badFilter "" (some "invalid log filter")

/-- Run the program with the words of its command line. -/
def run (world : World) (words : List String) : Report :=
  match Invocation.ofWords world.environment words with
  | .ok i => runInvocation world i
  | .error stop => stopped world stop

end Program

end DaggerWorkflows
