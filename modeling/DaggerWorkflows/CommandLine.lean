import DaggerWorkflows.CommandLine.Progress
import DaggerWorkflows.Container
import DaggerWorkflows.Settings

/-!
# The command line

A command line names a command and gives values to options. Options that all
commands share may stand before and after the name; after it they count more.
-/

namespace DaggerWorkflows

namespace CommandLine

/-- What the program is to do. -/
inductive Command where
  /-- Write all workflows below a directory, or on standard output. -/
  | generate (stem output : String) (toStdout : Bool)
  /-- Check all pipelines, so many at a time and within so many seconds. -/
  | check (repo : String) (concurrency : Nat) (timeout : Option Nat)
      (baseImage : String)
deriving DecidableEq, Repr

/-- What a command line says. -/
structure Invocation where
  command : Command
  manifest : String
  level : LogLevel
  logFormat : LogFormat
  logFilter : Option String
  settings : SettingsChoice
deriving DecidableEq, Repr

namespace Command

/-- Generating workflows, with these values of its options. -/
def generating (g : Given) : Command :=
  .generate ((g .stem).getD "") ((g .output).getD ".") (g .stdout).isSome

/-- Checking pipelines, with these values of its options. -/
def checking (g : Given) : Command :=
  .check ((g .repo).getD ".") ((g .concurrency).getD 1) (g .timeout)
    ((g .baseImage).getD ContainerRunner.defaultImage)

end Command

namespace Invocation

/-- The path of the manifest if none is given. -/
def defaultManifest : String := "gha.yaml"

/-- A command with these values of the options that all commands share. -/
def ofGiven (command : Command) (g : Given) : Invocation where
  command
  manifest := (g .manifest).getD defaultManifest
  level := (g .level).getD .warn
  logFormat := (g .logFormat).getD .compact
  logFilter := g .logFilter
  settings := {
    publicToken := g .publicToken
    daggerVersion := g .daggerVersion
    noTraces := (g .noTraces).isSome
    stopEngine := (g .stopEngine).isSome
    asJson := (g .asJson).isSome
    runner := g .runner }

/-- The end of a command line whose command is `help`, which may name a command
to help with. -/
def helpOn : List String → Stop
  | [] => .help
  | [word] =>
      if (CommandName.ofText? word).isSome then .help
        else .refused (.unknownCommand word)
  | word :: next :: _ =>
      .refused
        (.unknownCommand (if (CommandName.ofText? word).isSome then next
          else word))

/-- Read a command line whose command has been found, from the words before and
after it. -/
def ofScopes (env : Environment) (before : Progress) (scope : Scope)
    (command : Given → Command) (rest : List String) :
    Except Stop Invocation := do
  let (after, _) ← Progress.words scope rest .start
  let own ← after.finish env
  let outer ← before.finish env
  return ofGiven (command own) (own.orElse (outer.orElse env.given))

/-- Read a command line. -/
def ofWords (env : Environment) (words : List String) :
    Except Stop Invocation := do
  match ← Progress.words .program words .start with
  | (before, some (.generate, rest)) =>
      ofScopes env before .generate Command.generating rest
  | (before, some (.check, rest)) =>
      ofScopes env before .check Command.checking rest
  | (_, some (.help, rest)) => throw (helpOn rest)
  | (before, none) =>
      let given ← before.finish env
      let isEmpty := env.isSilent && Opt.shared.all fun o => (given o).isNone
      throw (.refused (if isEmpty then .nothing else .missingCommand))

end Invocation

end CommandLine

end DaggerWorkflows
