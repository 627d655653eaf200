import DaggerWorkflows.Error

/-!
# Containers

A command is run in a fresh container by a runner. A request says what the
container has and what it runs; an outcome says how that ended.
-/

namespace DaggerWorkflows

/-- A directory of the host that a container has. -/
structure Mount where
  source : String
  target : String
deriving DecidableEq, Repr

/-- A command to run in a fresh container. -/
structure ExecRequest where
  packages : List String
  mounts : List Mount
  workdir : String
  /-- The command, the program first. -/
  args : List String
  /-- Whether the command may use the engine that runs the container. -/
  privilegedNesting : Bool
deriving DecidableEq, Repr

namespace ExecRequest

/-- Run a script with a shell. -/
def bash (script : String) :
    ExecRequest := ⟨["bash"], [], "/", ["bash", "-c", script], false⟩

/-- Install one more package. -/
def withPackage (r : ExecRequest) (package : String) : ExecRequest :=
  { r with packages := r.packages ++ [package] }

/-- Mount one more directory. -/
def withMount (r : ExecRequest) (source target : String) : ExecRequest :=
  { r with mounts := r.mounts ++ [⟨source, target⟩] }

/-- Run in a directory. -/
def withWorkdir (r : ExecRequest) (workdir : String) :
    ExecRequest := { r with workdir }

/-- Let the command use the engine. -/
def withNesting (r : ExecRequest) :
    ExecRequest := { r with privilegedNesting := true }

/-- The script, if that is what the command runs. -/
def script? (r : ExecRequest) : Option String :=
  match r.args with
  | ["bash", "-c", script] => some script
  | _ => none

end ExecRequest

/-- How a command ended. -/
structure ExecOutcome where
  exitCode : Int
  stdout : String
  stderr : String
deriving DecidableEq, Repr

namespace ExecOutcome

/-- Whether the command succeeded. -/
def isSuccess (o : ExecOutcome) : Bool := o.exitCode == 0

end ExecOutcome

/-- What a container runner answers to a request. -/
abbrev RunnerAnswer := Except Error ExecOutcome

namespace ContainerRunner

/-- The name of the runner that uses the build engine. -/
def name : String := "dagger"

/-- The image that containers start from unless another one is named. -/
def defaultImage : String := "cgr.dev/chainguard/wolfi-base:latest"

/-- What a runner refuses before it starts a container. -/
def refusal? (r : ExecRequest) : Option Error :=
  if r.args.isEmpty then some (.runner "container command must not be empty")
    else none

end ContainerRunner

end DaggerWorkflows
