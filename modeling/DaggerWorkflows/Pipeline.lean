import DaggerWorkflows.Error
import DaggerWorkflows.Pipeline.Spec
import DaggerWorkflows.Settings
import DaggerWorkflows.Shell
import DaggerWorkflows.Text.Blank

/-!
# Pipelines

A pipeline is a description to which the settings have been applied. That its
command says something is part of the type.
-/

namespace DaggerWorkflows

/-- A pipeline that can be checked and compiled. -/
structure Pipeline where
  command : String
  /-- The module to call, if it is not the one at the root of the repository. -/
  module : Option String
  secrets : List String
  sparseCheckout : Option (List String)
  /-- The settings, with the runner of this pipeline. -/
  settings : Settings
  notBlank : Text.isBlankText command = false
deriving DecidableEq, Repr

namespace Pipeline

/-- The pipeline of a description. A command of nothing but blanks is refused,
and a module without a name is none. -/
def ofSpec (spec : PipelineSpec) (settings : Settings) :
    Except Error Pipeline :=
  if h : Text.isBlankText spec.command then .error .emptyCommand
  else .ok {
    command := spec.command
    module := spec.module.filter (!·.isEmpty)
    secrets := spec.secrets
    sparseCheckout := spec.sparseCheckout
    settings := settings.forRunner spec.runner
    notBlank := by simpa using h }

/-- The first word of the command. -/
def name (p : Pipeline) : String := Text.firstWord p.command

/-- The arguments that choose the module. -/
def moduleArgument (p : Pipeline) : String :=
  match p.module with
  | none => ""
  | some m => "-m " ++ Shell.quote m ++ " "

/-- The call to be checked: the one that the workflow will make, asked for help
only. -/
def checkScript (p : Pipeline) : String :=
  "dagger call " ++ p.moduleArgument ++ p.command ++ " --help"

end Pipeline

end DaggerWorkflows
