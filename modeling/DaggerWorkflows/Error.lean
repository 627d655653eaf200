/-!
# Errors

What can go wrong. An error holds its cause; the wording is in `Error.message`
alone. Errors caused by what the user wrote are told apart from those caused by
the environment, since the program ends with different exit codes.
-/

namespace DaggerWorkflows

/-- Why an operation failed. -/
inductive Error where
  /-- A secret that no workflow can refer to. -/
  | invalidSecretName (name : String)
  /-- A pipeline whose dry run failed. -/
  | pipelineInvalid (pipeline reason : String)
  | scriptUnavailable (name : String)
  /-- A pipeline without a command. -/
  | emptyCommand
  /-- Two workflows with one path. -/
  | duplicateFile (path : String)
  | serialization (text : String)
  | manifest (path message : String)
  /-- The container runner itself failed. -/
  | runner (text : String)
  | cancelled
  | timeout (seconds : Nat)
  /-- A file could not be read or written. -/
  | storage (text : String)
deriving DecidableEq, Repr

namespace Error

/-- The error as shown to people. -/
def message : Error → String
  | invalidSecretName name =>
      s!"invalid secret name: '{name}' must contain only alphanumeric characters and underscores"
  | pipelineInvalid pipeline reason =>
      s!"pipeline '{pipeline}' is invalid: {reason}"
  | scriptUnavailable name => s!"embedded script '{name}' is unavailable"
  | emptyCommand => "pipeline command must not be empty"
  | duplicateFile path => s!"duplicate workflow file: {path}"
  | serialization text => s!"serialization failed: {text}"
  | manifest path message => s!"invalid manifest {path}: {message}"
  | runner text => s!"container runner failed: {text}"
  | cancelled => "operation cancelled"
  | timeout seconds => s!"timeout after {seconds} seconds"
  | storage text => s!"IO error: {text}"

/-- A name for the kind of error that stays the same when the wording
changes. -/
def code : Error → String
  | invalidSecretName _ => "gha::secrets::invalid_name"
  | pipelineInvalid _ _ => "gha::pipeline::invalid"
  | scriptUnavailable _ => "gha::scripts::unavailable"
  | emptyCommand => "gha::pipeline::empty_command"
  | duplicateFile _ => "gha::config::duplicate_file"
  | serialization _ => "gha::config::serialization"
  | manifest _ _ => "gha::manifest::invalid"
  | runner _ => "gha::runner::failed"
  | cancelled => "gha::cancelled"
  | timeout _ => "gha::timeout"
  | storage _ => "gha::io"

/-- Advice that goes with some errors. -/
def help? : Error → Option String
  | invalidSecretName _ =>
    some "GitHub secret names are restricted to [A-Za-z0-9_]"
  | pipelineInvalid _ _ =>
      some "Run the same 'dagger call ... --help' locally to reproduce"
  | scriptUnavailable _ => some "This is a packaging defect, please report it"
  | _ => none

/-- Whether the error is caused by what the user wrote. -/
def isUserError : Error → Bool
  | invalidSecretName _ | pipelineInvalid _ _ | emptyCommand | duplicateFile _
  | manifest _ _ => true
  | _ => false

/-- How the program ends after the error: two for what the user wrote, three for
the rest. -/
def exitCode (e : Error) : Nat := if e.isUserError then 2 else 3

end Error

end DaggerWorkflows
