/-!
# Descriptions of pipelines

What a user says about a pipeline, before any settings apply to it.
-/

namespace DaggerWorkflows

/-- A pipeline as described by its user. -/
structure PipelineSpec where
  /-- What is called, with its arguments. -/
  command : String
  /-- The module it belongs to; empty for the one at the root of the
  repository. -/
  module : Option String
  /-- The machine to run on, if it is not the usual one. -/
  runner : Option String
  /-- The secrets it may read. -/
  secrets : List String
  /-- The paths it needs; the whole repository if none are named. -/
  sparseCheckout : Option (List String)
deriving DecidableEq, Repr, Inhabited

namespace PipelineSpec

/-- A pipeline about which only its command is said. -/
def ofCommand (command : String) :
    PipelineSpec := ⟨command, none, none, [], none⟩

/-- Call a module. -/
def withModule (s : PipelineSpec) (module : String) : PipelineSpec :=
  { s with module := some module }

/-- Run on a machine. -/
def withRunner (s : PipelineSpec) (runner : String) : PipelineSpec :=
  { s with runner := some runner }

/-- Read one more secret. -/
def withSecret (s : PipelineSpec) (secret : String) : PipelineSpec :=
  { s with secrets := s.secrets ++ [secret] }

/-- Check out these paths only. -/
def withSparseCheckout (s : PipelineSpec) (paths : List String) :
    PipelineSpec :=
  { s with sparseCheckout := some paths }

end PipelineSpec

end DaggerWorkflows
