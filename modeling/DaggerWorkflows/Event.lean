import DaggerWorkflows.Text.Quoted

/-!
# Events

Things worth telling about while the program works. An event is a cause like an
error; what a log shows of it, its severity, its message and its fields, is
said here alone.
-/

namespace DaggerWorkflows

/-- How much an event matters. -/
inductive Severity where
  | warning
  | information
  | detail
deriving DecidableEq, Repr

/-- Something worth telling about. -/
inductive Event where
  | secretRejected (name : String)
  /-- A variable was set twice and keeps its first value. -/
  | variableKept (key kept dropped : String)
  | pipelineCompiled (name : String) (steps : Nat)
  | workflowRendered (kind path : String)
  | treeGenerated (files : Nat)
  | pipelineChecking (kind : String) (index : Nat) (command : String)
  | scriptRunning (script : Option String)
  | pipelinePassed (command : String)
  | allPassed (pipelines : Nat) (runner : String)
  | workflowWritten (path : String)
  | workflowsWritten (files : Nat)
  | manifestLoaded (path : String) (triggers : Nat)
  | manifestEmpty (path : String)
deriving DecidableEq, Repr

namespace Severity

/-- Whether a log that shows events down to `least` shows one that matters this
much. -/
def isShown (s least : Severity) : Bool :=
  match s, least with
  | warning, _ => true
  | information, warning => false
  | information, _ => true
  | detail, detail => true
  | detail, _ => false

end Severity

/-- What a field of an event holds. -/
inductive FieldValue where
  | text (text : String)
  | count (count : Nat)
deriving DecidableEq, Repr

/-- An optional text as a field shows it. -/
def optionField : Option String → String
  | none => "None"
  | some s => "Some(" ++ Text.quote s ++ ")"

namespace Event

/-- How much the event matters. -/
def severity : Event → Severity
  | variableKept _ _ _ | manifestEmpty _ => .warning
  | pipelineChecking _ _ _ | pipelinePassed _ | allPassed _ _ | workflowWritten
      _
  | workflowsWritten _ => .information
  | _ => .detail

/-- What the event says. -/
def message : Event → String
  | secretRejected _ => "Rejected secret name"
  | variableKept _ _ _ =>
      "Environment variable already set, keeping the first value"
  | pipelineCompiled _ _ => "Compiled pipeline"
  | workflowRendered _ _ => "Rendered workflow"
  | treeGenerated _ => "Generated workflow tree"
  | pipelineChecking _ _ _ => "Checking pipeline"
  | scriptRunning _ => "Running pre-flight check"
  | pipelinePassed _ => "Pipeline check passed"
  | allPassed _ _ => "All pipelines passed"
  | workflowWritten _ => "Wrote workflow"
  | workflowsWritten _ => "Workflows written"
  | manifestLoaded _ _ => "Loaded manifest"
  | manifestEmpty _ => "Manifest declares no triggers"

/-- What the event is about. -/
def fields : Event → List (String × FieldValue)
  | secretRejected name => [("secret", .text name)]
  | variableKept key kept dropped =>
      [("key", .text key), ("kept", .text kept), ("dropped", .text dropped)]
  | pipelineCompiled name steps =>
      [("pipeline", .text name), ("steps", .count steps)]
  | workflowRendered kind path => [("kind", .text kind), ("path", .text path)]
  | treeGenerated files => [("files", .count files)]
  | pipelineChecking kind index command =>
      [("kind", .text kind), ("index", .count index),
        ("pipeline", .text command)]
  | scriptRunning script => [("script", .text (optionField script))]
  | pipelinePassed command => [("pipeline", .text command)]
  | allPassed pipelines runner =>
      [("pipelines", .count pipelines), ("runner", .text runner)]
  | workflowWritten path => [("path", .text path)]
  | workflowsWritten files => [("files", .count files)]
  | manifestLoaded path triggers =>
      [("path", .text path), ("triggers", .count triggers)]
  | manifestEmpty path => [("manifest", .text path)]

end Event

end DaggerWorkflows
