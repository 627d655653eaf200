import DaggerWorkflows.OrderedMap
import DaggerWorkflows.Workflow.Conditions

/-!
# Workflows

A workflow says which events start it and what its jobs do. A job is a list of
steps, each of which either uses an action or runs a script, never both.
-/

namespace DaggerWorkflows

/-- The events that start a workflow, with their conditions. -/
structure WorkflowEvents where
  push : Option PushConditions
  pullRequest : Option PullRequestConditions
  dispatch : Option DispatchConditions
  issueComment : Option CommentConditions
deriving DecidableEq, Repr, Inhabited

namespace WorkflowEvents

/-- No event. -/
def none : WorkflowEvents := ⟨.none, .none, .none, .none⟩

/-- Whether no event starts the workflow. -/
def isEmpty (events : WorkflowEvents) : Bool :=
  events.push.isNone && events.pullRequest.isNone && events.dispatch.isNone
    && events.issueComment.isNone

/-- One event. -/
def only : Conditions → WorkflowEvents
  | .push c => { none with push := some c }
  | .pullRequest c => { none with pullRequest := some c }
  | .dispatch c => { none with dispatch := some c }
  | .issueComment c => { none with issueComment := some c }

end WorkflowEvents

/-- What a step does. -/
inductive Action where
  /-- Use an action that others have written, with inputs. -/
  | uses (action : String) (inputs : SortedMap String)
  /-- Run a script with a shell. -/
  | run (shell script : String)
deriving DecidableEq, Repr

/-- A step of a job. -/
structure Step where
  name : String
  /-- The name that other steps refer to it by. -/
  id : Option String
  action : Action
  env : SortedMap String
deriving DecidableEq, Repr

namespace Step

/-- A step that uses an action. -/
def uses (name action : String) :
    Step := ⟨name, none, .uses action .empty, .empty⟩

/-- A step that runs a script. -/
def run (name shell script : String) :
    Step := ⟨name, none, .run shell script, .empty⟩

/-- Name the step for other steps. -/
def withId (s : Step) (id : String) : Step := { s with id := some id }

/-- Give the action an input; a script has none. -/
def withInput (s : Step) (key value : String) : Step :=
  match s.action with
  | .uses action inputs =>
      { s with action := .uses action (inputs.insert key value) }
  | .run _ _ => s

/-- Replace the environment. -/
def withEnv (s : Step) (env : SortedMap String) : Step := { s with env }

/-- The inputs of the action. -/
def inputs? (s : Step) : Option (SortedMap String) :=
  match s.action with
  | .uses _ inputs => some inputs
  | .run _ _ => none

/-- The script. -/
def script? (s : Step) : Option String :=
  match s.action with
  | .uses _ _ => none
  | .run _ script => some script

end Step

/-- A job of a workflow. -/
structure Job where
  /-- The label of the machine that it runs on. -/
  runsOn : String
  steps : List Step
  outputs : SortedMap String
deriving DecidableEq, Repr

/-- A workflow. -/
structure Workflow where
  name : String
  on : WorkflowEvents
  jobs : OrderedMap Job
deriving DecidableEq, Repr

end DaggerWorkflows
