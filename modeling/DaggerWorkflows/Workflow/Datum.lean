import DaggerWorkflows.Datum.Json
import DaggerWorkflows.Datum.Yaml
import DaggerWorkflows.Workflow

/-!
# Workflows as data

What the file of a workflow says. Members that are absent, empty lists and
empty maps are left out, so that a file has only what somebody asked for.
-/

namespace DaggerWorkflows

namespace Datum

/-- A list of texts. -/
def texts (items : List String) : Datum := .list (items.map .text)

/-- A map of texts. -/
def textMap (map : SortedMap String) :
    Datum := .map (map.entries.map fun e => (e.1, .text e.2))

end Datum

/-- A member that is left out if it holds an empty list. -/
def textsMember (key : String) (items : List String) : List (String × Datum) :=
  if items.isEmpty then [] else [(key, .texts items)]

/-- A member that is left out if it holds an empty map. -/
def textMapMember (key : String) (map : SortedMap String) :
    List (String × Datum) :=
  if map.isEmpty then [] else [(key, .textMap map)]

/-- A member that is left out if it is absent. -/
def optionMember {α : Type} (key : String) (f : α → Datum) (x : Option α) :
    List (String × Datum) :=
  match x with
  | none => []
  | some a => [(key, f a)]

/-- Conditions on a push as data. -/
def PushConditions.datum (c : PushConditions) : Datum :=
  .map (textsMember "branches" c.branches ++ textsMember "tags" c.tags
    ++ textsMember "paths" c.paths)

/-- Conditions on a pull request as data. -/
def PullRequestConditions.datum (c : PullRequestConditions) : Datum :=
  .map (textsMember "branches" c.branches ++ textsMember "types" c.types
    ++ textsMember "paths" c.paths)

/-- An input as data. -/
def DispatchInput.datum (i : DispatchInput) : Datum :=
  .map (("description", .text i.description) :: optionMember "required" .flag
    i.required
    ++ optionMember "default" .text i.default ++
      optionMember "type" .text i.type)

/-- Conditions on a start by hand as data. -/
def DispatchConditions.datum (c : DispatchConditions) : Datum :=
  .map (if c.inputs.isEmpty then []
    else [("inputs", .map (c.inputs.entries.map fun e => (e.1, e.2.datum)))])

/-- Conditions on a comment as data. -/
def CommentConditions.datum (c : CommentConditions) : Datum :=
  .map (textsMember "types" c.types)

/-- The events of a workflow as data. -/
def WorkflowEvents.datum (events : WorkflowEvents) : Datum :=
  .map (optionMember "push" PushConditions.datum events.push
    ++ optionMember "pull_request" PullRequestConditions.datum
      events.pullRequest
    ++ optionMember "workflow_dispatch" DispatchConditions.datum events.dispatch
    ++ optionMember "issue_comment" CommentConditions.datum events.issueComment)

/-- The members of a step that say what it does. -/
def Action.members : Action → List (String × Datum)
  | .uses action inputs => ("uses", .text action) :: textMapMember "with" inputs
  | .run shell script => [("shell", .text shell), ("run", .text script)]

/-- A step as data. -/
def Step.datum (s : Step) : Datum :=
  .map (("name", .text s.name) :: optionMember "id" .text s.id ++
    s.action.members ++ textMapMember "env" s.env)

/-- A job as data. -/
def Job.datum (j : Job) : Datum :=
  .map ([("runs-on", .text j.runsOn), ("steps", .list (j.steps.map Step.datum))]
    ++ textMapMember "outputs" j.outputs)

/-- A workflow as data. -/
def Workflow.datum (w : Workflow) : Datum :=
  .map [("name", .text w.name), ("on", w.on.datum),
    ("jobs", .map (w.jobs.entries.map fun e => (e.1, e.2.datum)))]

/-- How workflows are written. -/
inductive OutputFormat where
  | yaml
  | json
deriving DecidableEq, Repr, Inhabited

namespace OutputFormat

/-- The end of the name of a file in this format. -/
def extension : OutputFormat → String
  | yaml => "yml"
  | json => "json"

/-- Data in this format. -/
def write : OutputFormat → Datum → String
  | yaml, d => d.yaml
  | json, d => d.json

/-- A workflow in this format. -/
def render (format : OutputFormat) (w : Workflow) :
    String := format.write w.datum

end OutputFormat

end DaggerWorkflows
