import DaggerWorkflows.FileTree
import DaggerWorkflows.Pipeline.Compile
import DaggerWorkflows.Workflow.Datum

/-!
# Triggers

A trigger is a pipeline and the event that starts it. It gives one workflow,
which is the compiled pipeline with that event, and one file.
-/

namespace DaggerWorkflows

/-- The directory that workflows are kept in. -/
def workflowsDirectory : String := ".github/workflows"

/-- The name of the file of a workflow: the `index`-th of its kind, counted from
one. -/
def TriggerKind.filename (kind : TriggerKind) (stem : String) (index : Nat)
    (format : OutputFormat) : String :=
  s!"{stem}{kind.discriminator}-{index}.{format.extension}"

/-- A pipeline and the event that starts it. -/
structure Trigger where
  pipeline : Pipeline
  conditions : Conditions
deriving DecidableEq, Repr

namespace Trigger

/-- The kind of the event. -/
def kind (t : Trigger) : TriggerKind := t.conditions.kind

/-- The events of the workflow: just the one. -/
def events (t : Trigger) : WorkflowEvents := .only t.conditions

/-- The workflow. -/
def workflow (t : Trigger) : Traced Workflow := do
  return { ← t.pipeline.workflow with on := t.events }

/-- The file of the workflow. -/
def file (t : Trigger) (filename : String) (format : OutputFormat) :
    Traced TreeFile := do
  let workflow ← t.workflow
  let path := FilePath.join workflowsDirectory filename
  Traced.tell (.workflowRendered t.kind.discriminator path)
  return ⟨path, format.render workflow⟩

end Trigger

end DaggerWorkflows
