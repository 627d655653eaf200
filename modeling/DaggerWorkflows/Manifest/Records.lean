import DaggerWorkflows.Pipeline.Spec
import DaggerWorkflows.Workflow.Conditions
import DaggerWorkflows.Yaml.Source

/-!
# Records of a manifest

How the records that a manifest is made of are read from named fields. Each
reader leaves the fields it does not know to others.
-/

namespace DaggerWorkflows

open Yaml (Source)

variable {α : Type} {m : Type → Type} [Monad m] [MonadExceptOf Yaml.Complaint m]
  [Source α m]

namespace PipelineSpec

/-- The fields of a description. -/
def fieldNames :
    List String := ["command", "module", "runner", "secrets", "sparse-checkout"]

/-- Read one field. -/
def readField (name : String) (value : α) (s : PipelineSpec) :
    m PipelineSpec := do
  match name with
  | "command" => return { s with command := ← Source.text value }
  | "module" => return { s with module := ← Source.optional Source.text value }
  | "runner" => return { s with runner := ← Source.optional Source.text value }
  | "secrets" => return { s with secrets := ← Source.texts value }
  | "sparse-checkout" =>
      return { s with sparseCheckout := ← Source.optional Source.texts value }
  | _ => return s

/-- Read a description from its fields. -/
def readFields (entries : List (α × α)) : m PipelineSpec :=
  Source.foldFields fieldNames readField entries [] (.ofCommand "")

/-- Read a description. -/
def read :
    α → m PipelineSpec := Source.record "PipelineSpec" fieldNames readFields

end PipelineSpec

namespace PushConditions

/-- The fields of conditions on a push. -/
def fieldNames : List String := ["branches", "tags", "paths"]

/-- Read one field. -/
def readField (name : String) (value : α) (c : PushConditions) :
    m PushConditions := do
  match name with
  | "branches" => return { c with branches := ← Source.texts value }
  | "tags" => return { c with tags := ← Source.texts value }
  | "paths" => return { c with paths := ← Source.texts value }
  | _ => return c

/-- Read conditions from their fields. -/
def readFields (entries : List (α × α)) : m PushConditions :=
  Source.foldFields fieldNames readField entries [] default

/-- Read conditions. -/
def read :
    α → m PushConditions := Source.record "PushTrigger" fieldNames readFields

end PushConditions

namespace PullRequestConditions

/-- The fields of conditions on a pull request. -/
def fieldNames : List String := ["branches", "types", "paths"]

/-- Read one field. -/
def readField (name : String) (value : α) (c : PullRequestConditions) :
    m PullRequestConditions := do
  match name with
  | "branches" => return { c with branches := ← Source.texts value }
  | "types" => return { c with types := ← Source.texts value }
  | "paths" => return { c with paths := ← Source.texts value }
  | _ => return c

/-- Read conditions from their fields. -/
def readFields (entries : List (α × α)) : m PullRequestConditions :=
  Source.foldFields fieldNames readField entries [] default

/-- Read conditions. -/
def read : α → m PullRequestConditions :=
  Source.record "PullRequestTrigger" fieldNames readFields

end PullRequestConditions

/-- An input of which not everything has been read. -/
structure PartialInput where
  description : Option String
  required : Option Bool
  default : Option String
  type : Option String
deriving Inhabited

namespace DispatchInput

/-- The fields of an input. -/
def fieldNames : List String := ["description", "required", "default", "type"]

/-- Read one field. -/
def readField (name : String) (value : α) (i : PartialInput) :
    m PartialInput := do
  match name with
  | "description" => return { i with description := some (← Source.text value) }
  | "required" =>
      return { i with required := ← Source.optional Source.flag value }
  | "default" =>
      return { i with default := ← Source.optional Source.text value }
  | "type" => return { i with type := ← Source.optional Source.text value }
  | _ => return i

/-- Read an input from its fields; the description has to be there. -/
def readFields (entries : List (α × α)) : m DispatchInput := do
  let i ← Source.foldFields fieldNames readField entries [] Inhabited.default
  match i.description with
  | some description => return ⟨description, i.required, i.default, i.type⟩
  | none => Source.mismatch (.missingField "description")

/-- Read an input. -/
def read :
    α → m DispatchInput := Source.record "WorkflowInput" fieldNames readFields

end DispatchInput

namespace DispatchConditions

/-- The fields of conditions on a start by hand. -/
def fieldNames : List String := ["inputs"]

/-- Read one field. -/
def readField (name : String) (value : α) (c : DispatchConditions) :
    m DispatchConditions := do
  match name with
  | "inputs" =>
      return { c with
        inputs := .ofList (← Source.fields DispatchInput.read value) }
  | _ => return c

/-- Read conditions from their fields. -/
def readFields (entries : List (α × α)) : m DispatchConditions :=
  Source.foldFields fieldNames readField entries [] default

/-- Read conditions. -/
def read : α → m DispatchConditions :=
  Source.record "WorkflowDispatchTrigger" fieldNames readFields

end DispatchConditions

namespace CommentConditions

/-- The fields of conditions on a comment. -/
def fieldNames : List String := ["types"]

/-- Read one field. -/
def readField (name : String) (value : α) (c : CommentConditions) :
    m CommentConditions := do
  match name with
  | "types" => return { c with types := ← Source.texts value }
  | _ => return c

/-- Read conditions from their fields. -/
def readFields (entries : List (α × α)) : m CommentConditions :=
  Source.foldFields fieldNames readField entries [] default

/-- Read conditions. -/
def read :
    α → m CommentConditions :=
  Source.record "IssueCommentTrigger" fieldNames readFields

end CommentConditions

end DaggerWorkflows
