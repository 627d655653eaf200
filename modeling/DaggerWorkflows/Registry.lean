import DaggerWorkflows.Trigger

/-!
# Registries

A registry holds the triggers of each kind in the order they were added. Their
positions decide the names of files, so a trigger once added stays where it is.
-/

namespace DaggerWorkflows

/-- A pipeline and conditions of one kind. -/
structure Declared (C : Type) where
  pipeline : Pipeline
  conditions : C
deriving DecidableEq, Repr

/-- The triggers that have been declared, and the settings they were declared
under. -/
structure Registry where
  settings : Settings
  push : List (Declared PushConditions)
  pullRequest : List (Declared PullRequestConditions)
  dispatch : List (Declared DispatchConditions)
  issueComment : List (Declared CommentConditions)
deriving DecidableEq, Repr

/-- A trigger and its position among those of its kind, counted from one. -/
structure Registered where
  index : Nat
  trigger : Trigger
deriving DecidableEq, Repr

namespace Registry

/-- A registry without triggers. -/
def empty (settings : Settings) :
    Registry := ⟨settings.normalized, [], [], [], []⟩

/-- Add a pipeline and the event that starts it. -/
def add (r : Registry) (spec : PipelineSpec) (conditions : Conditions) :
    Except Error Registry := do
  let pipeline ← Pipeline.ofSpec spec r.settings
  match conditions with
  | .push c => return { r with push := r.push ++ [⟨pipeline, c⟩] }
  | .pullRequest c =>
      return { r with pullRequest := r.pullRequest ++ [⟨pipeline, c⟩] }
  | .dispatch c => return { r with dispatch := r.dispatch ++ [⟨pipeline, c⟩] }
  | .issueComment c =>
      return { r with issueComment := r.issueComment ++ [⟨pipeline, c⟩] }

/-- The triggers of one kind, in the order they were added. -/
def triggersOf (r : Registry) : TriggerKind → List Trigger
  | .push => r.push.map fun d => ⟨d.pipeline, .push d.conditions⟩
  | .pullRequest =>
      r.pullRequest.map fun d => ⟨d.pipeline, .pullRequest d.conditions⟩
  | .dispatch => r.dispatch.map fun d => ⟨d.pipeline, .dispatch d.conditions⟩
  | .issueComment =>
      r.issueComment.map fun d => ⟨d.pipeline, .issueComment d.conditions⟩

/-- All triggers, kind by kind, with their positions. -/
def triggers (r : Registry) : List Registered :=
  TriggerKind.all.flatMap fun kind =>
    (r.triggersOf kind).mapIdx fun i trigger => ⟨i + 1, trigger⟩

/-- The number of triggers. -/
def size (r : Registry) : Nat :=
  r.push.length + r.pullRequest.length + r.dispatch.length +
    r.issueComment.length

/-- Whether there are no triggers. -/
def isEmpty (r : Registry) : Bool := r.size == 0

/-- How workflows are written. -/
def format (r : Registry) :
    OutputFormat := if r.settings.asJson then .json else .yaml

/-- Add the files of triggers to a tree. -/
def filesInto (stem : String) (format : OutputFormat) :
    List Registered → FileTree → Traced FileTree
  | [], tree => pure tree
  | t :: triggers, tree => do
      let filename := t.trigger.kind.filename stem t.index format
      let file ← t.trigger.file filename format
      let tree ← Traced.ofExcept (tree.insert file)
      filesInto stem format triggers tree

/-- The files of all workflows; their names start with `stem`. -/
def files (r : Registry) (stem : String) : Traced FileTree := do
  let tree ← filesInto stem r.format r.triggers .empty
  Traced.tell (.treeGenerated tree.size)
  return tree

end Registry

end DaggerWorkflows
