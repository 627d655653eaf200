import DaggerWorkflows.Registry

/-!
# Manifests

A manifest declares triggers in four sections, one for each kind of event.
-/

namespace DaggerWorkflows

/-- An entry of a section: a pipeline and the conditions of its event. -/
structure ManifestEntry (C : Type) where
  spec : PipelineSpec
  conditions : C
deriving DecidableEq, Repr

/-- The triggers that a manifest declares, in the order of the file. -/
structure Manifest where
  push : List (ManifestEntry PushConditions)
  pullRequest : List (ManifestEntry PullRequestConditions)
  dispatch : List (ManifestEntry DispatchConditions)
  issueComment : List (ManifestEntry CommentConditions)
deriving DecidableEq, Repr, Inhabited

namespace Manifest

/-- A manifest that declares nothing. -/
def empty : Manifest := ⟨[], [], [], []⟩

/-- The number of triggers. -/
def size (m : Manifest) : Nat :=
  m.push.length + m.pullRequest.length + m.dispatch.length +
    m.issueComment.length

/-- Whether the manifest declares nothing. -/
def isEmpty (m : Manifest) : Bool := m.size == 0

/-- All entries, section by section. -/
def declarations (m : Manifest) : List (PipelineSpec × Conditions) :=
  m.push.map (fun e => (e.spec, .push e.conditions))
    ++ m.pullRequest.map (fun e => (e.spec, .pullRequest e.conditions))
    ++ m.dispatch.map (fun e => (e.spec, .dispatch e.conditions))
    ++ m.issueComment.map (fun e => (e.spec, .issueComment e.conditions))

/-- The registry of all triggers. -/
def registry (m : Manifest) (settings : Settings) : Except Error Registry :=
  m.declarations.foldlM (fun r d => r.add d.1 d.2) (.empty settings)

end Manifest

end DaggerWorkflows
