import DaggerWorkflows.FileTree.Write
import DaggerWorkflows.Manifest.OfText

/-!
# Generating workflows

The workflows of a manifest are either written below a directory or printed as
one text.
-/

namespace DaggerWorkflows

/-- Something to print to. It may fail once it has taken so many characters,
and the system says why. -/
structure Sink where
  limit : Option (Nat × String)

namespace Sink

/-- A sink that takes whatever is printed. -/
def unlimited : Sink := ⟨none⟩

/-- Print a text. What has been taken stays when the sink fails. -/
def write (out : Sink) (text : String) : String × Except Error Unit :=
  match out.limit with
  | none => (text, .ok ())
  | some (room, fault) =>
      if text.length ≤ room then (text, .ok ())
      else (String.ofList (text.toList.take room), .error (.storage fault))

end Sink

namespace Manifest

/-- The registry of the manifest at a path. That it has no triggers is worth
telling about. -/
def loadRegistry (fs : FileSystem) (path : String) (settings : Settings) :
    Traced Registry := do
  let m ← load fs path
  let r ← Traced.ofExcept (m.registry settings)
  if r.isEmpty then Traced.tell (.manifestEmpty path)
  return r

end Manifest

namespace Registry

/-- Write all workflows below a directory. The result is the paths that were
written. -/
def generate (r : Registry) (stem output : String) (fs : FileSystem) :
    FileSystem × Traced (List String) :=
  let tree := r.files stem
  match tree.result with
  | .error e => (fs, ⟨.error e, tree.events⟩)
  | .ok files =>
      let (fs, written) := files.write output fs
      (fs, do
        Traced.tellAll tree.events
        let paths ← written
        Traced.tell (.workflowsWritten paths.length)
        return paths)

/-- All workflows as one text, each after a line with its path. -/
def generateText (r : Registry) (stem : String) : Traced String := do
  return (← r.files stem).text

/-- Print all workflows. Nothing is printed before all of them are there. -/
def generateTo (r : Registry) (stem : String) (out : Sink) :
    String × Traced Unit :=
  let text := r.generateText stem
  match text.result with
  | .error e => ("", ⟨.error e, text.events⟩)
  | .ok workflows =>
      let (printed, written) := out.write workflows
      (printed, ⟨written, text.events⟩)

end Registry

end DaggerWorkflows
