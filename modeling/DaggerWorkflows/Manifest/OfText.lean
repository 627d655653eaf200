import DaggerWorkflows.FileSystem
import DaggerWorkflows.Manifest
import DaggerWorkflows.Manifest.Records
import DaggerWorkflows.Yaml.Source.OfNode
import DaggerWorkflows.Yaml.Source.OfValue

/-!
# Manifests of texts

An entry of a manifest is one mapping for two records, the pipeline and the
conditions of its event; each takes the keys it knows, whatever their order. A
key that neither knows is an error, so that nothing a user wrote is lost. That
error comes last: first the whole document is read.
-/

namespace DaggerWorkflows

open Yaml (Complaint Decoding Place Source Value)

/-- An entry as read, with the keys that nobody knows. -/
structure ReadEntry (C : Type) where
  entry : ManifestEntry C
  unknown : List String
deriving DecidableEq, Repr

namespace ReadEntry

/-- The entries of a mapping whose keys are among some names. -/
def select (names : List String) (entries : List (String × Value)) :
    List (Value × Value) :=
  (entries.filter fun e => names.contains e.1).map fun e =>
    (.atom (.text e.1), e.2)

/-- An entry from the keys and values of its mapping. -/
def ofFields {C : Type} (names : List String)
    (conditions : List (Value × Value) → Except Complaint C)
    (entries : List (String × Value)) :
    Except Complaint (ReadEntry C) := do
  let spec ← PipelineSpec.readFields (select PipelineSpec.fieldNames entries)
  let conditions ← conditions (select names entries)
  let unknown := entries.filter fun e =>
    !(PipelineSpec.fieldNames ++ names).contains e.1
  unknown.forM fun e => e.2.checkKeys.mapError fun mismatch =>
    .mismatch mismatch none
  return ⟨⟨spec, conditions⟩, unknown.map (·.1)⟩

/-- Read an entry. -/
def read {C : Type} (names : List String)
    (conditions : List (Value × Value) → Except Complaint C) (p : Place) :
    Decoding (ReadEntry C) :=
  p.readEntries (.struct "Entry") fun entries => do
    let entries ← entries.mapM fun (key, value) => do
      let key ← key.readScalar .key
      return (key, ← value.value)
    match ofFields names conditions entries with
    | .ok entry => return entry
    | .error complaint => throw complaint

end ReadEntry

/-- A manifest as read, with the keys that nobody knows. -/
structure ReadManifest where
  push : List (ReadEntry PushConditions)
  pullRequest : List (ReadEntry PullRequestConditions)
  dispatch : List (ReadEntry DispatchConditions)
  issueComment : List (ReadEntry CommentConditions)
deriving DecidableEq, Repr, Inhabited

namespace ReadManifest

/-- The names of the sections. -/
def sectionNames : List String := TriggerKind.all.map (·.sectionName)

/-- Read one section. -/
def readSection (kind : TriggerKind) (p : Place) (m : ReadManifest) :
    Decoding ReadManifest := do
  match kind with
  | .push =>
      let read :=
        ReadEntry.read PushConditions.fieldNames PushConditions.readFields
      return { m with push := ← p.readItems read }
  | .pullRequest =>
      let read := ReadEntry.read PullRequestConditions.fieldNames
        PullRequestConditions.readFields
      return { m with pullRequest := ← p.readItems read }
  | .dispatch =>
      let read := ReadEntry.read DispatchConditions.fieldNames
        DispatchConditions.readFields
      return { m with dispatch := ← p.readItems read }
  | .issueComment =>
      let read :=
        ReadEntry.read CommentConditions.fieldNames CommentConditions.readFields
      return { m with issueComment := ← p.readItems read }

/-- Read sections one after the other; `seen` are those that have been read. -/
def readSections :
    List (Place × Place) → List TriggerKind → ReadManifest →
    Decoding ReadManifest
  | [], _, m => return m
  | (key, value) :: entries, seen, m => do
      let key ← key.resolve
      let name ← key.readScalar .key
      match TriggerKind.all.find? (·.sectionName == name) with
      | none => key.refuse key.node.mark (.unknownField name sectionNames)
      | some kind =>
          if seen.contains kind then Source.mismatch (.duplicateField name)
          else do
            let m ← readSection kind value m
            readSections entries (kind :: seen) m

/-- Read a manifest. -/
def read (p : Place) : Decoding ReadManifest :=
  p.readEntries (.struct "Manifest") fun entries =>
    readSections entries [] default

/-- The least of some texts. -/
def least? (texts : List String) : Option String :=
  texts.foldl (fun least s =>
    match least with
    | none => some s
    | some t => if s < t then some s else some t) none

/-- A key of an entry that nobody knows. -/
structure UnknownKey where
  kind : TriggerKind
  position : Nat
  key : String
deriving DecidableEq, Repr

/-- The first entry of a section that has unknown keys, and the least of
them. -/
def unknownIn {C : Type} (kind : TriggerKind) (entries : List (ReadEntry C)) :
    Option UnknownKey :=
  entries.zipIdx.findSome? fun (e, position) =>
    (least? e.unknown).map (⟨kind, position, ·⟩)

/-- The unknown key that is complained about. -/
def unknown? (m : ReadManifest) : Option UnknownKey :=
  unknownIn .push m.push <|> unknownIn .pullRequest m.pullRequest
    <|> unknownIn .dispatch m.dispatch <|>
      unknownIn .issueComment m.issueComment

/-- The manifest itself. -/
def manifest (m : ReadManifest) : Manifest :=
  ⟨m.push.map (·.entry), m.pullRequest.map (·.entry), m.dispatch.map (·.entry),
    m.issueComment.map (·.entry)⟩

end ReadManifest

/-- The complaint about an unknown key. -/
def ReadManifest.UnknownKey.message (k : ReadManifest.UnknownKey) : String :=
  s!"{k.kind.sectionName}[{k.position}]: unknown key `{k.key}`"

namespace Manifest

/-- The manifest that a text declares. The path is where the text comes from. -/
def ofText (path text : String) : Except Error Manifest :=
  match (Yaml.Document.ofText text).decode ReadManifest.read with
  | .error complaint => .error (.manifest path complaint.message)
  | .ok m =>
      match m.unknown? with
      | some key => .error (.manifest path key.message)
      | none => .ok m.manifest

/-- Read the manifest at a path. -/
def load (fs : FileSystem) (path : String) : Traced Manifest := do
  match fs.readText path with
  | .error e => Traced.error (.manifest path s!"cannot read file: {e.message}")
  | .ok text =>
      let m ← Traced.ofExcept (ofText path text)
      Traced.tell (.manifestLoaded path m.size)
      return m

end Manifest

end DaggerWorkflows
