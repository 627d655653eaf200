import DaggerWorkflows.Proofs.CompiledWorkflow
import DaggerWorkflows.Proofs.WorkflowPath
import DaggerWorkflows.Registry
import Mathlib.Data.List.Forall2

/-!
# The files of a registry

A registry has one file for each trigger, in the order of its triggers, unless
a secret somewhere is no name. That no file is refused because its path is
taken rests on the numbering: two triggers differ in kind or in number, so by
`workflowPath_components_inj` their files differ in path, whatever the stem.
-/

namespace DaggerWorkflows

namespace FileTree

theorem insert_free (tree : FileTree) (file : TreeFile)
    (h : ∀ f ∈ tree.files, FilePath.components f.path ≠
      FilePath.components file.path) :
    ∃ tree', tree.insert file = .ok tree' ∧
    tree'.files = tree.files ++ [file] := by
  have hfind : tree.find? file.path = none := by
    rw [find?, List.find?_eq_none]
    exact fun f hf => by simpa using h f hf
  unfold insert
  split
  · next f hf => rw [hfind] at hf; cases hf
  · exact ⟨_, rfl, rfl⟩

end FileTree

namespace Registered

/-- The kind and the number of a trigger, which no other trigger of its registry
has both. -/
def label (t : Registered) : TriggerKind × Nat := (t.trigger.kind, t.index)

/-- The path of the file of a trigger. -/
def path (t : Registered) (stem : String) (format : OutputFormat) : String :=
  workflowPath t.trigger.kind stem t.index format

/-- What the file of a trigger is: at its path, the workflow that its pipeline
compiles to, started by its event and no other. -/
structure HasFile (t : Registered) (stem : String) (format : OutputFormat)
    (file : TreeFile) :
    Prop where
  path : file.path = t.path stem format
  contents : ∃ steps, file.contents = format.render
    ⟨t.trigger.pipeline.command, .only t.trigger.conditions,
      OrderedMap.empty.insert Pipeline.jobName
        ⟨t.trigger.pipeline.settings.runner, steps, Pipeline.outputs⟩⟩

/-- A trigger has a file if its secrets are names. -/
theorem file_result (t : Registered) (stem : String) (format : OutputFormat) :
    match SecretName.firstInvalid? t.trigger.pipeline.secrets with
    | none => ∃ file, t.HasFile stem format file ∧
        (t.trigger.file (t.trigger.kind.filename stem t.index format)
          format).result = .ok file
    | some name =>
        (t.trigger.file (t.trigger.kind.filename stem t.index format)
          format).result = .error (.invalidSecretName name) := by
  obtain ⟨steps, hfile⟩ :=
    t.trigger.file_result (t.trigger.kind.filename stem t.index format) format
  cases hinvalid : SecretName.firstInvalid? t.trigger.pipeline.secrets with
  | none =>
      rw [hinvalid] at hfile
      exact ⟨_, ⟨rfl, steps, rfl⟩, hfile⟩
  | some name =>
      rw [hinvalid] at hfile
      exact hfile

/-- The files of triggers that differ in kind or number have different paths. -/
theorem HasFile.components_ne {t u : Registered} {stem : String}
    {format : OutputFormat} {file : TreeFile} (h : t.HasFile stem format file)
    (hne : t.label ≠ u.label) :
    FilePath.components file.path ≠
      FilePath.components (u.path stem format) := by
  rw [h.path]
  intro heq
  obtain ⟨hkind, hindex⟩ := workflowPath_components_inj heq
  exact hne (Prod.ext hkind hindex)

end Registered

namespace Registry

/-- The secrets of triggers, one trigger after the other. -/
def secretsOf (triggers : List Registered) : List String :=
  triggers.flatMap (·.trigger.pipeline.secrets)

theorem firstInvalid?_secretsOf_cons (t : Registered)
    (triggers : List Registered) :
    SecretName.firstInvalid? (secretsOf (t :: triggers)) =
      (SecretName.firstInvalid? t.trigger.pipeline.secrets).or
        (SecretName.firstInvalid? (secretsOf triggers)) := by
  simp [SecretName.firstInvalid?, secretsOf, List.find?_append]

/-- The files of triggers that differ in kind or number, added to a tree that
has none of their paths. The induction is on the triggers; what carries it is
that no path of the tree is the path of a trigger that is still to come. -/
theorem filesInto_result (stem : String) (format : OutputFormat)
    {triggers : List Registered} (tree : FileTree)
    (hdistinct : triggers.Pairwise fun a b => a.label ≠ b.label)
    (hfree : ∀ f ∈ tree.files, ∀ t ∈ triggers,
      FilePath.components f.path ≠ FilePath.components (t.path stem format)) :
    match SecretName.firstInvalid? (secretsOf triggers) with
    | none =>
      ∃ tree', (filesInto stem format triggers tree).result = .ok tree' ∧
        ∃ files, tree'.files = tree.files ++ files ∧
          List.Forall₂ (fun t file => t.HasFile stem format file) triggers files
    | some name =>
        (filesInto stem format triggers tree).result =
          .error (.invalidSecretName name) := by
  induction triggers generalizing tree with
  | nil => exact ⟨tree, rfl, [], by simp, .nil⟩
  | cons t triggers ih =>
      obtain ⟨ht, hdistinct⟩ := List.pairwise_cons.1 hdistinct
      have hfile := t.file_result stem format
      rw [firstInvalid?_secretsOf_cons]
      simp only [filesInto]
      cases hinvalid : SecretName.firstInvalid? t.trigger.pipeline.secrets with
      | some name =>
          rw [hinvalid] at hfile
          exact Traced.result_bind_error hfile _
      | none =>
          rw [hinvalid] at hfile
          obtain ⟨file, hhas, hresult⟩ := hfile
          obtain ⟨tree₁, hinsert, hfiles₁⟩ := FileTree.insert_free tree file
            (fun f hf => by
              rw [hhas.path]; exact hfree f hf t List.mem_cons_self)
          have hfree₁ : ∀ f ∈ tree₁.files, ∀ u ∈ triggers,
              FilePath.components f.path ≠
                FilePath.components (u.path stem format) := by
            intro f hf u hu
            rw [hfiles₁, List.mem_append, List.mem_singleton] at hf
            rcases hf with hf | rfl
            · exact hfree f hf u (List.mem_cons_of_mem _ hu)
            · exact hhas.components_ne (ht u hu)
          have hrest := ih tree₁ hdistinct hfree₁
          rw [Option.none_or, Traced.result_bind_ok hresult,
            Traced.result_bind_ok hinsert]
          cases hnext : SecretName.firstInvalid? (secretsOf triggers) with
          | some name =>
              rw [hnext] at hrest
              exact hrest
          | none =>
              rw [hnext] at hrest
              obtain ⟨tree₂, hresult₂, files, hfiles₂, hall⟩ := hrest
              refine ⟨tree₂, hresult₂, file :: files, ?_, .cons hhas hall⟩
              rw [hfiles₂, hfiles₁, List.append_assoc, List.singleton_append]

theorem kind_of_mem_triggersOf (r : Registry) (kind : TriggerKind) {t : Trigger}
    (h : t ∈ r.triggersOf kind) : t.kind = kind := by
  cases kind <;> simp only [triggersOf, List.mem_map] at h <;>
    obtain ⟨d, -, rfl⟩ := h <;> rfl

theorem triggers_distinct (r : Registry) :
    r.triggers.Pairwise fun a b => a.label ≠ b.label := by
  unfold triggers
  rw [List.pairwise_flatMap]
  constructor
  · intro kind _
    rw [List.pairwise_iff_getElem]
    intro i j hi hj hlt heq
    simp only [Registered.label, List.getElem_mapIdx, Prod.mk.injEq] at heq
    omega
  · have hkinds : TriggerKind.all.Pairwise (· ≠ ·) := by decide
    refine hkinds.imp fun {k k'} hne => ?_
    intro a ha b hb heq
    obtain ⟨i, hi, rfl⟩ := List.mem_mapIdx.1 ha
    obtain ⟨j, hj, rfl⟩ := List.mem_mapIdx.1 hb
    have hk := kind_of_mem_triggersOf r k (List.getElem_mem hi)
    have hk' := kind_of_mem_triggersOf r k' (List.getElem_mem hj)
    exact hne (hk.symm.trans ((congrArg Prod.fst heq).trans hk'))

/-- A registry has its files, one for each trigger and in their order, unless a
secret is no name; then the first such secret is to blame. -/
theorem files_result (r : Registry) (stem : String) :
    match SecretName.firstInvalid? (secretsOf r.triggers) with
    | none => ∃ tree, (r.files stem).result = .ok tree ∧
        List.Forall₂ (fun t file => t.HasFile stem r.format file) r.triggers
          tree.files
    | some name =>
      (r.files stem).result = .error (.invalidSecretName name) := by
  have hinto := filesInto_result stem r.format .empty r.triggers_distinct
    (by simp [FileTree.empty])
  unfold files
  cases hinvalid : SecretName.firstInvalid? (secretsOf r.triggers) with
  | some name =>
      rw [hinvalid] at hinto
      exact Traced.result_bind_error hinto _
  | none =>
      rw [hinvalid] at hinto
      obtain ⟨tree, hresult, files, hfiles, hall⟩ := hinto
      refine ⟨tree, ?_, ?_⟩
      · rw [Traced.result_bind_ok hresult]
        rfl
      · rw [hfiles]
        simpa [FileTree.empty] using hall

variable {r : Registry} {stem : String}

theorem hasFile_of_files {tree : FileTree}
    (h : (r.files stem).result = .ok tree) :
    List.Forall₂ (fun t file => t.HasFile stem r.format file) r.triggers
      tree.files := by
  have hfiles := r.files_result stem
  cases hinvalid : SecretName.firstInvalid? (secretsOf r.triggers) with
  | none =>
      rw [hinvalid] at hfiles
      obtain ⟨tree', hresult, hall⟩ := hfiles
      rw [h] at hresult
      cases hresult
      exact hall
  | some name =>
      rw [hinvalid] at hfiles
      rw [h] at hfiles
      cases hfiles

theorem exists_trigger_of_mem_files {tree : FileTree}
    (h : (r.files stem).result = .ok tree) {file : TreeFile}
    (hmem : file ∈ tree.files) :
    ∃ t ∈ r.triggers, t.HasFile stem r.format file := by
  have hall := hasFile_of_files h
  obtain ⟨k, hk, rfl⟩ := List.getElem_of_mem hmem
  exact ⟨_, List.getElem_mem _, hall.get (hall.length_eq ▸ hk) hk⟩

/-- A registry has its files if all secrets are names, and only then. -/
theorem exists_files_iff :
    (∃ tree, (r.files stem).result = .ok tree) ↔
      ∀ t ∈ r.triggers, ∀ name ∈ t.trigger.pipeline.secrets,
        SecretName.IsName name := by
  have hfiles := r.files_result stem
  have hnames : SecretName.firstInvalid? (secretsOf r.triggers) = none ↔
      ∀ t ∈ r.triggers, ∀ name ∈ t.trigger.pipeline.secrets,
        SecretName.IsName name := by
    rw [SecretName.firstInvalid?_eq_none, secretsOf, List.forall_mem_flatMap]
  rw [← hnames]
  cases hinvalid : SecretName.firstInvalid? (secretsOf r.triggers) with
  | none =>
      rw [hinvalid] at hfiles
      obtain ⟨tree, hresult, -⟩ := hfiles
      exact iff_of_true ⟨tree, hresult⟩ rfl
  | some name =>
      rw [hinvalid] at hfiles
      rw [hfiles]
      exact iff_of_false (fun ⟨tree, htree⟩ => nomatch htree) nofun

end Registry

end DaggerWorkflows
