import DaggerWorkflows.Manifest
import DaggerWorkflows.Proofs.Correspondence
import DaggerWorkflows.Proofs.RegistryFiles
import DaggerWorkflows.Proofs.RegistryGrowth

/-!
# From a manifest to its files

Four sections, four kinds of trigger, a numbering of its own for each, settings
that an entry may override, and two phases in which something can fail. Here
they are put in line: `Manifest.files_of_entries` says of every manifest what
its files are and which error stands in their place, by its entries alone.

The way there is a chain of correspondences, all of them position by position:
the entries of a manifest with the triggers of its registry
(`triggers_of_registry`), and those with the files (`Registry.files_result`).
-/

namespace DaggerWorkflows

/-! ## Entries -/

/-- An entry of a manifest and its position in its section, counted from one.
The kind of its conditions says which section it is in. -/
structure NumberedEntry where
  index : Nat
  spec : PipelineSpec
  conditions : Conditions

namespace Manifest

/-- The entries of one section. -/
def entriesOf (m : Manifest) : TriggerKind → List (PipelineSpec × Conditions)
  | .push => m.push.map fun e => (e.spec, .push e.conditions)
  | .pullRequest =>
      m.pullRequest.map fun e => (e.spec, .pullRequest e.conditions)
  | .dispatch => m.dispatch.map fun e => (e.spec, .dispatch e.conditions)
  | .issueComment =>
      m.issueComment.map fun e => (e.spec, .issueComment e.conditions)

/-- All entries: push, pull request, dispatch, issue comment, and in each
section the order of the file. -/
def numberedEntries (m : Manifest) : List NumberedEntry :=
  [TriggerKind.push, .pullRequest, .dispatch, .issueComment].flatMap fun kind =>
    (m.entriesOf kind).mapIdx fun i e => ⟨i + 1, e.1, e.2⟩

/-- The files of a manifest, or why there are none. -/
def files (m : Manifest) (settings : Settings) (stem : String) :
    Except Error FileTree := do
  let r ← m.registry settings
  (r.files stem).result

end Manifest

/-- The runner of an entry: its own one unless that is empty, else that of the
settings, else the default. -/
def PipelineSpec.runnerUnder (spec : PipelineSpec) (settings : Settings) :
    String :=
  if spec.runner.getD "" ≠ "" then spec.runner.getD ""
  else if settings.runner ≠ "" then settings.runner
  else "ubuntu-latest"

/-- What the file of an entry is. -/
structure NumberedEntry.HasFile (e : NumberedEntry) (settings : Settings)
    (stem : String) (file : TreeFile) : Prop where
  path : file.path = FilePath.join ".github/workflows"
    (stem ++ e.conditions.kind.discriminator ++ "-" ++ Nat.repr e.index ++
      "." ++ if settings.asJson then "json" else "yml")
  contents : ∃ (w : Workflow) (job : Job),
    file.contents =
      (if settings.asJson then OutputFormat.json else .yaml).render w ∧
      w.name = e.spec.command ∧ w.on = .only e.conditions ∧
      w.jobs.entries = [("dagger", job)] ∧
        job.runsOn = e.spec.runnerUnder settings

/-! ## The registry of a manifest -/

namespace Manifest

/-- Numbering the entries neither adds nor moves any. -/
theorem map_numberedEntries (m : Manifest) :
    m.numberedEntries.map (fun e => (e.spec, e.conditions)) =
      m.declarations := by
  have hsection : ∀ ds : List (PipelineSpec × Conditions),
      (ds.mapIdx fun i d => (⟨i + 1, d.1, d.2⟩ : NumberedEntry)).map
        (fun e => (e.spec, e.conditions)) = ds := by
    intro ds
    apply List.ext_getElem <;> simp
  simp [numberedEntries, declarations, entriesOf, hsection]

theorem forall_declarations (m : Manifest) (P : PipelineSpec → Prop) :
    (∀ d ∈ m.declarations, P d.1) ↔ ∀ e ∈ m.numberedEntries, P e.spec := by
  simp [← map_numberedEntries]

theorem filter_declarations (m : Manifest) (kind : TriggerKind) :
    m.declarations.filter (·.2.kind = kind) = m.entriesOf kind := by
  cases kind <;>
    simp [declarations, entriesOf, List.filter_append, List.filter_map,
      Function.comp_def, Conditions.kind]

/-- What the trigger of an entry is: its pipeline under the settings, its
conditions, and the same position. -/
def Registers (settings : Settings) (e : NumberedEntry) (t : Registered) :
    Prop :=
  t.index = e.index ∧ Trigger.Declares settings (e.spec, e.conditions) t.trigger

/-- If every entry says something, the registry has one trigger for each. -/
theorem triggers_of_registry {m : Manifest}
    (h : ∀ e ∈ m.numberedEntries, SaysSomething e.spec.command)
    (settings : Settings) :
    ∃ r, m.registry settings = .ok r ∧ r.settings = settings.normalized ∧
      List.Forall₂ (Registers settings.normalized) m.numberedEntries
        r.triggers := by
  obtain ⟨r, hall, hsettings, htriggers⟩ :=
    Registry.addAll_ok ((m.forall_declarations (SaysSomething ·.command)).2 h)
      (.empty settings)
  refine ⟨r, hall, hsettings, ?_⟩
  refine List.rel_flatMap (R := Eq) (List.forall₂_refl _) fun kind _ heq => ?_
  subst heq
  obtain ⟨added, hadded, hforall⟩ := htriggers kind
  have hempty : (Registry.empty settings).triggersOf kind = [] := by
    cases kind <;> rfl
  rw [filter_declarations] at hforall
  rw [hadded, hempty, List.nil_append]
  exact forall₂_mapIdx hforall fun i d t hd => ⟨rfl, hd⟩

/-! ## The files of a manifest -/

theorem orDefault_orDefault (text fallback : String) :
    Settings.orDefault (Settings.orDefault text fallback) fallback =
      Settings.orDefault text fallback := by
  unfold Settings.orDefault
  by_cases h : text.isEmpty = true
  · rw [if_pos h, ite_self]
  · rw [if_neg h, if_neg h]

/-- A pipeline runs where its entry wants it to. The settings are made normal
twice, for the registry and for the pipeline, which is once too often and
harmless. -/
theorem runner_forRunner (spec : PipelineSpec) (settings : Settings) :
    (settings.normalized.forRunner spec.runner).runner =
    spec.runnerUnder settings := by
  have hdefault : settings.normalized.normalized.runner =
      if settings.runner ≠ "" then settings.runner else "ubuntu-latest" := by
    refine (orDefault_orDefault settings.runner Settings.defaultRunner).trans ?_
    by_cases h : settings.runner = "" <;>
      simp [Settings.orDefault, Settings.defaultRunner, h]
  unfold Settings.forRunner PipelineSpec.runnerUnder
  cases hrunner : spec.runner with
  | none => simpa using hdefault
  | some runner =>
      by_cases h : runner = ""
      · simpa [h, Option.filter] using hdefault
      · simp [Option.filter, h]

theorem hasFile_of_registers {settings : Settings} {stem : String}
    {r : Registry} (hr : r.settings = settings.normalized) {e : NumberedEntry}
    {t : Registered} {file : TreeFile} (ht : Registers settings.normalized e t)
    (hfile : t.HasFile stem r.format file) : e.HasFile settings stem file := by
  obtain ⟨hindex, hspec, hconditions⟩ := ht
  obtain ⟨hcommand, -, hpipeline⟩ := Pipeline.ofSpec_fields hspec
  have hformat : r.format = if settings.asJson then .json else .yaml := by
    rw [Registry.format, hr]
    rfl
  obtain ⟨hpath, steps, hcontents⟩ := hfile
  constructor
  · rw [hpath, Registered.path, workflowPath, TriggerKind.filename_eq, hindex,
      hformat]
    simp only [Trigger.kind, hconditions, TriggerKind.numberedName,
      String.append_assoc]
    cases settings.asJson <;> rfl
  · refine ⟨_, _, by rw [hcontents, hformat], hcommand, ?_, rfl, ?_⟩
    · exact congrArg WorkflowEvents.only hconditions
    · rw [hpipeline]
      exact runner_forRunner e.spec settings

theorem files_of_blank {m : Manifest}
    (h : ∃ e ∈ m.numberedEntries, ¬ SaysSomething e.spec.command)
    (settings : Settings) (stem : String) :
    m.files settings stem = .error .emptyCommand := by
  have hblank : ∃ d ∈ m.declarations, ¬ SaysSomething d.1.command := by
    obtain ⟨e, he, hblank⟩ := h
    exact ⟨(e.spec, e.conditions), m.map_numberedEntries ▸
      List.mem_map_of_mem he, hblank⟩
  have hregistry : m.registry settings = .error .emptyCommand :=
    Registry.addAll_blank hblank _
  rw [files, hregistry]
  rfl

theorem files_of_saysSomething {m : Manifest}
    (h : ∀ e ∈ m.numberedEntries, SaysSomething e.spec.command)
    (settings : Settings) (stem : String) :
    match SecretName.firstInvalid? (m.numberedEntries.flatMap (·.spec.secrets))
      with
    | none => ∃ tree, m.files settings stem = .ok tree ∧
        List.Forall₂ (fun e file => e.HasFile settings stem file)
          m.numberedEntries tree.files
    | some name =>
      m.files settings stem = .error (.invalidSecretName name) := by
  obtain ⟨r, hregistry, hsettings, htriggers⟩ := triggers_of_registry h settings
  have hfiles : m.files settings stem = (r.files stem).result := by
    rw [files, hregistry]
    rfl
  have hsecrets : Registry.secretsOf r.triggers =
      m.numberedEntries.flatMap (·.spec.secrets) :=
    flatMap_eq_of_forall₂ htriggers fun e t ht =>
      (Pipeline.ofSpec_fields ht.2.1).2.1
  have hresult := r.files_result stem
  rw [hsecrets, ← hfiles] at hresult
  cases hinvalid :
    SecretName.firstInvalid? (m.numberedEntries.flatMap (·.spec.secrets)) with
  | some name =>
      rw [hinvalid] at hresult
      exact hresult
  | none =>
      rw [hinvalid] at hresult
      obtain ⟨tree, htree, hall⟩ := hresult
      exact ⟨tree, htree,
        forall₂_comp htriggers hall fun _ _ _ ht hfile =>
          hasFile_of_registers hsettings ht hfile⟩

/-- The files of a manifest, by its entries. Nothing fails but for an entry that
says nothing or a secret that is no name, and of these the first goes before the
second: the registry is made before any workflow is. -/
theorem files_of_entries (m : Manifest) (settings : Settings) (stem : String) :
    ((∃ tree, m.files settings stem = .ok tree) ↔
      ∀ e ∈ m.numberedEntries,
        SaysSomething e.spec.command ∧ ∀ s ∈ e.spec.secrets,
          SecretName.IsName s) ∧
    match m.files settings stem with
    | .ok tree =>
        List.Forall₂ (fun e file => e.HasFile settings stem file)
          m.numberedEntries tree.files
    | .error error =>
        (error = .emptyCommand ∧ ∃ e ∈ m.numberedEntries,
          ¬ SaysSomething e.spec.command) ∨
        ∃ name, error = .invalidSecretName name ∧
          (∀ e ∈ m.numberedEntries, SaysSomething e.spec.command) ∧
          (m.numberedEntries.flatMap (·.spec.secrets)).find?
          (fun s => ¬ SecretName.IsName s) = some name := by
  by_cases hcommand : ∀ e ∈ m.numberedEntries, SaysSomething e.spec.command
  · have hresult := files_of_saysSomething hcommand settings stem
    cases hinvalid :
      SecretName.firstInvalid? (m.numberedEntries.flatMap (·.spec.secrets)) with
    | none =>
        rw [hinvalid] at hresult
        obtain ⟨tree, htree, hall⟩ := hresult
        have hnames := SecretName.firstInvalid?_eq_none.1 hinvalid
        rw [htree]
        constructor
        · refine iff_of_true ⟨tree, rfl⟩ fun e he =>
            ⟨hcommand e he, fun s hs => ?_⟩
          exact hnames s (List.mem_flatMap.2 ⟨e, he, hs⟩)
        · exact hall
    | some name =>
        rw [hinvalid] at hresult
        rw [SecretName.firstInvalid?_eq] at hinvalid
        rw [hresult]
        constructor
        · refine iff_of_false (by simp) fun hgood => ?_
          obtain ⟨e, he, hs⟩ :=
            List.mem_flatMap.1 (List.mem_of_find?_eq_some hinvalid)
          have hbad := List.find?_some hinvalid
          simp only [decide_eq_true_eq] at hbad
          exact hbad ((hgood e he).2 name hs)
        · exact .inr ⟨name, rfl, hcommand, hinvalid⟩
  · have hblank : ∃ e ∈ m.numberedEntries, ¬ SaysSomething e.spec.command := by
      simpa using hcommand
    rw [files_of_blank hblank settings stem]
    constructor
    · exact iff_of_false (by simp) fun hgood =>
        hcommand fun e he => (hgood e he).1
    · exact .inl ⟨rfl, hblank⟩

end Manifest

end DaggerWorkflows
