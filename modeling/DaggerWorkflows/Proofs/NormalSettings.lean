import DaggerWorkflows.Proofs.StepEnvironment
import DaggerWorkflows.Proofs.ManifestFiles
import DaggerWorkflows.Proofs.RegistryHistory

/-!
# Settings with no empty text

Settings are plain data, so any of their texts may be left empty, which stands
for the default. `normalized` puts the defaults in, and `Settings.IsNormal`
says that nothing is left to put in. Every way into a registry makes settings
normal once more, so that the same settings come out whichever way is taken,
and no workflow names an empty machine or an empty version.

`normalized_eq` is the whole of `normalized`, field by field; the rest of what
is said about settings is read off it. What workflows have to do with it is
where texts of settings go: into one job and into the environments of its
steps, of which there are three kinds (`Pipeline.env_of_steps`).
-/

namespace DaggerWorkflows

namespace Settings

variable {s : Settings}

/-- No text of the settings is empty. -/
structure IsNormal (s : Settings) : Prop where
  runner : s.runner ≠ ""
  version : s.daggerVersion ≠ ""
  token : s.publicToken ≠ some ""

theorem orDefault_eq (text fallback : String) :
    orDefault text fallback = if text = "" then fallback else text := by
  simp [orDefault]

theorem orDefault_ne_empty (text : String) {fallback : String}
    (h : fallback ≠ "") :
    orDefault text fallback ≠ "" := by
  rw [orDefault_eq]
  split
  · exact h
  · assumption

theorem normalized_eq (s : Settings) :
    s.normalized = { s with
      runner := if s.runner = "" then "ubuntu-latest" else s.runner
      daggerVersion := if s.daggerVersion = "" then "latest"
        else s.daggerVersion
      publicToken :=
        if s.publicToken = some "" then none else s.publicToken } := by
  have htoken :
    (if (s.publicToken.getD "").isEmpty then none
      else some (s.publicToken.getD "")) =
      if s.publicToken = some "" then none else s.publicToken := by
    cases s.publicToken with
    | none => rfl
    | some token => by_cases h : token = "" <;> simp [h]
  simp only [normalized, withRunner, withDaggerVersion, withPublicToken,
    orDefault_eq, htoken, defaultRunner, defaultVersion]

theorem isNormal_normalized (s : Settings) : s.normalized.IsNormal := by
  rw [normalized_eq]
  refine ⟨?_, ?_, ?_⟩
  · show (if s.runner = "" then "ubuntu-latest" else s.runner) ≠ ""
    split
    · decide
    · assumption
  · show (if s.daggerVersion = "" then "latest" else s.daggerVersion) ≠ ""
    split
    · decide
    · assumption
  · show (if s.publicToken = some "" then none else s.publicToken) ≠ some ""
    split
    · exact nofun
    · assumption

theorem IsNormal.normalized_eq_self (h : s.IsNormal) : s.normalized = s := by
  rw [normalized_eq, if_neg h.runner, if_neg h.version, if_neg h.token]

theorem normalized_normalized (s : Settings) :
    s.normalized.normalized = s.normalized :=
  (isNormal_normalized s).normalized_eq_self

/-! ## Changes -/

theorem forRunner_normalized (s : Settings) (runner : Option String) :
    s.normalized.forRunner runner = s.forRunner runner := by
  unfold forRunner
  rw [normalized_normalized]

/-- The copy for a pipeline differs from normal settings in the runner at
most. -/
theorem IsNormal.forRunner_eq (h : s.IsNormal) (spec : PipelineSpec) :
    s.forRunner spec.runner = { s with runner := spec.runnerUnder s } := by
  have hrunner := Manifest.runner_forRunner spec s
  rw [h.normalized_eq_self] at hrunner
  rw [← hrunner]
  unfold forRunner
  rw [h.normalized_eq_self]
  cases spec.runner.filter (!·.isEmpty) <;> rfl

theorem isNormal_forRunner (s : Settings) (runner : Option String) :
    (s.forRunner runner).IsNormal := by
  have hnormal := isNormal_normalized s
  unfold forRunner
  cases hrunner : runner.filter (!·.isEmpty) with
  | none => exact hnormal
  | some label =>
      have hlabel := (Option.filter_eq_some_iff.1 hrunner).2
      refine ⟨?_, hnormal.version, hnormal.token⟩
      simpa using hlabel

/-- One thing that callers can do to settings. -/
inductive Change where
  | publicToken (token : String)
  | daggerVersion (version : String)
  | runner (label : String)
  | noTraces
  | stopEngine
  | json
  | forRunner (label : Option String)

/-- The settings after a change. -/
def Change.apply (s : Settings) : Change → Settings
  | publicToken token => s.withPublicToken token
  | daggerVersion version => s.withDaggerVersion version
  | runner label => s.withRunner label
  | noTraces => s.withoutTraces
  | stopEngine => s.withStopEngine
  | json => s.withJson
  | forRunner label => s.forRunner label

theorem IsNormal.apply (h : s.IsNormal) (change : Change) :
    (change.apply s).IsNormal := by
  cases change with
  | publicToken token =>
      refine ⟨h.runner, h.version, ?_⟩
      show (if token.isEmpty then none else some token) ≠ some ""
      by_cases htoken : token = "" <;> simp [htoken]
  | daggerVersion version =>
      have hdefault : defaultVersion ≠ "" := by decide
      exact ⟨h.runner, orDefault_ne_empty version hdefault, h.token⟩
  | runner label =>
      have hdefault : defaultRunner ≠ "" := by decide
      exact ⟨orDefault_ne_empty label hdefault, h.version, h.token⟩
  | noTraces => exact ⟨h.runner, h.version, h.token⟩
  | stopEngine => exact ⟨h.runner, h.version, h.token⟩
  | json => exact ⟨h.runner, h.version, h.token⟩
  | forRunner label => exact isNormal_forRunner s label

/-- The settings after changes, one after the other. -/
def applyAll (s : Settings) (changes : List Change) :
    Settings := changes.foldl Change.apply s

theorem IsNormal.applyAll (h : s.IsNormal) (changes : List Change) :
    (s.applyAll changes).IsNormal := by
  induction changes generalizing s with
  | nil => exact h
  | cons change changes ih => exact ih (h.apply change)

end Settings

/-! ## Workflows -/

theorem ContextKey.expressionOf_ne_empty (name : String) :
    expressionOf name ≠ "" := by
  simp [expressionOf]

namespace StepEnvironment

/-- A variable of an environment that has been put together was there before or
is on the list. -/
theorem mem_of_mem_addAll {env : StepEnvironment}
    {entries : List (String × String)} {e : String × String}
    (h : e ∈ (env.addAll entries).values.entries) :
    e ∈ entries ∨ e ∈ env.values.entries := by
  rw [SortedMap.mem_entries_iff, get?_addAll, Option.or_eq_some_iff] at h
  rcases h with h | ⟨-, h⟩
  · exact .inr (SortedMap.mem_entries_iff.2 h)
  · obtain ⟨before, after, hsplit, -⟩ := List.lookup_eq_some_iff.1 h
    rw [hsplit]
    exact .inl (List.mem_append_right before List.mem_cons_self)

end StepEnvironment

namespace Pipeline

variable {p : Pipeline} {scripts : ScriptSource}

/-- No variable that the command is run with is empty. -/
theorem ne_empty_of_mem_execVariables (hsettings : p.settings.IsNormal)
    (hmodule : p.module ≠ some "") {e : String × String}
    (h : e ∈ p.execVariables) : e.2 ≠ "" := by
  have htoken : p.settings.publicToken.getD (secretExpression tokenVariable) ≠
      "" := by
    cases htoken : p.settings.publicToken with
    | none => exact ContextKey.expressionOf_ne_empty _
    | some token =>
        rintro rfl
        exact hsettings.token htoken
  simp only [execVariables, List.mem_append, List.mem_singleton, List.mem_map]
    at h
  rcases h with (((rfl | ⟨secret, -, rfl⟩) | hmem) | hmem) | ⟨key, -, rfl⟩
  · simp
  · exact ContextKey.expressionOf_ne_empty _
  · cases hp : p.module with
    | none =>
        rw [hp] at hmem
        cases hmem
    | some m =>
        rw [hp] at hmem
        obtain rfl := List.mem_singleton.1 hmem
        rintro rfl
        exact hmodule hp
  · split at hmem
    · cases hmem
    · rcases List.mem_pair.1 hmem with rfl | rfl <;> exact htoken
  · exact ContextKey.expressionOf_ne_empty _

theorem ne_empty_of_mem_execEnvironment (hsettings : p.settings.IsNormal)
    (hmodule : p.module ≠ some "") {e : String × String}
    (h : e ∈ p.execEnvironment.values.entries) : e.2 ≠ "" := by
  rcases StepEnvironment.mem_of_mem_addAll h with hmem | hmem
  · exact ne_empty_of_mem_execVariables hsettings hmodule hmem
  · cases hmem

/-- The environments of the steps of a job: the version for the first script,
the variables of the command for the third, and none for the others. -/
theorem env_of_steps {steps : List Step}
    (h : (p.steps scripts).result = .ok steps) :
    (∃ step ∈ steps, step.env.get? "DAGGER_VERSION" =
      some p.settings.daggerVersion) ∧ ∀ step ∈ steps, step.env = .empty ∨
        step.env = SortedMap.empty.insert "DAGGER_VERSION"
          p.settings.daggerVersion ∨
        step.env = p.execEnvironment.values := by
  obtain ⟨install, warm, exec, stop, hinstall, hwarm, hexec, hstop, rfl⟩ :=
    steps_ok h
  obtain ⟨-, -, rfl⟩ := scriptStep_ok hinstall
  obtain ⟨-, -, rfl⟩ := scriptStep_ok hwarm
  obtain ⟨-, -, rfl⟩ := scriptStep_ok hexec
  have hcheckout : p.checkoutStep.env = .empty := by
    unfold checkoutStep
    cases p.sparseCheckout <;> rfl
  have hlast : ∀ step ∈ stop, step.env = .empty := by
    split at hstop
    · obtain ⟨step, hstep, rfl⟩ := hstop
      obtain ⟨-, -, rfl⟩ := scriptStep_ok hstep
      simp
    · simp [hstop]
  constructor
  · refine ⟨_,
      List.mem_append_left _ (List.mem_cons_of_mem _ List.mem_cons_self), ?_⟩
    exact SortedMap.get?_insert_self _ _ _
  · intro step hmem
    simp only [List.cons_append, List.nil_append, List.mem_cons] at hmem
    rcases hmem with rfl | rfl | rfl | rfl | hmem
    · exact .inl hcheckout
    · exact .inr (.inl rfl)
    · exact .inl rfl
    · exact .inr (.inr rfl)
    · exact .inl (hlast step hmem)

theorem module_ne_empty {spec : PipelineSpec} {settings : Settings}
    (hp : ofSpec spec settings = .ok p) : p.module ≠ some "" := by
  rw [ofSpec_module hp]
  intro hmodule
  exact absurd (Option.filter_eq_some_iff.1 hmodule).2 (by decide)

theorem ofSpec_normalized (spec : PipelineSpec) (settings : Settings) :
    ofSpec spec settings.normalized = ofSpec spec settings := by
  simp only [ofSpec, Settings.forRunner_normalized]

/-- A pipeline made from any settings names a machine and a version. -/
theorem names_of_workflowWith {spec : PipelineSpec} {settings : Settings}
    (hp : ofSpec spec settings = .ok p) {w : Workflow}
    (hw : (p.workflowWith scripts).result = .ok w) :
    ∀ e ∈ w.jobs.entries, e.2.runsOn ≠ "" ∧
      (∃ step ∈ e.2.steps, step.env.get? "DAGGER_VERSION" =
        some p.settings.daggerVersion) ∧
      ∀ step ∈ e.2.steps, step.env.get? "DAGGER_VERSION" ≠ some "" := by
  have hsettings : p.settings.IsNormal := by
    rw [(ofSpec_fields hp).2.2]
    exact Settings.isNormal_forRunner settings spec.runner
  have hmodule := module_ne_empty hp
  obtain ⟨steps, hsteps, rfl⟩ := workflowWith_ok hw
  obtain ⟨hversion, henv⟩ := env_of_steps hsteps
  intro e he
  obtain rfl : e = (jobName, _) := List.mem_singleton.1 he
  refine ⟨hsettings.runner, hversion, fun step hstep hget => ?_⟩
  -- an empty value would be that of an entry, and no entry has one
  obtain ⟨e, hfind, he⟩ := Option.map_eq_some_iff.1 hget
  have hmem := List.mem_of_find?_eq_some hfind
  rcases henv step hstep with h | h | h
  · rw [h] at hmem
    cases hmem
  · rw [h] at hmem
    obtain rfl : e = ("DAGGER_VERSION", p.settings.daggerVersion) :=
      List.mem_singleton.1 hmem
    exact hsettings.version he
  · rw [h] at hmem
    exact ne_empty_of_mem_execEnvironment hsettings hmodule hmem he

end Pipeline

/-! ## Registries -/

namespace Registry

/-- The settings of a registry after any history, and those of its triggers next
to what they were declared with. -/
theorem settings_addEach (settings : Settings)
    (ds : List (PipelineSpec × Conditions)) :
    ((empty settings).addEach ds).settings = settings.normalized ∧
      ∀ kind, List.Forall₂ (Trigger.Declares settings.normalized)
        ((additions ds).filter (·.2.kind = kind))
        (((empty settings).addEach ds).triggersOf kind) := by
  obtain ⟨hsettings, htriggers⟩ := (empty settings).addEach_spec ds
  refine ⟨hsettings, fun kind => ?_⟩
  obtain ⟨added, hadded, hdeclares⟩ := htriggers kind
  have hnone : (empty settings).triggersOf kind = [] := by cases kind <;> rfl
  rw [hadded, hnone, List.nil_append]
  exact hdeclares

/-- Every trigger of a registry with a history has been declared. -/
theorem exists_declares {settings : Settings}
    {ds : List (PipelineSpec × Conditions)} {t : Registered}
    (h : t ∈ ((empty settings).addEach ds).triggers) :
    ∃ spec, Pipeline.ofSpec spec settings.normalized =
      .ok t.trigger.pipeline := by
  obtain ⟨kind, -, hmem⟩ := List.mem_flatMap.1 h
  obtain ⟨i, hi, rfl⟩ := List.mem_mapIdx.1 hmem
  obtain ⟨hlength, hget⟩ :=
    List.forall₂_iff_get.1 ((settings_addEach settings ds).2 kind)
  exact ⟨_, (hget i (hlength ▸ hi) hi).1⟩

/-- A registry with a history and no empty text anywhere: not in its settings,
nor in those of its pipelines, which have the runner that they were declared
with and all else from the registry, nor where a workflow names its machine and
its version. -/
structure IsNormal (r : Registry) (ds : List (PipelineSpec × Conditions)) :
    Prop where
  settings : r.settings.IsNormal
  pipelines : ∀ kind, List.Forall₂
    (fun d t => t.pipeline.settings.IsNormal ∧
      t.pipeline.settings =
        { r.settings with runner := d.1.runnerUnder r.settings })
    ((additions ds).filter (·.2.kind = kind)) (r.triggersOf kind)
  workflows : ∀ t ∈ r.triggers, ∀ w, t.trigger.workflow.result = .ok w →
    ∀ e ∈ w.jobs.entries, e.2.runsOn ≠ "" ∧
      (∃ step ∈ e.2.steps, step.env.get? "DAGGER_VERSION" =
        some r.settings.daggerVersion) ∧
      ∀ step ∈ e.2.steps, step.env.get? "DAGGER_VERSION" ≠ some ""

theorem isNormal_addEach (settings : Settings)
    (ds : List (PipelineSpec × Conditions)) :
    ((empty settings).addEach ds).IsNormal ds := by
  have hnormal := Settings.isNormal_normalized settings
  obtain ⟨hsettings, hdeclares⟩ := settings_addEach settings ds
  constructor
  · rw [hsettings]
    exact hnormal
  · intro kind
    rw [hsettings]
    refine (hdeclares kind).imp fun d t hd => ?_
    rw [(Pipeline.ofSpec_fields hd.1).2.2]
    exact ⟨Settings.isNormal_forRunner _ _, hnormal.forRunner_eq d.1⟩
  · intro t ht w hw
    obtain ⟨spec, hspec⟩ := exists_declares ht
    obtain ⟨w', hw', hon⟩ := Traced.exists_of_bind_ok hw
    cases hon
    have hversion : t.trigger.pipeline.settings.daggerVersion =
        settings.normalized.daggerVersion := by
      rw [(Pipeline.ofSpec_fields hspec).2.2, hnormal.forRunner_eq spec]
    have hnames := Pipeline.names_of_workflowWith hspec hw'
    rw [hversion] at hnames
    rw [hsettings]
    exact hnames

end Registry

/-- Settings as chosen on a command line are the settings with the chosen
values, made normal. -/
theorem SettingsChoice.settings_eq (c : SettingsChoice) :
    c.settings = Settings.normalized {
      publicToken := c.publicToken
      daggerVersion := c.daggerVersion.getD "latest"
      noTraces := c.noTraces
      stopEngine := c.stopEngine
      asJson := c.asJson
      runner := c.runner.getD "ubuntu-latest" } := by
  obtain ⟨token, version, noTraces, stopEngine, asJson, runner⟩ := c
  cases token <;> cases version <;> cases runner <;> rfl

namespace Settings

/-- Settings are made normal by whoever takes them, and stay so: `normalized`
fills what is empty and touches nothing else, no change undoes it, and it does
not matter who is the first to do it. So a registry is normal after any
history. -/
theorem normal_throughout :
    (∀ s : Settings, s.normalized.IsNormal ∧
      s.normalized = { s with
        runner := if s.runner = "" then "ubuntu-latest" else s.runner
        daggerVersion := if s.daggerVersion = "" then "latest"
          else s.daggerVersion
        publicToken :=
          if s.publicToken = some "" then none else s.publicToken } ∧
      (s.IsNormal → s.normalized = s)) ∧
    (∀ (s : Settings) (changes : List Change),
      s.IsNormal → (s.applyAll changes).IsNormal) ∧
    (∀ (raw : Settings) (ds : List (PipelineSpec × Conditions)),
      ((Registry.empty raw).addEach ds).settings = raw.normalized ∧
        ((Registry.empty raw).addEach ds).IsNormal ds) ∧
    (∀ (spec : PipelineSpec) (raw : Settings),
      Pipeline.ofSpec spec raw = Pipeline.ofSpec spec raw.normalized) ∧
    ∀ c : SettingsChoice, c.settings = normalized {
      publicToken := c.publicToken
      daggerVersion := c.daggerVersion.getD "latest"
      noTraces := c.noTraces
      stopEngine := c.stopEngine
      asJson := c.asJson
      runner := c.runner.getD "ubuntu-latest" } := by
  refine ⟨fun s =>
    ⟨isNormal_normalized s, normalized_eq s, fun h => h.normalized_eq_self⟩,
    fun s changes h => h.applyAll changes, fun raw ds => ?_,
    fun spec raw => (Pipeline.ofSpec_normalized spec raw).symm,
      SettingsChoice.settings_eq⟩
  exact ⟨(Registry.settings_addEach raw ds).1, Registry.isNormal_addEach raw ds⟩

end Settings

end DaggerWorkflows
