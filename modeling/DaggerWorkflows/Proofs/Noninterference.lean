import DaggerWorkflows.Proofs.ExecEnvironment

/-!
# What a workflow does not depend on

Three things about a pipeline are not to be seen in its workflow. The order in
which secrets were declared and how often: a secret stands for the same thing
each time, so the first of its kind is like any other. The token of the build
service, once no traces are sent: it is among the variables only if they are.
And the machine, but for the one place of the job that names it.

Each is a comparison of two runs, and each comes down to what the run reads:
`steps_congr` for the environment, `workflow_of_token` for the token, and
`workflowWith_onRunner` for the machine. Two registries with the same history
are compared trigger by trigger.
-/

namespace DaggerWorkflows

/-! ## Secrets -/

/-- A variable for each name of a list, each of them what its name makes it: a
name that is there has its variable, wherever and however often it is listed. -/
theorem lookup_map_self {f : String → String} {names : List String}
    {name : String} :
    (names.map fun s => (s, f s)).lookup name = if name ∈ names
      then some (f name) else none := by
  induction names with
  | nil => rfl
  | cons s names ih =>
      rw [List.map_cons, List.lookup_cons]
      by_cases h : name = s
      · subst h
        simp
      · rw [beq_eq_false_iff_ne.2 h, ih]
        simp [h]

namespace Pipeline

variable {p p' : Pipeline} {scripts : ScriptSource}

theorem execEnvironment_of_secrets {secrets : List String}
    (h : ∀ s, s ∈ secrets ↔ s ∈ p.secrets) :
    ({ p with secrets } : Pipeline).execEnvironment.values =
      p.execEnvironment.values := by
  refine SortedMap.ext_get? fun name => ?_
  rw [execEnvironment, execEnvironment, StepEnvironment.get?_addAll,
    StepEnvironment.get?_addAll]
  unfold execVariables
  simp only [List.lookup_append, lookup_map_self, h]

/-- The steps of a job read four things of a pipeline. -/
theorem steps_congr (hcheckout : p'.sparseCheckout = p.sparseCheckout)
    (hversion : p'.settings.daggerVersion = p.settings.daggerVersion)
    (hstop : p'.settings.stopEngine = p.settings.stopEngine)
    (henv : p'.execEnvironment.values = p.execEnvironment.values) :
    (p'.steps scripts).result = (p.steps scripts).result := by
  have hstep : p'.checkoutStep = p.checkoutStep := by
    unfold checkoutStep
    rw [hcheckout]
  unfold steps
  simp only [Traced.bind_eq, Traced.result_bind, hstep, hversion, hstop, henv]
  rfl

theorem workflow_of_secrets {secrets : List String}
    (hnames : ∀ s ∈ p.secrets, SecretName.IsName s)
    (h : ∀ s, s ∈ secrets ↔ s ∈ p.secrets) :
    ∃ w, p.workflow.result = .ok w ∧
    ({ p with secrets } : Pipeline).workflow.result = .ok w := by
  have hsteps : (({ p with secrets } : Pipeline).steps Script.bundled).result =
      (p.steps Script.bundled).result :=
    steps_congr rfl rfl rfl (execEnvironment_of_secrets h)
  have hsame : ({ p with secrets } : Pipeline).workflow.result =
      p.workflow.result := by
    unfold workflow
    rw [workflowWith_of_names hnames, workflowWith_of_names fun s hs =>
      hnames s ((h s).1 hs), hsteps]
  obtain ⟨steps, hworkflow⟩ := p.workflow_result
  rw [SecretName.firstInvalid?_eq_none.2 hnames] at hworkflow
  exact ⟨_, hworkflow, hsame.trans hworkflow⟩

end Pipeline

/-- All that a pipeline has from settings and from its runner is its own
settings. -/
theorem Pipeline.ofSpec_withSettings (spec : PipelineSpec)
    (runner : Option String) (s s' : Settings) :
    ofSpec { spec with runner } s' =
      (ofSpec spec s).map fun p =>
        { p with settings := s'.forRunner runner } := by
  unfold ofSpec
  by_cases hblank : Text.isBlankText spec.command
  · rw [dif_pos hblank, dif_pos hblank]
    rfl
  · rw [dif_neg hblank, dif_neg hblank]
    rfl

/-! ## The token -/

namespace Settings

theorem normalized_of_token (s : Settings) (token : Option String) :
    ({ s with publicToken := token } : Settings).normalized =
      { s.normalized with publicToken := token.filter (· ≠ "") } := by
  have htoken := publicToken_forRunner { s with publicToken := token } none
  simp only [normalized_eq, forRunner, Option.filter_none] at htoken ⊢
  rw [htoken]

theorem forRunner_of_token (s : Settings) (token runner : Option String) :
    ({ s with publicToken := token } : Settings).forRunner runner =
      { s.forRunner runner with publicToken := token.filter (· ≠ "") } := by
  unfold forRunner
  rw [normalized_of_token]
  cases runner.filter (!·.isEmpty) <;> rfl

end Settings

namespace Pipeline

variable {p p' : Pipeline} {scripts : ScriptSource}

/-- Without traces the token is among the variables of no command, and nothing
else reads it. -/
theorem workflowWith_of_token (h : p.settings.noTraces = true)
    (token : Option String) :
    ({ p with settings := { p.settings with publicToken := token } } :
      Pipeline).workflowWith scripts = p.workflowWith scripts := by
  have henv : ({ p with settings := { p.settings with publicToken := token } } :
      Pipeline).execEnvironment = p.execEnvironment := by
    unfold execEnvironment execVariables
    simp only [h, if_true]
  unfold workflowWith steps
  rw [henv]
  rfl

theorem workflow_of_token {spec : PipelineSpec} {s : Settings}
    {token : Option String} (hs : s.noTraces = true)
    (hp : ofSpec spec s = .ok p)
    (hp' : ofSpec spec { s with publicToken := token } = .ok p') :
    p'.workflow = p.workflow := by
  have hsettings := (ofSpec_fields hp).2.2
  have hsame :=
    ofSpec_withSettings spec spec.runner s { s with publicToken := token }
  rw [hp, Settings.forRunner_of_token, ← hsettings] at hsame
  cases hp'.symm.trans hsame
  refine workflowWith_of_token ?_ _
  rw [hsettings, Settings.noTraces_forRunner, hs]

end Pipeline

/-- Triggers for which the same workflows are written, whatever is left out of
sight. -/
def Trigger.Alike (t t' : Trigger) : Prop :=
  t'.conditions = t.conditions ∧ t'.pipeline.workflow = t.pipeline.workflow

theorem Trigger.Alike.file_eq {t t' : Trigger} (h : t.Alike t')
    (filename : String) (format : OutputFormat) :
    t'.file filename format = t.file filename format := by
  unfold Trigger.file Trigger.workflow Trigger.events Trigger.kind
  rw [h.1, h.2]

namespace Registry

theorem filesInto_of_alike {stem : String} {format : OutputFormat}
    {ts ts' : List Registered}
    (h :
      List.Forall₂ (fun t t' => t'.index = t.index ∧ t.trigger.Alike t'.trigger)
        ts ts') (tree : FileTree) :
    filesInto stem format ts' tree = filesInto stem format ts tree := by
  induction h generalizing tree with
  | nil => rfl
  | cons hhead _ ih =>
      obtain ⟨hindex, halike⟩ := hhead
      have hkind := congrArg Conditions.kind halike.1
      simp only [filesInto, Trigger.kind, hindex, hkind, halike.file_eq, ih]

/-- Two registries with the same history under settings that differ in the
token, if no traces are sent. -/
theorem alike_of_token {settings : Settings} (h : settings.noTraces = true)
    (token : Option String) (ds : List (PipelineSpec × Conditions)) :
    List.Forall₂ (fun t t' => t'.index = t.index ∧ t.trigger.Alike t'.trigger)
      ((empty settings).addEach ds).triggers
      ((empty { settings with publicToken := token }).addEach ds).triggers := by
  have hdeclares := (settings_addEach settings ds).2
  have hdeclares' :=
    (settings_addEach { settings with publicToken := token } ds).2
  refine List.rel_flatMap (R := Eq) (List.forall₂_refl _) fun kind _ heq => ?_
  subst heq
  refine forall₂_mapIdx (R := Trigger.Alike) ?_ fun i t t' halike =>
    ⟨rfl, halike⟩
  refine forall₂_comp (hdeclares kind).flip (hdeclares' kind)
    fun t d t' ht ht' => ?_
  refine ⟨ht'.2.trans ht.2.symm, ?_⟩
  have hnormal : settings.normalized.noTraces = true := h
  rw [Trigger.Declares, Settings.normalized_of_token] at ht'
  exact Pipeline.workflow_of_token hnormal ht.1 ht'.1

theorem files_of_token {settings : Settings} (h : settings.noTraces = true)
    (token : Option String) (ds : List (PipelineSpec × Conditions))
    (stem : String) :
    ((empty { settings with publicToken := token }).addEach ds).files stem =
      ((empty settings).addEach ds).files stem := by
  have hformat :
    ((empty { settings with publicToken := token }).addEach ds).format =
      ((empty settings).addEach ds).format := by
    unfold format
    rw [(settings_addEach settings ds).1, (settings_addEach _ ds).1,
      Settings.normalized_of_token]
  unfold files
  rw [hformat, filesInto_of_alike (alike_of_token h token ds)]

end Registry

/-! ## The machine -/

/-- The map with every value changed. -/
def OrderedMap.mapValues {β γ : Type} (f : β → γ) (map : OrderedMap β) :
    OrderedMap γ :=
  ⟨map.entries.map fun e => (e.1, f e.2), by
    simpa [Function.comp_def] using map.distinct⟩

/-- The workflow with all of its jobs on one machine. -/
def Workflow.onRunner (label : String) (w : Workflow) : Workflow :=
  { w with jobs := w.jobs.mapValues fun job => { job with runsOn := label } }

/-- The workflow of a description under settings. -/
def PipelineSpec.compile (spec : PipelineSpec) (settings : Settings)
    (scripts : ScriptSource) :
    Except Error Workflow := do
  let p ← Pipeline.ofSpec spec settings
  (p.workflowWith scripts).result

theorem Settings.forRunner_eq (s : Settings) (spec : PipelineSpec) :
    s.forRunner spec.runner =
      { s.normalized with runner := spec.runnerUnder s } := by
  have hnormal := (isNormal_normalized s).forRunner_eq spec
  rw [forRunner_normalized] at hnormal
  have hrunner := Manifest.runner_forRunner spec s
  rw [forRunner_normalized, hnormal] at hrunner
  rw [hnormal, ← hrunner]

namespace Pipeline

variable {scripts : ScriptSource}

/-- The machine is named once, where the job says where it runs. -/
theorem workflowWith_onRunner (p : Pipeline) (label : String) :
    (({ p with settings := { p.settings with runner := label } } :
      Pipeline).workflowWith
      scripts).result = (p.workflowWith scripts).result.map
        (·.onRunner label) := by
  have hsteps : ({ p with settings := { p.settings with runner := label } } :
    Pipeline).steps scripts = p.steps scripts := rfl
  unfold workflowWith
  rw [hsteps]
  cases hcheck : (SecretName.check p.secrets).result with
  | error e =>
      rw [Traced.result_bind_error hcheck, Traced.result_bind_error hcheck]; rfl
  | ok _ =>
      rw [Traced.result_bind_ok hcheck, Traced.result_bind_ok hcheck]
      cases hresult : (p.steps scripts).result with
      | error e =>
          rw [Traced.result_bind_error hresult,
            Traced.result_bind_error hresult]; rfl
      | ok steps =>
          rw [Traced.result_bind_ok hresult, Traced.result_bind_ok hresult]; rfl

end Pipeline

theorem PipelineSpec.compile_onRunner (spec : PipelineSpec)
    (settings : Settings) (runner : Option String) (scripts : ScriptSource) :
    { spec with runner }.compile settings scripts =
      (spec.compile settings scripts).map
        (·.onRunner ({ spec with runner }.runnerUnder settings)) := by
  unfold compile
  rw [Pipeline.ofSpec_withSettings spec runner settings settings]
  cases hp : Pipeline.ofSpec spec settings with
  | error e => rfl
  | ok p =>
      have hsettings : settings.forRunner runner =
          { p.settings with
            runner := { spec with runner }.runnerUnder settings } := by
        rw [(Pipeline.ofSpec_fields hp).2.2, settings.forRunner_eq spec]
        exact settings.forRunner_eq { spec with runner }
      rw [hsettings]
      exact p.workflowWith_onRunner _

/-- What is not to be seen in a workflow. Lists of valid secrets with the same
names, in whatever order and however often, make the same workflow. With traces
disabled, whatever is made of a history of declarations under one token is made
of it under any other, or under none. And the runner of a description has no
part in whether it compiles, nor in anything of its workflow but where the job
runs. -/
theorem Pipeline.workflow_noninterference :
    (∀ (p : Pipeline) (secrets : List String),
      (∀ s ∈ p.secrets, SecretName.IsName s) →
      (∀ s, s ∈ secrets ↔ s ∈ p.secrets) →
      ∃ w, p.workflow.result = .ok w ∧
      ({ p with secrets } : Pipeline).workflow.result = .ok w) ∧
    (∀ (settings : Settings) (token : Option String)
      (ds : List (PipelineSpec × Conditions))
      (stem : String), settings.noTraces = true →
      ((Registry.empty { settings with publicToken := token }).addEach ds).files
      stem = ((Registry.empty settings).addEach ds).files stem) ∧
    ∀ (spec : PipelineSpec) (settings : Settings) (runner : Option String)
      (scripts : ScriptSource), { spec with runner }.compile settings scripts =
        (spec.compile settings scripts).map
          (·.onRunner ({ spec with runner }.runnerUnder settings)) :=
  ⟨fun _ _ hnames h => workflow_of_secrets hnames h,
    fun _ token ds stem h => Registry.files_of_token h token ds stem,
    PipelineSpec.compile_onRunner⟩

/-- Secrets in another order and twice, one of them with the name of the
command's variable. -/
theorem Pipeline.workflow_noninterference_repeated :
    let p : Pipeline :=
      ⟨"build", none, ["COMMAND", "B", "A"], none, .default, by decide +kernel⟩
    (∀ s ∈ p.secrets, SecretName.IsName s) ∧
      ∃ w, p.workflow.result = .ok w ∧
        ({ p with secrets := ["A", "B", "A", "COMMAND"] } :
          Pipeline).workflow.result = .ok w := by
  intro p
  have hnames : ∀ s ∈ p.secrets, SecretName.IsName s := by decide +kernel
  refine ⟨hnames, workflow_noninterference.1 p _ hnames fun s => ?_⟩
  simp only [p, List.mem_cons, List.not_mem_nil, or_false]
  tauto

end DaggerWorkflows
