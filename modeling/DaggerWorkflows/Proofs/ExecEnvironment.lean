import DaggerWorkflows.Proofs.NormalSettings

/-!
# What a command finds in its environment

The variables of a command come from four sources: the command itself and its
module, the secrets that were declared, the settings, and the table of what is
known about a run. `PipelineSpec.variablesUnder` lists them as the user's own
words give them, before any pipeline has been made, and the environment of the
step that runs the command is that list read first come, first served.
-/

namespace DaggerWorkflows

/-- The variables of a command in the order in which they are claimed. -/
def PipelineSpec.variablesUnder (spec : PipelineSpec) (settings : Settings) :
    List (String × String) :=
  let token := (settings.publicToken.filter (· ≠ "")).getD
    "$\x7b\x7b secrets.DAGGER_CLOUD_TOKEN \x7d\x7d"
  [("COMMAND", "dagger call -q " ++ spec.command)]
    ++ spec.secrets.map (fun s => (s, "$\x7b\x7b secrets." ++ s ++ " \x7d\x7d"))
    ++ ((spec.module.filter (· ≠ "")).map fun m => ("DAGGER_MODULE", m)).toList
    ++ (if settings.noTraces then []
      else [("DAGGER_CLOUD_TOKEN", token),
        ("_EXPERIMENTAL_DAGGER_CLOUD_TOKEN", token)])
    ++ ContextKey.all.map fun k =>
      ("GITHUB_" ++ k.key.map Char.toUpper, "$\x7b\x7b github." ++ k.key ++
        " \x7d\x7d")

namespace Settings

theorem publicToken_forRunner (s : Settings) (runner : Option String) :
    (s.forRunner runner).publicToken = s.publicToken.filter (· ≠ "") := by
  have hnormal : s.normalized.publicToken = s.publicToken.filter (· ≠ "") := by
    rw [normalized_eq]
    cases s.publicToken with
    | none => rfl
    | some token => by_cases h : token = "" <;> simp [h, Option.filter]
  unfold forRunner
  cases runner.filter (!·.isEmpty) <;> exact hnormal

theorem noTraces_forRunner (s : Settings) (runner : Option String) :
    (s.forRunner runner).noTraces = s.noTraces := by
  unfold forRunner
  cases runner.filter (!·.isEmpty) <;> rfl

end Settings

namespace Pipeline

variable {p : Pipeline} {scripts : ScriptSource} {spec : PipelineSpec}
  {settings : Settings}

theorem execVariables_of_ofSpec (hp : ofSpec spec settings = .ok p) :
    p.execVariables = spec.variablesUnder settings := by
  obtain ⟨hcommand, hsecrets, hsettings⟩ := ofSpec_fields hp
  have hmodule : p.module = spec.module.filter (· ≠ "") := by
    rw [ofSpec_module hp]
    congr 1
    funext m
    by_cases hm : m = "" <;> simp [hm]
  have hexpression : ∀ path name, ContextKey.expressionOf (path ++ name) =
      "$\x7b\x7b " ++ path ++ name ++ " \x7d\x7d" := by
    intro path name
    simp [ContextKey.expressionOf, String.append_assoc]
  unfold execVariables PipelineSpec.variablesUnder
  rw [hcommand, hsecrets, hmodule, hsettings, Settings.publicToken_forRunner,
    Settings.noTraces_forRunner]
  simp only [secretExpression, ContextKey.expression, hexpression]
  rfl

theorem get?_execEnvironment (hp : ofSpec spec settings = .ok p)
    (name : String) :
    p.execEnvironment.values.get? name =
      (spec.variablesUnder settings).lookup name := by
  rw [execEnvironment, StepEnvironment.get?_addAll, execVariables_of_ofSpec hp]
  rfl

theorem id_of_scriptStep {id : String} {env : SortedMap String} {step : Step}
    (h : scriptStep scripts id env = .ok step) : step.id = some id := by
  obtain ⟨body, -, rfl⟩ := scriptStep_ok h
  rfl

/-- Of the steps of a job only one has the name of the command's script. -/
theorem filter_exec_steps {steps : List Step}
    (h : (p.steps scripts).result = .ok steps) :
    ∃ step, steps.filter (·.id = some "exec") = [step] ∧
      step.env = p.execEnvironment.values := by
  obtain ⟨install, warm, exec, stop, hinstall, hwarm, hexec, hstop, rfl⟩ :=
    steps_ok h
  obtain ⟨body, -, hstep⟩ := scriptStep_ok hexec
  have hcheckout : p.checkoutStep.id = none := by
    unfold checkoutStep
    cases p.sparseCheckout <;> rfl
  have hlast : stop.filter (·.id = some "exec") = [] := by
    split at hstop
    · obtain ⟨step, hstep, rfl⟩ := hstop
      exact List.filter_cons_of_neg (by rw [id_of_scriptStep hstep]; decide)
    · rw [hstop]
      rfl
  refine ⟨exec, ?_, by rw [hstep]⟩
  rw [List.filter_append, hlast, List.append_nil,
    List.filter_cons_of_neg (by rw [hcheckout]; decide),
    List.filter_cons_of_neg (by rw [id_of_scriptStep hinstall]; decide),
    List.filter_cons_of_neg (by rw [id_of_scriptStep hwarm]; decide),
    List.filter_cons_of_pos (by rw [id_of_scriptStep hexec]; decide)]
  rfl

theorem warnings_workflowWith {w : Workflow} (hp : ofSpec spec settings = .ok p)
    (hw : (p.workflowWith scripts).result = .ok w) :
    (p.workflowWith scripts).events.filter (·.severity = .warning) =
      StepEnvironment.conflicts (spec.variablesUnder settings) := by
  obtain ⟨count, hevents⟩ := events_workflowWith hw
  rw [hevents, execEnvironment, StepEnvironment.events_addAll,
    execVariables_of_ofSpec hp,
    List.filter_append,
      List.filter_eq_self.2 StepEnvironment.severity_of_mem_conflicts]
  exact List.append_nil _

/-- The step that runs the command is the one step of that name, and its
environment has for each name what the list of variables has first for it, in
the order of the names. The warnings of a compilation are the conflicts of the
list: a variable whose name was taken is told about if it says something else
than what is kept. -/
theorem execEnvironment_first_wins {w : Workflow}
    (hp : ofSpec spec settings = .ok p)
    (hw : (p.workflowWith scripts).result = .ok w) :
    ∃ job step, w.jobs.entries = [("dagger", job)] ∧
      job.steps.filter (·.id = some "exec") = [step] ∧
      step.env.keys.Pairwise (· < ·) ∧
      (∀ name, name ∈ step.env.keys ↔
        name ∈ (spec.variablesUnder settings).map (·.1)) ∧
      (∀ name,
        step.env.get? name = (spec.variablesUnder settings).lookup name) ∧
      (p.workflowWith scripts).events.filter (·.severity = .warning) =
        StepEnvironment.conflicts (spec.variablesUnder settings) := by
  obtain ⟨steps, hsteps, rfl⟩ := workflowWith_ok hw
  obtain ⟨step, hstep, henv⟩ := filter_exec_steps hsteps
  have hget : ∀ name,
      step.env.get? name = (spec.variablesUnder settings).lookup name := by
    intro name
    rw [henv, get?_execEnvironment hp]
  refine ⟨_, step, rfl, hstep, List.pairwise_map.2 step.env.ascending,
    fun name => ?_, hget, warnings_workflowWith hp hw⟩
  rw [SortedMap.mem_keys_iff, hget, ← Option.isSome_iff_exists,
    List.lookup_isSome_iff, List.mem_map]
  simp only [beq_iff_eq]
  exact exists_congr fun e => and_congr_right fun _ => eq_comm

/-- Secrets with the names of the command, of one another and of a context
key. -/
theorem execEnvironment_first_wins_collisions :
    let spec : PipelineSpec :=
      ⟨"build", some "", none, ["COMMAND", "TOKEN", "TOKEN", "GITHUB_SHA"],
        none⟩
    ∃ p w, ofSpec spec .default = .ok p ∧ p.workflow.result = .ok w ∧
      p.workflow.events.filter (·.severity = .warning) = [
        .variableKept "COMMAND" "dagger call -q build"
          "$\x7b\x7b secrets.COMMAND \x7d\x7d",
        .variableKept "GITHUB_SHA" "$\x7b\x7b secrets.GITHUB_SHA \x7d\x7d"
          "$\x7b\x7b github.sha \x7d\x7d"] := by
  intro spec
  have hspec : SaysSomething spec.command :=
    saysSomething_iff.2 (by decide +kernel)
  obtain ⟨p, hp⟩ := ofSpec_ok hspec .default
  have hnames : SecretName.firstInvalid? p.secrets = none := by
    rw [(ofSpec_fields hp).2.1]
    decide +kernel
  obtain ⟨steps, hw⟩ := p.workflow_result
  rw [hnames] at hw
  obtain ⟨job, step, -, -, -, -, -, hwarnings⟩ :=
    execEnvironment_first_wins hp hw
  refine ⟨p, _, hp, hw, hwarnings.trans ?_⟩
  decide +kernel

end Pipeline

end DaggerWorkflows
