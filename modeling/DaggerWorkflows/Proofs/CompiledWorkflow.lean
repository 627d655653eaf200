import DaggerWorkflows.Trigger

/-!
# What a pipeline compiles to

Compiling can fail for one reason only, a secret that is no name: the scripts
are part of the program, so they are always there, and writing data as text
cannot fail. `Pipeline.workflow_result` says this, and `Trigger.file_result`
what it means for the file of a trigger.
-/

namespace DaggerWorkflows

/-- What is asked of a secret: it is not empty, and holds nothing but letters
and digits of ASCII and underscores. -/
def SecretName.IsName (name : String) : Prop :=
  name ≠ "" ∧ ∀ c ∈ name.toList, c.isAlphanum = true ∨ c = '_'

namespace SecretName

theorem isValid_iff (name : String) : isValid name = true ↔ IsName name := by
  simp [isValid, IsName, isAllowed]

instance (name : String) :
    Decidable (IsName name) := decidable_of_iff _ (isValid_iff name)

/-- The first invalid name is the first of which not all is true that is asked
of a name. -/
theorem firstInvalid?_eq (names : List String) :
    firstInvalid? names = names.find? fun name => ¬ IsName name := by
  unfold firstInvalid?
  congr 1
  funext name
  simp [← isValid_iff]

theorem firstInvalid?_eq_none {names : List String} :
    firstInvalid? names = none ↔ ∀ name ∈ names, IsName name := by
  simp [firstInvalid?_eq]

theorem check_result (names : List String) :
    (check names).result =
      match firstInvalid? names with
      | none => .ok ()
      | some name => .error (.invalidSecretName name) := by
  unfold check
  cases firstInvalid? names <;> rfl

end SecretName

namespace Traced

variable {α β : Type}

theorem result_bind_ok {x : Traced α} {a : α} (h : x.result = .ok a)
    (f : α → Traced β) :
    (x >>= f).result = (f a).result := by
  rw [bind_eq, result_bind, h]
  rfl

theorem result_bind_error {x : Traced α} {e : Error} (h : x.result = .error e)
    (f : α → Traced β) : (x >>= f).result = .error e := by
  rw [bind_eq, result_bind, h]
  rfl

theorem events_bind_ok {x : Traced α} {a : α} (h : x.result = .ok a)
    (f : α → Traced β) :
    (x >>= f).events = x.events ++ (f a).events := by
  rw [bind_eq, bind, h]

theorem exists_of_bind_ok {x : Traced α} {f : α → Traced β} {b : β}
    (h : (x >>= f).result = .ok b) :
    ∃ a, x.result = .ok a ∧ (f a).result = .ok b := by
  cases hx : x.result with
  | error e =>
      rw [result_bind_error hx] at h
      cases h
  | ok a =>
      rw [result_bind_ok hx] at h
      exact ⟨a, rfl, h⟩

theorem error_of_bind {x : Traced α} {f : α → Traced β} {e : Error}
    (h : (x >>= f).result = .error e) :
    x.result = .error e ∨ ∃ a, x.result = .ok a ∧ (f a).result = .error e := by
  cases hx : x.result with
  | error e' =>
      rw [result_bind_error hx] at h
      cases h
      exact .inl rfl
  | ok a =>
      rw [result_bind_ok hx] at h
      exact .inr ⟨a, rfl, h⟩

end Traced

namespace Pipeline

variable {p : Pipeline} {scripts : ScriptSource}

theorem scriptStep_bundled (id : String) (env : SortedMap String)
    (h : id ∈ [Script.installDagger, Script.warmEngine, Script.exec,
      Script.stopEngine]) :
    ∃ step, scriptStep Script.bundled id env = .ok step := by
  simp only [List.mem_cons, List.not_mem_nil, or_false] at h
  rcases h with rfl | rfl | rfl | rfl <;> exact ⟨_, rfl⟩

theorem scriptStep_ok {id : String} {env : SortedMap String} {step : Step}
    (h : scriptStep scripts id env = .ok step) :
    ∃ body, scripts.find id = .ok body ∧
      step = ⟨s!"scripts/{id}.sh", some id, .run "bash" body, env⟩ := by
  unfold scriptStep at h
  cases hbody : scripts.find id with
  | error e =>
      rw [hbody] at h
      cases h
  | ok body =>
      rw [hbody] at h
      cases h
      exact ⟨body, rfl, rfl⟩

/-- The steps of a job that compiles: the checkout, then one step for each
script that is asked for. -/
theorem steps_ok {steps : List Step}
    (h : (p.steps scripts).result = .ok steps) :
    ∃ install warm exec stop,
      scriptStep scripts Script.installDagger
        (SortedMap.empty.insert "DAGGER_VERSION" p.settings.daggerVersion) =
          .ok install ∧
      scriptStep scripts Script.warmEngine .empty = .ok warm ∧
      scriptStep scripts Script.exec p.execEnvironment.values = .ok exec ∧
      (if p.settings.stopEngine then
        ∃ step, scriptStep scripts Script.stopEngine .empty = .ok step ∧
        stop = [step]
      else stop = []) ∧
      steps = [p.checkoutStep, install, warm, exec] ++ stop := by
  obtain ⟨install, hinstall, h⟩ := Traced.exists_of_bind_ok h
  obtain ⟨warm, hwarm, h⟩ := Traced.exists_of_bind_ok h
  obtain ⟨-, -, h⟩ := Traced.exists_of_bind_ok h
  obtain ⟨exec, hexec, h⟩ := Traced.exists_of_bind_ok h
  by_cases hengine : p.settings.stopEngine = true
  · simp only [hengine, if_true] at h ⊢
    obtain ⟨stop, hstop, h⟩ := Traced.exists_of_bind_ok h
    obtain ⟨step, hstep, hstop⟩ :
      ∃ step, scriptStep scripts Script.stopEngine .empty = .ok step ∧
        Except.ok [step] = (Except.ok stop : Except Error (List Step)) :=
      Traced.exists_of_bind_ok (x := Traced.ofExcept _) hstop
    cases h
    cases hstop
    exact ⟨install, warm, exec, [step], hinstall, hwarm, hexec,
      ⟨step, hstep, rfl⟩, rfl⟩
  · simp only [hengine] at h ⊢
    cases h
    exact ⟨install, warm, exec, [], hinstall, hwarm, hexec, rfl, rfl⟩

theorem workflowWith_ok {w : Workflow}
    (h : (p.workflowWith scripts).result = .ok w) :
    ∃ steps, (p.steps scripts).result = .ok steps ∧
      w = ⟨p.command, .none, OrderedMap.empty.insert jobName
        ⟨p.settings.runner, steps, outputs⟩⟩ := by
  obtain ⟨-, -, h⟩ := Traced.exists_of_bind_ok h
  obtain ⟨steps, hsteps, h⟩ := Traced.exists_of_bind_ok h
  obtain ⟨-, -, h⟩ := Traced.exists_of_bind_ok h
  cases h
  exact ⟨steps, hsteps, rfl⟩

theorem workflowWith_of_names (h : ∀ s ∈ p.secrets, SecretName.IsName s) :
    (p.workflowWith scripts).result = (p.steps scripts).result.map fun steps =>
      ⟨p.command, .none, OrderedMap.empty.insert jobName
        ⟨p.settings.runner, steps, outputs⟩⟩ := by
  have hcheck : (SecretName.check p.secrets).result = .ok () := by
    rw [SecretName.check_result, SecretName.firstInvalid?_eq_none.2 h]
  unfold workflowWith
  rw [Traced.result_bind_ok hcheck, Traced.bind_eq, Traced.result_bind]
  cases (p.steps scripts).result <;> rfl

/-- No script is missing when the scripts are those of the program. -/
theorem steps_bundled (p : Pipeline) :
    ∃ steps, (p.steps Script.bundled).result = .ok steps := by
  obtain ⟨install, hinstall⟩ := scriptStep_bundled Script.installDagger
    (SortedMap.empty.insert "DAGGER_VERSION" p.settings.daggerVersion) (by simp)
  obtain ⟨warm, hwarm⟩ := scriptStep_bundled Script.warmEngine .empty (by simp)
  obtain ⟨exec, hexec⟩ :=
    scriptStep_bundled Script.exec p.execEnvironment.values (by simp)
  obtain ⟨stop, hstop⟩ := scriptStep_bundled Script.stopEngine .empty (by simp)
  unfold steps
  simp only [hinstall, hwarm, hexec, hstop]
  rw [Traced.result_bind_ok rfl, Traced.result_bind_ok rfl,
    Traced.result_bind_ok rfl, Traced.result_bind_ok rfl]
  cases p.settings.stopEngine
  · exact ⟨_, rfl⟩
  · exact ⟨_, rfl⟩

/-- A pipeline compiles unless one of its secrets is no name. The workflow has
the name of the command, no events yet, and one job. -/
theorem workflow_result (p : Pipeline) :
    ∃ steps, p.workflow.result =
      match SecretName.firstInvalid? p.secrets with
      | none => .ok ⟨p.command, .none,
          OrderedMap.empty.insert jobName ⟨p.settings.runner, steps, outputs⟩⟩
      | some name => .error (.invalidSecretName name) := by
  obtain ⟨steps, hsteps⟩ := steps_bundled p
  refine ⟨steps, ?_⟩
  have hcheck := SecretName.check_result p.secrets
  unfold workflow workflowWith
  cases hinvalid : SecretName.firstInvalid? p.secrets with
  | some name =>
      rw [hinvalid] at hcheck
      exact Traced.result_bind_error hcheck _
  | none =>
      rw [hinvalid] at hcheck
      rw [Traced.result_bind_ok hcheck, Traced.result_bind_ok hsteps,
        Traced.result_bind_ok rfl]
      rfl

end Pipeline

namespace Trigger

/-- The file of a trigger has the compiled workflow with just the trigger's own
event. -/
theorem file_result (t : Trigger) (filename : String) (format : OutputFormat) :
    ∃ steps, (t.file filename format).result =
      match SecretName.firstInvalid? t.pipeline.secrets with
      | none => .ok ⟨FilePath.join workflowsDirectory filename,
          format.render ⟨t.pipeline.command, .only t.conditions,
            OrderedMap.empty.insert Pipeline.jobName
              ⟨t.pipeline.settings.runner, steps, Pipeline.outputs⟩⟩⟩
      | some name => .error (.invalidSecretName name) := by
  obtain ⟨steps, hworkflow⟩ := t.pipeline.workflow_result
  refine ⟨steps, ?_⟩
  unfold file workflow
  cases hinvalid : SecretName.firstInvalid? t.pipeline.secrets with
  | some name =>
      rw [hinvalid] at hworkflow
      exact Traced.result_bind_error (Traced.result_bind_error hworkflow _) _
  | none =>
      rw [hinvalid] at hworkflow
      rw [Traced.result_bind_ok ((Traced.result_bind_ok hworkflow _).trans rfl),
        Traced.result_bind_ok rfl]
      rfl

end Trigger

end DaggerWorkflows
