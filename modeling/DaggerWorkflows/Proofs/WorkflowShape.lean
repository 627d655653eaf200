import DaggerWorkflows.Proofs.CompiledWorkflow
import DaggerWorkflows.Proofs.Outcomes
import DaggerWorkflows.Proofs.PathComponents
import DaggerWorkflows.Proofs.SortedMaps

/-!
# The shape of a compiled workflow

A pipeline says which scripts its job runs (`Pipeline.scriptIds`), and a source
has some of them. Compiling is one walk over that list: `steps_result` says so,
and since the walk stops at the first script that is not there (`mapM_error`),
the list says all about how compiling fails and about the steps when it does
not. A workflow that comes out refers only to steps that it has, and its first
step has the paths to check out as one text, from whose lines they can be read
again (`split_intercalate`).
-/

namespace DaggerWorkflows

namespace Text

/-- What stands behind each occurrence of a part in a text. -/
def restsBehind (part text : String) : List (List Char) :=
  (text.toList.tails.filter (part.toList.isPrefixOf ·)).map (·.drop part.length)

/-- The lines of a text. -/
def lines (text : String) :
    List String := (split '\n' text.toList).map String.ofList

theorem filter_tails_append {c : Char} {part before : List Char}
    (h : c ∉ before) (cs : List Char) :
    (before ++ cs).tails.filter ((c :: part).isPrefixOf ·) =
      cs.tails.filter ((c :: part).isPrefixOf ·) := by
  induction before with
  | nil => rfl
  | cons d before ih =>
      have hne : (c == d) = false := by simpa using fun hc => h (by simp [hc])
      rw [List.cons_append, List.tails,
        List.filter_cons_of_neg (by simp [List.isPrefixOf, hne])]
      exact ih fun hc => h (List.mem_cons_of_mem d hc)

/-- A part does not begin where its first character does not stand. -/
theorem restsBehind_append {part before : String} {c : Char}
    (hpart : part.toList.head? = some c) (h : c ∉ before.toList)
    (text : String) :
    restsBehind part (before ++ text) = restsBehind part text := by
  obtain ⟨rest, hrest⟩ := List.head?_eq_some_iff.1 hpart
  simp only [restsBehind, String.toList_append, hrest, filter_tails_append h]

/-- A part whose first character does not come again is found once. -/
theorem restsBehind_self_append {part text : String} {c : Char}
    {rest : List Char} (hpart : part.toList = c :: rest) (hrest : c ∉ rest)
    (htext : c ∉ text.toList) :
    restsBehind part (part ++ text) = [text.toList] := by
  have hlater : (rest ++ text.toList).tails.filter ((c :: rest).isPrefixOf ·) =
      [] := by
    have habsent : c ∉ rest ++ text.toList := by simp [hrest, htext]
    have hnone : _ = ([] : List Char).tails.filter ((c :: rest).isPrefixOf ·) :=
      filter_tails_append habsent []
    rwa [List.append_nil] at hnone
  have hhere : (c :: rest).isPrefixOf (c :: (rest ++ text.toList)) = true :=
    List.isPrefixOf_iff_prefix.2 (List.prefix_append (c :: rest) text.toList)
  rw [restsBehind, String.toList_append, ← String.length_toList, hpart,
    List.cons_append, List.tails, List.filter_cons_of_pos hhere, hlater]
  simp

/-- Texts without a separator are the parts of what joining them gives. -/
theorem split_intercalate {separator : Char} {texts : List String}
    (hne : texts ≠ []) (h : ∀ text ∈ texts, separator ∉ text.toList) :
    (split separator
      (String.intercalate (String.singleton separator) texts).toList).map
      String.ofList = texts := by
  induction texts with
  | nil => exact absurd rfl hne
  | cons first texts ih =>
      have hfirst : separator ∉ first.toList := h first List.mem_cons_self
      cases texts with
      | nil => simp [split_of_not_mem hfirst]
      | cons second texts =>
          have hrest := ih (by simp) fun text htext =>
            h text (List.mem_cons_of_mem _ htext)
          have hjoin : (String.intercalate (String.singleton separator)
              (first :: second :: texts)).toList = first.toList ++ separator ::
                (String.intercalate (String.singleton separator)
                  (second :: texts)).toList := by
            simp
          rw [hjoin, split_append_cons, split_of_not_mem hfirst,
            List.map_append, hrest]
          simp

end Text

theorem ScriptSource.find_eq (source : ScriptSource) (name : String) :
    source.find name =
      (source.entries.lookup name).elim (.error (.scriptUnavailable name))
      .ok := by
  unfold find
  induction source.entries with
  | nil => rfl
  | cons e entries ih =>
      obtain ⟨key, body⟩ := e
      by_cases h : key = name
      · simp [h]
      · have hne : (name == key) = false := by simpa using Ne.symm h
        simpa [List.lookup_cons, hne, h] using ih

/-- The names of the steps of a job that have one. -/
def Job.stepIds (job : Job) : List String := job.steps.filterMap (·.id)

/-- Whether a character may stand in the name of a step. -/
def Step.isIdChar (c : Char) : Bool := c.isAlphanum || c == '_' || c == '-'

/-- The names of steps that an expression refers to. -/
def Step.references (text : String) : List String :=
  (Text.restsBehind "steps." text).map fun rest =>
    String.ofList (rest.takeWhile isIdChar)

/-- A step that runs a script of a source under the name of the script. -/
structure Step.RunsScript (scripts : ScriptSource) (id : String) (step : Step) :
    Prop where
  named : step.name = "scripts/" ++ id ++ ".sh"
  known : step.id = some id
  action : ∃ body, scripts.entries.lookup id = some body ∧
    step.action = .run "bash" body

/-- What a step gives its action under a name. -/
def Step.input? (step : Step) (name : String) : Option String :=
  step.inputs?.bind (·.get? name)

theorem Step.input?_withInput (name action key value : String) :
    ((Step.uses name action).withInput key value).input? key = some value :=
  SortedMap.get?_insert_self .empty key value

namespace Pipeline

variable {p : Pipeline} {scripts : ScriptSource}

/-- The scripts that the job of a pipeline runs, in order. -/
def scriptIds (p : Pipeline) : List String :=
  ["install-dagger", "warm-engine", "exec"]
    ++ (if p.settings.stopEngine then ["stop-engine"] else [])

/-- The variables that a script is run with. -/
def scriptVariables (p : Pipeline) (id : String) : SortedMap String :=
  if id = "install-dagger" then SortedMap.empty.insert "DAGGER_VERSION"
    p.settings.daggerVersion
  else if id = "exec" then p.execEnvironment.values
  else .empty

/-- A step that checks out the repository: all of it, unless paths are listed.
Then these are the lines of an input, and the places where modules are found
come behind them. -/
structure IsCheckout (p : Pipeline) (step : Step) : Prop where
  action : ∃ inputs,
    step = ⟨"Checkout", none, .uses "actions/checkout@v4" inputs, .empty⟩
  sparse : (step.input? "sparse-checkout").isSome = p.sparseCheckout.isSome
  paths : ∀ paths text, p.sparseCheckout = some paths →
    step.input? "sparse-checkout" = some text →
      (∀ path ∈ paths, '\n' ∉ path.toList) →
      Text.lines text = paths ++ ["dagger.json", ".dagger", "dagger", "ci"]

/-- The job of a pipeline: the checkout and the scripts, one after the other. No
two of its steps have one name, and what it hands on refers to a step that it
has. -/
structure IsJob (p : Pipeline) (scripts : ScriptSource) (job : Job) : Prop where
  steps : ∃ checkout rest, job.steps = checkout :: rest ∧
    p.IsCheckout checkout ∧
    List.Forall₂ (fun id step => step.RunsScript scripts id) p.scriptIds rest
  distinct : job.stepIds.Nodup
  outputs : job.outputs.keys = ["stderr", "stdout"]
  references : ∀ output ∈ job.outputs.entries,
    ∃ id ∈ job.stepIds, Step.references output.2 = [id]

/-- The steps of a job are the checkout and then one step for each script of the
list. -/
theorem steps_result (p : Pipeline) (scripts : ScriptSource) :
    (p.steps scripts).result =
      (p.scriptIds.mapM fun id =>
        scriptStep scripts id (p.scriptVariables id)).map
        (p.checkoutStep :: ·) := by
  have hinstall : p.scriptVariables Script.installDagger =
      SortedMap.empty.insert "DAGGER_VERSION" p.settings.daggerVersion := rfl
  have hwarm : p.scriptVariables Script.warmEngine = .empty := rfl
  have hexec : p.scriptVariables Script.exec = p.execEnvironment.values := rfl
  have hstop : p.scriptVariables Script.stopEngine = .empty := rfl
  have hids :
    p.scriptIds = [Script.installDagger, Script.warmEngine, Script.exec]
      ++ (if p.settings.stopEngine then [Script.stopEngine] else []) := rfl
  unfold steps
  rw [hids]
  simp only [Traced.bind_eq, Traced.result_bind, List.cons_append,
    List.nil_append, List.mapM_cons, hinstall, hwarm, hexec]
  cases scriptStep scripts Script.installDagger _ with
  | error e => rfl
  | ok install =>
      cases scriptStep scripts Script.warmEngine .empty with
      | error e => rfl
      | ok warm =>
          cases scriptStep scripts Script.exec _ with
          | error e => rfl
          | ok exec =>
              cases p.settings.stopEngine with
              | false => rfl
              | true =>
                  simp only [if_true, List.mapM_cons, hstop]
                  cases scriptStep scripts Script.stopEngine .empty <;> rfl

theorem exists_scriptStep {id : String} (h : scripts.entries.lookup id ≠ none)
    (env : SortedMap String) :
    ∃ step, scriptStep scripts id env = .ok step := by
  obtain ⟨body, hbody⟩ := Option.ne_none_iff_exists'.1 h
  unfold scriptStep
  rw [scripts.find_eq, hbody]
  exact ⟨_, rfl⟩

theorem scriptStep_of_missing {id : String} {env : SortedMap String}
    (h : scripts.entries.lookup id = none) :
    scriptStep scripts id env = .error (.scriptUnavailable id) := by
  unfold scriptStep
  rw [scripts.find_eq, h]
  rfl

theorem runsScript_of_scriptStep {id : String} {env : SortedMap String}
    {step : Step} (h : scriptStep scripts id env = .ok step) :
    step.RunsScript scripts id := by
  obtain ⟨body, hbody, rfl⟩ := scriptStep_ok h
  rw [scripts.find_eq] at hbody
  cases hlookup : scripts.entries.lookup id with
  | none =>
      rw [hlookup] at hbody
      cases hbody
  | some body' =>
      rw [hlookup] at hbody
      cases hbody
      exact ⟨rfl, rfl, body, hlookup, rfl⟩

/-! ## The job -/

theorem nodup_scriptIds (p : Pipeline) : p.scriptIds.Nodup := by
  unfold scriptIds
  cases p.settings.stopEngine <;> decide

theorem filterMap_id_of_runsScript {ids : List String} {steps : List Step}
    (h : List.Forall₂ (fun id step => step.RunsScript scripts id) ids steps) :
    steps.filterMap (·.id) = ids := by
  induction h with
  | nil => rfl
  | cons hstep _ ih => rw [List.filterMap_cons_some hstep.known, ih]

theorem isCheckout_checkoutStep (p : Pipeline) :
    p.IsCheckout p.checkoutStep := by
  unfold checkoutStep
  cases hpaths : p.sparseCheckout with
  | none =>
      refine ⟨⟨.empty, rfl⟩, by rw [hpaths]; rfl, fun paths text h => ?_⟩
      cases hpaths.symm.trans h
  | some paths =>
      have hinput :=
        Step.input?_withInput "Checkout" "actions/checkout@v4" "sparse-checkout"
        (String.intercalate "\n" (paths ++ discoveryPaths))
      refine ⟨⟨_, rfl⟩, by
        rw [hpaths, hinput]; rfl, fun paths' text h htext hlines => ?_⟩
      cases hpaths.symm.trans h
      cases hinput.symm.trans htext
      refine Text.split_intercalate (by simp [discoveryPaths]) fun path hpath =>
        ?_
      have hplaces : ∀ path ∈ discoveryPaths, '\n' ∉ path.toList := by decide
      exact (List.mem_append.1 hpath).elim (hlines path) (hplaces path)

/-- The job of a pipeline whose scripts are all there. -/
theorem isJob_of_runsScript {steps : List Step}
    (hsteps : List.Forall₂ (fun id step => step.RunsScript scripts id)
      p.scriptIds steps) :
    p.IsJob scripts ⟨p.settings.runner, p.checkoutStep :: steps, outputs⟩ := by
  have hcheckout := p.isCheckout_checkoutStep
  obtain ⟨inputs, haction⟩ := hcheckout.action
  have hids : Job.stepIds ⟨p.settings.runner, p.checkoutStep :: steps,
      outputs⟩ = p.scriptIds := by
    rw [Job.stepIds, List.filterMap_cons_none (by rw [haction])]
    exact filterMap_id_of_runsScript hsteps
  have houtputs : outputs.keys = ["stderr", "stdout"] := by decide +kernel
  have hreferences : ∀ output ∈ outputs.entries, Step.references output.2 =
      ["exec"] := by
    decide +kernel
  have hexec : "exec" ∈ p.scriptIds := by simp [scriptIds]
  exact ⟨⟨_, _, rfl, hcheckout, hsteps⟩, hids ▸ p.nodup_scriptIds, houtputs,
    fun output houtput => ⟨"exec", hids ▸ hexec, hreferences output houtput⟩⟩

/-- What a pipeline compiles to. A secret that is no name is what is told of
first, then the first script that is not there. Without either there is a
workflow, which nothing starts yet, and which has the job of the pipeline. -/
theorem workflowWith_shape (p : Pipeline) (scripts : ScriptSource) :
    match p.secrets.find? (fun name => ¬ SecretName.IsName name) with
    | some name =>
      (p.workflowWith scripts).result = .error (.invalidSecretName name)
    | none =>
        match p.scriptIds.find? (fun id => scripts.entries.lookup id = none)
          with
        | some id =>
          (p.workflowWith scripts).result = .error (.scriptUnavailable id)
        | none =>
          ∃ w job, (p.workflowWith scripts).result = .ok w ∧ w.on = .none ∧
            w.jobs.entries = [("dagger", job)] ∧ p.IsJob scripts job := by
  split
  · next name hname =>
      have hcheck := SecretName.check_result p.secrets
      rw [SecretName.firstInvalid?_eq, hname] at hcheck
      exact Traced.result_bind_error hcheck _
  · next hnames =>
      rw [← SecretName.firstInvalid?_eq, SecretName.firstInvalid?_eq_none]
        at hnames
      rw [workflowWith_of_names hnames, steps_result]
      split
      · next id hid =>
          obtain ⟨hmissing, before, after, hids, hbefore⟩ :=
            List.find?_eq_some_iff_append.1 hid
          have hthere : ∀ id' ∈ before, ∃ step,
              scriptStep scripts id' (p.scriptVariables id') = .ok step := by
            intro id' hid'
            have hlookup := hbefore id' hid'
            rw [Bool.not_eq_true', decide_eq_false_iff_not] at hlookup
            exact exists_scriptStep hlookup _
          rw [hids, mapM_error hthere
            (scriptStep_of_missing (of_decide_eq_true hmissing))]
          rfl
      · next hids =>
          have hthere : ∀ id ∈ p.scriptIds, ∃ step,
              scriptStep scripts id (p.scriptVariables id) = .ok step := by
            intro id hid
            have hlookup := List.find?_eq_none.1 hids id hid
            rw [decide_eq_true_eq] at hlookup
            exact exists_scriptStep hlookup _
          obtain ⟨steps, hsteps⟩ := exists_mapM_ok hthere
          rw [hsteps]
          refine ⟨_, _, rfl, rfl, rfl, isJob_of_runsScript ?_⟩
          exact (forall₂_of_mapM_ok hsteps).imp fun id step =>
            runsScript_of_scriptStep

end Pipeline

end DaggerWorkflows
