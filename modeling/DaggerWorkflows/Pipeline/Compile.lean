import DaggerWorkflows.ContextKey
import DaggerWorkflows.Pipeline
import DaggerWorkflows.Script
import DaggerWorkflows.SecretName
import DaggerWorkflows.Workflow

/-!
# Workflows of pipelines

A pipeline becomes a workflow of one job: check out the repository, install the
build tool, start its engine, run the command, and stop the engine if that is
asked for. The events that start the workflow are for others to say.
-/

namespace DaggerWorkflows

/-- An environment being put together, and what happened on the way. -/
structure StepEnvironment where
  values : SortedMap String
  events : List Event
deriving Repr

namespace StepEnvironment

/-- No variables. -/
def empty : StepEnvironment := ⟨.empty, []⟩

/-- Set a variable unless it is set. Setting it to another value is worth
telling about. -/
def add (env : StepEnvironment) (key value : String) : StepEnvironment :=
  match env.values.get? key with
  | none => { env with values := env.values.insert key value }
  | some kept =>
      if kept = value then env
      else { env with events := env.events ++ [.variableKept key kept value] }

/-- Set several variables one after the other. -/
def addAll (env : StepEnvironment) (entries : List (String × String)) :
    StepEnvironment :=
  entries.foldl (fun env e => env.add e.1 e.2) env

end StepEnvironment

namespace Pipeline

/-- The name of the only job. -/
def jobName : String := "dagger"

/-- The variable that holds the token of the build service. -/
def tokenVariable : String := "DAGGER_CLOUD_TOKEN"

/-- The variable in which older engines look for that token. -/
def oldTokenVariable : String := "_EXPERIMENTAL_DAGGER_CLOUD_TOKEN"

/-- Paths that are checked out in any case, since modules are found there. -/
def discoveryPaths : List String := ["dagger.json", ".dagger", "dagger", "ci"]

/-- The expression that stands for a secret. -/
def secretExpression (name : String) :
    String := ContextKey.expressionOf ("secrets." ++ name)

/-- The variables that the command is run with, in the order they are set in:
what comes first cannot be taken by what comes later. -/
def execVariables (p : Pipeline) : List (String × String) :=
  let token := p.settings.publicToken.getD (secretExpression tokenVariable)
  [("COMMAND", "dagger call -q " ++ p.command)]
    ++ p.secrets.map (fun s => (s, secretExpression s))
    ++ (p.module.map fun m => ("DAGGER_MODULE", m)).toList
    ++ (if p.settings.noTraces then []
        else [(tokenVariable, token), (oldTokenVariable, token)])
    ++ ContextKey.all.map (fun k => (k.envName, k.expression))

/-- The environment that the command is run with. -/
def execEnvironment (p : Pipeline) :
    StepEnvironment := StepEnvironment.empty.addAll p.execVariables

/-- The step that checks out the repository. -/
def checkoutStep (p : Pipeline) : Step :=
  let step := Step.uses "Checkout" "actions/checkout@v4"
  match p.sparseCheckout with
  | none => step
  | some paths =>
      step.withInput "sparse-checkout"
        (String.intercalate "\n" (paths ++ discoveryPaths))

/-- A step that runs a script. -/
def scriptStep (scripts : ScriptSource) (id : String) (env : SortedMap String) :
    Except Error Step := do
  let script ← scripts.find id
  return ((Step.run s!"scripts/{id}.sh" "bash" script).withId id).withEnv env

/-- What a later job may read of the command. -/
def outputs : SortedMap String :=
  .ofList (["stdout", "stderr"].map fun name =>
    (name, ContextKey.expressionOf ("steps.exec.outputs." ++ name)))

/-- The steps of the job. -/
def steps (p : Pipeline) (scripts : ScriptSource) : Traced (List Step) := do
  let version :=
    SortedMap.empty.insert "DAGGER_VERSION" p.settings.daggerVersion
  let install ← .ofExcept (scriptStep scripts Script.installDagger version)
  let warm ← .ofExcept (scriptStep scripts Script.warmEngine .empty)
  let env := p.execEnvironment
  Traced.tellAll env.events
  let exec ← .ofExcept (scriptStep scripts Script.exec env.values)
  let stop ←
    if p.settings.stopEngine then
      (fun step => [step]) <$> Traced.ofExcept
        (scriptStep scripts Script.stopEngine .empty)
    else pure []
  return [p.checkoutStep, install, warm, exec] ++ stop

/-- The workflow of a pipeline, with scripts from a source. -/
def workflowWith (p : Pipeline) (scripts : ScriptSource) : Traced Workflow := do
  SecretName.check p.secrets
  let steps ← p.steps scripts
  Traced.tell (.pipelineCompiled p.name steps.length)
  let job : Job := ⟨p.settings.runner, steps, outputs⟩
  return ⟨p.command, .none, OrderedMap.empty.insert jobName job⟩

/-- The workflow of a pipeline. -/
def workflow (p : Pipeline) : Traced Workflow := p.workflowWith Script.bundled

end Pipeline

end DaggerWorkflows
