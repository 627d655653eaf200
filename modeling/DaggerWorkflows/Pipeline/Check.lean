import DaggerWorkflows.Container
import DaggerWorkflows.Pipeline
import DaggerWorkflows.SecretName

/-!
# Checks of pipelines

A pipeline is checked by asking for help on its call in a container that has
the repository. What a check will do is known once it is known how the runner
will answer; a plan says it, and when it happens is for others to say.
-/

namespace DaggerWorkflows

/-- A runner's answer and how many milliseconds it takes. -/
structure RunnerReply where
  delay : Nat
  answer : RunnerAnswer

/-- How a container runner replies in a run. A reply may depend on the place
of the check among the checks of the run and on what is asked. -/
structure Runner where
  reply : Nat → ExecRequest → RunnerReply

/-- A runner that looks at nothing but the script. -/
def Runner.ofScripts (reply : String → RunnerReply) : Runner :=
  ⟨fun _ request => reply (request.script?.getD "")⟩

instance : Coe (String → RunnerReply) Runner := ⟨.ofScripts⟩

/-- What a check will do: ask the runner, unless it fails before, and end when
the answer comes. -/
structure CheckPlan where
  request : Option ExecRequest
  /-- What happens when the check starts. -/
  before : List Event
  delay : Nat
  /-- What happens when the answer comes. -/
  after : List Event
  result : Except Error Unit
  /-- A check that asks for nothing waits for nothing. -/
  delay_eq_zero : request = none → delay = 0

namespace Pipeline

/-- Where containers have the repository. -/
def mountPath : String := "/src"

/-- What is asked of the runner. -/
def checkRequest (p : Pipeline) (repo : String) : ExecRequest :=
  ((((ExecRequest.bash p.checkScript).withPackage "dagger").withMount repo
    mountPath).withWorkdir mountPath).withNesting

/-- Why a command failed that ended with this outcome. -/
def failureReason (o : ExecOutcome) : String :=
  let stderr := Text.trim o.stderr
  if stderr.isEmpty then s!"exit code {o.exitCode}"
  else s!"exit code {o.exitCode}: {stderr}"

/-- What the runner's answer says about the pipeline. -/
def verdict (p : Pipeline) : RunnerAnswer → Except Error Unit
  | .ok o =>
      if o.isSuccess then .ok ()
      else .error (.pipelineInvalid p.command (failureReason o))
  | .error .cancelled => .error .cancelled
  | .error (.timeout seconds) => .error (.timeout seconds)
  | .error e => .error (.pipelineInvalid p.command e.message)

/-- The check of a pipeline. -/
def checkPlan (p : Pipeline) (repo : String)
    (reply : ExecRequest → RunnerReply) : CheckPlan :=
  let names := SecretName.check p.secrets
  match names.result with
  | .error e => ⟨none, names.events, 0, [], .error e, fun _ => rfl⟩
  | .ok () =>
      let request := p.checkRequest repo
      let reply := reply request
      let result := p.verdict reply.answer
      { request := some request
        before := names.events ++ [.scriptRunning request.script?]
        delay := reply.delay
        after := if result.isOk then [.pipelinePassed p.command] else []
        result
        delay_eq_zero := nofun }

end Pipeline

end DaggerWorkflows
