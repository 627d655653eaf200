import DaggerWorkflows.Registry
import DaggerWorkflows.Schedule

/-!
# Checking a registry

The pipelines of all triggers are checked in the order of the triggers, several
at a time. The checks may be cancelled from outside, or given up after a time.
-/

namespace DaggerWorkflows

/-- The check of a registered trigger. -/
def Registered.checkPlan (t : Registered) (repo : String)
    (reply : ExecRequest → RunnerReply) : CheckPlan :=
  let p := t.trigger.pipeline
  let plan := p.checkPlan repo reply
  let kind := t.trigger.kind.discriminator
  { plan with
    before := .pipelineChecking kind t.index p.command :: plan.before }

namespace Pipeline

/-- Check a pipeline alone. -/
def check (p : Pipeline) (repo : String) (runner : Runner)
    (cancelAt : Option Nat) : Schedule.Outcome :=
  Schedule.run 1 (cancelAt.map .cancel) [p.checkPlan repo (runner.reply 0)]

end Pipeline

namespace Registry

/-- What the checks of all triggers will do. -/
def checkPlans (r : Registry) (repo : String) (runner : Runner) :
    List CheckPlan :=
  r.triggers.mapIdx fun j t => t.checkPlan repo (runner.reply j)

/-- Check all pipelines, so many at a time. -/
def check (r : Registry) (repo : String) (concurrency : Nat) (runner : Runner)
    (cancelAt : Option Nat) : Schedule.Outcome :=
  Schedule.run concurrency (cancelAt.map .cancel) (r.checkPlans repo runner)

/-- Check all pipelines within so many seconds, with a runner of that name. -/
def checkWithin (r : Registry) (repo : String) (concurrency : Nat)
    (runner : Runner) (timeout : Option Nat) (name : String) :
    Schedule.Outcome :=
  let outcome := Schedule.run concurrency (timeout.map .timeout)
    (r.checkPlans repo runner)
  match outcome.result with
  | .ok () =>
      { outcome with events := outcome.events ++ [.allPassed r.size name] }
  | .error _ => outcome

end Registry

end DaggerWorkflows
