import DaggerWorkflows.Proofs.CheckDispatch
import DaggerWorkflows.Proofs.InterruptedRun
import DaggerWorkflows.Proofs.RegistryFiles

/-!
# What has been checked can be compiled

Checking asks the runner about calls and compiling writes workflows, and what
they have in common is the names of secrets. Both look at them before anything
else, so a registry whose checks pass has its files, and a pipeline is refused
for a secret by both or by neither.

That a check is refused for a secret says nothing of the runner: it has not been
asked, it is too early to be cancelled (`check_of_badSecret`), and when the
runner itself complains of a name, that is a failure of the call
(`checksTo_badSecret`).
-/

namespace DaggerWorkflows

open Schedule

/-- Checks are cancelled some time before they would have ended, or come to what
they come to when they are not. -/
theorem Schedule.run_cancel_cases (size : Nat) (cancelAt : Option Nat)
    (plans : List CheckPlan) :
    run size (cancelAt.map .cancel) plans = run size none plans ∨
      0 < (run size none plans).finishedAt ∧
        (run size (cancelAt.map .cancel) plans).result = .error .cancelled := by
  cases cancelAt with
  | none => exact .inl rfl
  | some time =>
      rcases run_cases size (.cancel time) plans with ⟨hsame, -⟩ | hcut
      · exact .inl hsame
      · rcases hcut.exact with ⟨hlt, -⟩ | ⟨⟨seconds, htimeout⟩, -⟩
        · exact .inr ⟨Nat.lt_of_le_of_lt (Nat.zero_le _) hlt, hcut.result⟩
        · cases htimeout

namespace Pipeline

variable {p : Pipeline} {repo name : String} {runner : Runner}
  {answer : RunnerAnswer} {cancelAt : Option Nat}

/-- A check fails for a secret if the pipeline has one that is no name, and for
no other reason. -/
theorem checksTo_badSecret :
    p.ChecksTo answer (.error (.invalidSecretName name)) ↔
      SecretName.firstInvalid? p.secrets = some name := by
  rw [SecretName.firstInvalid?_eq]
  constructor
  · intro h
    cases h with
    | badSecret hname => exact hname
  · exact .badSecret

theorem workflow_badSecret :
    p.workflow.result = .error (.invalidSecretName name) ↔
      SecretName.firstInvalid? p.secrets = some name := by
  obtain ⟨steps, hworkflow⟩ := p.workflow_result
  rw [hworkflow]
  cases SecretName.firstInvalid? p.secrets with
  | none => simp
  | some name' => simp

theorem check_cases (p : Pipeline) (repo : String) (runner : Runner)
    (cancelAt : Option Nat) :
    p.check repo runner cancelAt = p.check repo runner none ∨
      0 < (p.check repo runner none).finishedAt ∧
        (p.check repo runner cancelAt).result = .error .cancelled :=
  run_cancel_cases 1 cancelAt _

/-- A check that a secret keeps from being made is over at once, and nothing is
asked. -/
theorem check_of_badSecret
    (h : SecretName.firstInvalid? p.secrets = some name) (repo : String)
    (runner : Runner) :
    (p.check repo runner none).finishedAt = 0 ∧
      (p.check repo runner none).requests = [] := by
  rw [SecretName.firstInvalid?_eq] at h
  let plan := p.checkPlan repo (runner.reply 0)
  obtain ⟨hrequest, hdelay, -⟩ := checkPlan_of_badSecret h repo (runner.reply 0)
  obtain ⟨k, asked, hsettles⟩ := run_settles 1 [plan]
  have hfinished : (p.check repo runner none).finishedAt = _ :=
    hsettles.finishedAt
  have hrequests : (p.check repo runner none).requests = _ := hsettles.requests
  constructor
  · rw [hfinished]
    have hcases : leftBy (max 1 1) (delayOf [plan]) (k + 1) = 0 ∨ _ :=
      leftBy_eq_zero_or_ends (k + 1)
    rcases hcases with hzero | ⟨j, -, hpos, -⟩
    · exact hzero
    · have hnone : delayOf [plan] j = 0 := by
        cases j with
        | zero => exact hdelay
        | succ j => rfl
      omega
  · rw [hrequests, requestsOf, List.flatMap_eq_nil_iff]
    rintro ⟨plan', j⟩ hmem
    have hplan : plan' = plan := by
      have := List.mem_of_mem_take (List.fst_mem_of_mem_zipIdx hmem)
      rwa [List.mem_singleton] at this
    subst hplan
    simp only [beginRequests, plan, hrequest]
    rfl

/-- Checking and compiling refuse the same secrets, whenever the check is
cancelled. -/
theorem check_badSecret :
    (p.check repo runner cancelAt).result = .error (.invalidSecretName name) ↔
      SecretName.firstInvalid? p.secrets = some name := by
  rcases p.check_cases repo runner cancelAt with hsame | ⟨hpos, hcancelled⟩
  · rw [hsame, check_result, ← checksTo_iff, checksTo_badSecret]
  · rw [hcancelled]
    refine iff_of_false nofun fun hbad => ?_
    rw [(check_of_badSecret hbad repo runner).1] at hpos
    exact absurd hpos (Nat.lt_irrefl _)

theorem requests_of_badSecret
    (h : SecretName.firstInvalid? p.secrets = some name) :
    (p.check repo runner cancelAt).requests = [] := by
  have hwhole := check_of_badSecret h repo runner
  rcases p.check_cases repo runner cancelAt with hsame | ⟨hpos, -⟩
  · rw [hsame]
    exact hwhole.2
  · rw [hwhole.1] at hpos
    exact absurd hpos (Nat.lt_irrefl _)

end Pipeline

namespace Registry

variable {r : Registry} {repo : String} {c : Nat} {runner : Runner}
  {cancelAt : Option Nat}

theorem hasNames_of_check_ok
    (h : (r.check repo c runner cancelAt).result = .ok ()) :
    ∀ t ∈ r.triggers, t.trigger.pipeline.HasNames := by
  rcases run_cancel_cases c cancelAt (r.checkPlans repo runner) with
    hsame | ⟨-, hcancelled⟩
  · have hwhole : r.check repo c runner cancelAt = r.check repo c runner none :=
      hsame
    have hchecks := r.check_checksTo repo runner c
    rw [← hwhole, h] at hchecks
    cases hchecks with
    | passes hpass => exact hasNames_of_passes hpass
  · have hfailed : (r.check repo c runner cancelAt).result = _ := hcancelled
    rw [h] at hfailed
    cases hfailed

theorem length_triggers (r : Registry) : r.triggers.length = r.size := by
  simp [triggers, TriggerKind.all, triggersOf, size]
  omega

/-- A registry has a file for each trigger if all secrets are names. -/
theorem files_of_names (h : ∀ t ∈ r.triggers, t.trigger.pipeline.HasNames)
    (stem : String) :
    ∃ tree, (r.files stem).result = .ok tree ∧ tree.size = r.size := by
  obtain ⟨tree, htree⟩ := exists_files_iff.2 h
  exact ⟨tree, htree,
    by rw [← length_triggers, (hasFile_of_files htree).length_eq]; rfl⟩

end Registry

end DaggerWorkflows
