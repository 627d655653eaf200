import DaggerWorkflows.Proofs.CompiledWorkflow
import DaggerWorkflows.Proofs.ScheduleInvariant
import DaggerWorkflows.Registry.Check
import Mathlib.Data.List.DropRight

/-!
# What the check of a pipeline comes to

The check of a pipeline is the pipeline's own affair: `ChecksTo` says by cases
what it comes to, from the secrets and from the runner's answer, and
`checksTo_iff` that its plan comes to that. A secret that is no name fails the
check before anything is asked of the runner, so there are two kinds of plan,
and `checkPlan_of_names` and `checkPlan_of_badSecret` say all of each.
-/

namespace DaggerWorkflows

namespace Text

theorem isEmpty_trim (s : String) : (trim s).isEmpty = isBlankText s := by
  have hnil : trimList s.toList = [] ↔ ∀ c ∈ s.toList, isBlank c = true := by
    unfold trimList
    rw [List.reverse_eq_nil_iff, List.dropWhile_eq_nil_iff]
    simp only [List.mem_reverse]
    rw [← List.dropWhile_eq_nil_iff, List.dropWhile_idempotent,
      List.dropWhile_eq_nil_iff]
  rw [Bool.eq_iff_iff]
  simp [trim, isBlankText, hnil]

end Text

namespace Pipeline

variable {p : Pipeline} {answer : RunnerAnswer}
  {reply : ExecRequest → RunnerReply}

/-- Whether every secret of a pipeline is a name. -/
def HasNames (p : Pipeline) : Prop := ∀ s ∈ p.secrets, SecretName.IsName s

instance (p : Pipeline) : Decidable p.HasNames :=
  inferInstanceAs (Decidable (∀ s ∈ p.secrets, SecretName.IsName s))

/-- What the check of a pipeline comes to, by itself, when the runner has that
answer. -/
inductive ChecksTo (p : Pipeline) (answer : RunnerAnswer) :
    Except Error Unit → Prop where
  | badSecret {name : String}
      (hname : p.secrets.find? (fun s => ¬ SecretName.IsName s) = some name) :
      ChecksTo p answer (.error (.invalidSecretName name))
  | passes {o : ExecOutcome} (hnames : p.HasNames) (hanswer : answer = .ok o)
      (hcode : o.exitCode = 0) : ChecksTo p answer (.ok ())
  | exits {o : ExecOutcome} (hnames : p.HasNames) (hanswer : answer = .ok o)
      (hcode : o.exitCode ≠ 0) :
      ChecksTo p answer (.error (.pipelineInvalid p.command
        (if Text.isBlankText o.stderr then s!"exit code {o.exitCode}"
          else s!"exit code {o.exitCode}: {Text.trim o.stderr}")))
  | cancelled (hnames : p.HasNames) (hanswer : answer = .error .cancelled) :
      ChecksTo p answer (.error .cancelled)
  | timeout {seconds : Nat} (hnames : p.HasNames)
      (hanswer : answer = .error (.timeout seconds)) :
      ChecksTo p answer (.error (.timeout seconds))
  | fails {e : Error} (hnames : p.HasNames) (hanswer : answer = .error e)
      (hcancelled : e ≠ .cancelled)
      (htimeout : ∀ seconds, e ≠ .timeout seconds) :
      ChecksTo p answer (.error (.pipelineInvalid p.command e.message))

theorem ChecksTo.hasNames (h : p.ChecksTo answer (.ok ())) : p.HasNames := by
  cases h with
  | passes hnames hanswer hcode => exact hnames

/-- The plan of a check whose secrets are names. -/
theorem checkPlan_of_names (h : p.HasNames) (repo : String)
    (reply : ExecRequest → RunnerReply) :
    (p.checkPlan repo reply).request = some (p.checkRequest repo) ∧
      (p.checkPlan repo reply).delay = (reply (p.checkRequest repo)).delay ∧
      (p.checkPlan repo reply).result =
        p.verdict (reply (p.checkRequest repo)).answer := by
  have hcheck := SecretName.check_result p.secrets
  rw [SecretName.firstInvalid?_eq_none.2 h] at hcheck
  unfold checkPlan
  simp [hcheck]

/-- The plan of a check that a secret keeps from being made. -/
theorem checkPlan_of_badSecret {name : String}
    (h : p.secrets.find? (fun s => ¬ SecretName.IsName s) = some name)
    (repo : String) (reply : ExecRequest → RunnerReply) :
    (p.checkPlan repo reply).request = none ∧
      (p.checkPlan repo reply).delay = 0 ∧
      (p.checkPlan repo reply).result = .error (.invalidSecretName name) := by
  have hcheck := SecretName.check_result p.secrets
  rw [SecretName.firstInvalid?_eq, h] at hcheck
  unfold checkPlan
  simp [hcheck]

theorem exists_badSecret (h : ¬ p.HasNames) :
    ∃ name, p.secrets.find? (fun s => ¬ SecretName.IsName s) = some name := by
  rw [← Option.isSome_iff_exists, List.find?_isSome]
  simpa [HasNames] using h

/-- The answer decides a check whose secrets are names. -/
theorem checksTo_verdict (hnames : p.HasNames) (answer : RunnerAnswer) :
    p.ChecksTo answer (p.verdict answer) := by
  cases answer with
  | ok o =>
      by_cases hcode : o.exitCode = 0
      · have hverdict : p.verdict (.ok o) = .ok () := by
          simp [verdict, ExecOutcome.isSuccess, hcode]
        rw [hverdict]
        exact .passes hnames rfl hcode
      · have hexits : p.ChecksTo (.ok o) _ := .exits hnames rfl hcode
        simpa [verdict, ExecOutcome.isSuccess, hcode, failureReason,
          Text.isEmpty_trim] using hexits
  | error e =>
      cases e with
      | cancelled => exact .cancelled hnames rfl
      | timeout seconds => exact .timeout hnames rfl
      | _ => exact .fails hnames rfl (by simp) (by simp)

theorem ChecksTo.plan_result {result : Except Error Unit} (repo : String)
    (h : p.ChecksTo (reply (p.checkRequest repo)).answer result) :
    (p.checkPlan repo reply).result = result := by
  cases h with
  | badSecret hname => exact (checkPlan_of_badSecret hname repo reply).2.2
  | passes hnames hanswer hcode =>
      rw [(checkPlan_of_names hnames repo reply).2.2, hanswer]
      simp [verdict, ExecOutcome.isSuccess, hcode]
  | exits hnames hanswer hcode =>
      rw [(checkPlan_of_names hnames repo reply).2.2, hanswer]
      simp [verdict, ExecOutcome.isSuccess, hcode, failureReason,
        Text.isEmpty_trim]
  | cancelled hnames hanswer =>
      rw [(checkPlan_of_names hnames repo reply).2.2, hanswer]
      rfl
  | timeout hnames hanswer =>
      rw [(checkPlan_of_names hnames repo reply).2.2, hanswer]
      rfl
  | @fails e hnames hanswer hcancelled htimeout =>
      rw [(checkPlan_of_names hnames repo reply).2.2, hanswer]
      cases e <;> simp_all [verdict]

/-- The check of a pipeline comes to one thing, and its plan says which. -/
theorem checksTo_iff (repo : String) (reply : ExecRequest → RunnerReply)
    {result : Except Error Unit} :
    p.ChecksTo (reply (p.checkRequest repo)).answer result ↔
      (p.checkPlan repo reply).result = result := by
  refine ⟨fun h => h.plan_result repo, ?_⟩
  rintro rfl
  by_cases hnames : p.HasNames
  · rw [(checkPlan_of_names hnames repo reply).2.2]
    exact checksTo_verdict hnames _
  · obtain ⟨name, hname⟩ := exists_badSecret hnames
    rw [(checkPlan_of_badSecret hname repo reply).2.2]
    exact .badSecret hname

theorem ChecksTo.unique {result result' : Except Error Unit}
    (h : p.ChecksTo answer result) (h' : p.ChecksTo answer result') :
    result = result' := by
  let reply (_ : ExecRequest) : RunnerReply := ⟨0, answer⟩
  have hplan : (p.checkPlan "" reply).result = result := h.plan_result ""
  have hplan' : (p.checkPlan "" reply).result = result' := h'.plan_result ""
  rw [← hplan, ← hplan']

theorem check_result (p : Pipeline) (repo : String) (runner : Runner) :
    (p.check repo runner none).result =
      (p.checkPlan repo (runner.reply 0)).result := by
  obtain ⟨k, asked, h⟩ :=
    Schedule.run_settles 1 [p.checkPlan repo (runner.reply 0)]
  have hresult : (p.check repo runner none).result = _ := h.result
  have hk := h.k_le
  rcases Nat.le_one_iff_eq_zero_or_eq_one.1 hk with rfl | rfl
  · exact hresult
  · rw [hresult, h.passed (p.checkPlan repo (runner.reply 0)) (by simp)]
    rfl

end Pipeline

end DaggerWorkflows
