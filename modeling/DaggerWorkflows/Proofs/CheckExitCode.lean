import DaggerWorkflows.Proofs.CheckInterruption

/-!
# What the exit code of a check tells

The program ends with one code for what its user wrote and with another for
what happened around it. Checks come to an error in three ways: the pipeline is
refused, the call fails, or the runner cannot make the call. An error of the
first two is the user's. Of the third it would have to be the runner's, and is
so if the runner was told to stop or took too long (`ChecksTo.exitTells`). Any
other complaint of the runner becomes the reason why the pipeline is invalid,
and an invalid pipeline is the user's: a runner that cannot be reached looks
like a call that is wrong.

Which check decides is settled by `check_checksTo` for every window, and a
budget that is not there changes nothing, so all that remains is the one check.
-/

namespace DaggerWorkflows

namespace Pipeline

/-- How the error of a failed check tells why the check failed, when the runner
has that answer. -/
structure ExitTells (p : Pipeline) (answer : RunnerAnswer) (e : Error) :
    Prop where
  /-- A secret that is no name, or a call that ends with a failure. -/
  refused : (¬ p.HasNames ∨ ∃ o, answer = .ok o ∧ o.exitCode ≠ 0) →
    e.isUserError = true ∧ e.exitCode = 2
  /-- A runner that was told to stop or took too long. -/
  brokenOff : p.HasNames → ∀ cause, answer = .error cause →
    (cause = .cancelled ∨ ∃ seconds, cause = .timeout seconds) →
    e = cause ∧ e.isUserError = false ∧ e.exitCode = 3
  /-- A runner that fails in any other way. -/
  failed : p.HasNames → ∀ cause, answer = .error cause →
    cause ≠ .cancelled → (∀ seconds, cause ≠ .timeout seconds) →
    e = .pipelineInvalid p.command cause.message ∧
      e.isUserError = true ∧ e.exitCode = 2

variable {p : Pipeline} {answer : RunnerAnswer} {e : Error}

theorem exitTells_badSecret (h : p.ChecksTo answer (.error e))
    (hnames : ¬ p.HasNames) : e.isUserError = true ∧ e.exitCode = 2 := by
  obtain ⟨name, hname⟩ := exists_badSecret hnames
  obtain rfl := Except.error.inj (h.unique (.badSecret hname))
  exact ⟨rfl, rfl⟩

theorem ChecksTo.exitTells (h : p.ChecksTo answer (.error e)) :
    p.ExitTells answer e := by
  constructor
  · rintro (hnames | ⟨o, hanswer, hcode⟩)
    · exact exitTells_badSecret h hnames
    · by_cases hnames : p.HasNames
      · obtain rfl := Except.error.inj (h.unique (.exits hnames hanswer hcode))
        exact ⟨rfl, rfl⟩
      · exact exitTells_badSecret h hnames
  · rintro hnames cause hanswer (rfl | ⟨seconds, rfl⟩)
    · obtain rfl := Except.error.inj (h.unique (.cancelled hnames hanswer))
      exact ⟨rfl, rfl, rfl⟩
    · obtain rfl := Except.error.inj (h.unique (.timeout hnames hanswer))
      exact ⟨rfl, rfl, rfl⟩
  · intro hnames cause hanswer hcancelled htimeout
    obtain rfl :=
      Except.error.inj (h.unique (.fails hnames hanswer hcancelled htimeout))
    exact ⟨rfl, rfl, rfl⟩

end Pipeline

namespace Registry

/-- Checks without a budget come to what their triggers come to. -/
theorem checkWithin_checksTo (r : Registry) (repo : String) (c : Nat)
    (runner : Runner) (name : String) :
    r.ChecksTo repo runner (r.checkWithin repo c runner none name).result := by
  have hwhole : Schedule.run c ((none : Option Nat).map .timeout)
      (r.checkPlans repo runner) = r.check repo c runner none := rfl
  rw [(checkWithin_eq name hwhole).1]
  exact r.check_checksTo repo runner c

/-- Checks that fail do so for the first trigger that fails, and the exit code
tells why, but for a runner that is neither cancelled nor late and still makes
no call: that is told as the user's fault. -/
theorem check_exitCode (r : Registry) (repo : String) (c : Nat)
    (runner : Runner) (name : String) :
    match (r.checkWithin repo c runner none name).result with
    | .ok () => ∀ t ∈ r.trials repo runner, t.ChecksTo (.ok ())
    | .error e => ∃ k t, r.FirstFailure repo runner k ∧
        (r.trials repo runner)[k]? = some t ∧
        t.pipeline.ExitTells t.reply.answer e := by
  have hchecks := r.checkWithin_checksTo repo c runner name
  cases hresult : (r.checkWithin repo c runner none name).result with
  | ok _ =>
      rw [hresult] at hchecks
      cases hchecks with
      | passes hpass => exact hpass
  | error e =>
      rw [hresult] at hchecks
      cases hchecks with
      | fails htrials hbefore hfail =>
          refine ⟨_, _, firstFailure_of_fails htrials hbefore hfail, ?_,
            Pipeline.ChecksTo.exitTells hfail⟩
          simp [htrials]

/-- A runner that cannot be reached is told as a fault of the user. -/
theorem check_exitCode_unreachable :
    ∃ (r : Registry) (reply : String → RunnerReply) (cause : Error),
      (∀ t ∈ r.triggers, t.trigger.pipeline.HasNames ∧
        (reply t.trigger.pipeline.checkScript).answer = .error cause) ∧
      cause.isUserError = false ∧ cause.exitCode = 3 ∧
      ∃ e, (r.checkWithin "." 1 reply none "dagger").result = .error e ∧
        e.isUserError = true ∧ e.exitCode = 2 := by
  let build : Pipeline := ⟨"build", none, [], none, .default, by decide +kernel⟩
  let r : Registry :=
    { Registry.empty .default with push := [⟨build, default⟩] }
  let reply (_ : String) : RunnerReply :=
    ⟨0, .error (.runner "engine unreachable")⟩
  refine ⟨r, reply, .runner "engine unreachable", ?_, rfl, rfl,
    .pipelineInvalid "build" "container runner failed: engine unreachable",
    ?_, rfl, rfl⟩
  · intro t ht
    refine ⟨?_, rfl⟩
    obtain rfl : t = ⟨1, build, .push default⟩ := List.mem_singleton.1 ht
    decide +kernel
  · decide +kernel

end Registry

end DaggerWorkflows
