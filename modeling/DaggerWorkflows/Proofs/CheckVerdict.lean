import DaggerWorkflows.Proofs.PipelineCheck

/-!
# The verdict does not depend on the window

A `Trial` is the check of a trigger with what the runner replies to it, and once
it is known what each trial of a registry comes to, what the checks come to is a
matter of order alone: the first failure counts, wherever the others are.
`Registry.FirstFailure` is its position, and there is only one. `check_settles`
joins it to what is known of a run, which is where everything else about the
checks of a registry begins.

How many checks are made at a time, and how long each of them takes, decides
when the verdict is known, and never what it is.
-/

namespace DaggerWorkflows

/-- The check of a trigger, with what the runner replies to it. -/
structure Trial where
  registered : Registered
  reply : RunnerReply

namespace Trial

def pipeline (t : Trial) : Pipeline := t.registered.trigger.pipeline

/-- What the check of a trigger comes to. -/
def ChecksTo (t : Trial) (result : Except Error Unit) : Prop :=
  t.pipeline.ChecksTo t.reply.answer result

def plan (t : Trial) (repo : String) : CheckPlan :=
  t.registered.checkPlan repo fun _ => t.reply

theorem ChecksTo.unique {t : Trial} {result result' : Except Error Unit}
    (h : t.ChecksTo result) (h' : t.ChecksTo result') : result = result' :=
  Pipeline.ChecksTo.unique h h'

theorem checksTo_plan (t : Trial) (repo : String) :
    t.ChecksTo (t.plan repo).result :=
  (Pipeline.checksTo_iff repo fun _ => t.reply).2 rfl

end Trial

namespace Registry

open Schedule

variable {r : Registry} {repo : String} {runner : Runner}

/-- The checks of all triggers, each with the runner's reply in its place. -/
def trials (r : Registry) (repo : String) (runner : Runner) : List Trial :=
  r.triggers.mapIdx fun j t =>
    ⟨t, runner.reply j (t.trigger.pipeline.checkRequest repo)⟩

@[simp] theorem length_trials (r : Registry) (repo : String)
    (runner : Runner) :
    (r.trials repo runner).length = r.triggers.length := List.length_mapIdx

theorem getElem?_trials (j : Nat) :
    (r.trials repo runner)[j]? = r.triggers[j]?.map fun t =>
      ⟨t, runner.reply j (t.trigger.pipeline.checkRequest repo)⟩ :=
  List.getElem?_mapIdx

theorem map_registered_trials (r : Registry) (repo : String)
    (runner : Runner) :
    (r.trials repo runner).map (·.registered) = r.triggers := by
  apply List.ext_getElem?
  intro j
  rw [List.getElem?_map, getElem?_trials, Option.map_map]
  exact Option.map_id'

theorem checkPlans_eq (r : Registry) (repo : String) (runner : Runner) :
    r.checkPlans repo runner = (r.trials repo runner).map (·.plan repo) := by
  apply List.ext_getElem?
  intro j
  rw [checkPlans, List.getElem?_mapIdx, List.getElem?_map, getElem?_trials,
    Option.map_map]
  rfl

/-- What the checks of a registry come to: the first failure, if there is
one. -/
inductive ChecksTo (r : Registry) (repo : String) (runner : Runner) :
    Except Error Unit → Prop where
  | passes (hpass : ∀ t ∈ r.trials repo runner, t.ChecksTo (.ok ())) :
      ChecksTo r repo runner (.ok ())
  | fails {before after : List Trial} {t : Trial} {e : Error}
      (htrials : r.trials repo runner = before ++ t :: after)
      (hbefore : ∀ s ∈ before, s.ChecksTo (.ok ()))
      (hfail : t.ChecksTo (.error e)) :
      ChecksTo r repo runner (.error e)

/-- The check of the trigger at a position is the first that fails. If none
does, the position is the one after the last. -/
structure FirstFailure (r : Registry) (repo : String) (runner : Runner)
    (k : Nat) : Prop where
  le : k ≤ r.triggers.length
  passed : ∀ t ∈ (r.trials repo runner).take k, t.ChecksTo (.ok ())
  failed : ∀ t ∈ (r.trials repo runner)[k]?, ∃ e, t.ChecksTo (.error e)

/-- A check that has passed is not the first failure. -/
theorem FirstFailure.not_lt {k k' : Nat} (h : r.FirstFailure repo runner k)
    (h' : r.FirstFailure repo runner k') : ¬ k < k' := by
  intro hlt
  have hk : k < (r.trials repo runner).length := by
    have := h'.le
    rw [length_trials]
    omega
  obtain ⟨e, he⟩ := h.failed _ (List.getElem?_eq_getElem hk)
  have hmem : (r.trials repo runner)[k] ∈ (r.trials repo runner).take k' :=
    List.mem_take_iff_getElem.2 ⟨k, by omega, rfl⟩
  have := (h'.passed _ hmem).unique he
  cases this

theorem FirstFailure.unique {k k' : Nat} (h : r.FirstFailure repo runner k)
    (h' : r.FirstFailure repo runner k') : k = k' := by
  have := h.not_lt h'
  have := h'.not_lt h
  omega

theorem getElem?_checkPlans (j : Nat) :
    (r.checkPlans repo runner)[j]? =
      (r.trials repo runner)[j]?.map (·.plan repo) := by
  rw [checkPlans_eq, List.getElem?_map]

theorem length_checkPlans (r : Registry) (repo : String) (runner : Runner) :
    (r.checkPlans repo runner).length = r.triggers.length := List.length_mapIdx

theorem passed_of_checkPlans {m : Nat}
    (h : ∀ plan ∈ (r.checkPlans repo runner).take m, plan.result = .ok ()) :
    ∀ t ∈ (r.trials repo runner).take m, t.ChecksTo (.ok ()) := by
  intro t ht
  have hmem : t.plan repo ∈ (r.checkPlans repo runner).take m := by
    rw [checkPlans_eq, ← List.map_take]
    exact List.mem_map_of_mem ht
  rw [← h _ hmem]
  exact t.checksTo_plan repo

/-- The checks of a registry settle at its first failure. -/
theorem check_settles (r : Registry) (repo : String) (runner : Runner)
    (c : Nat) :
    ∃ k asked, r.FirstFailure repo runner k ∧
      Settles (max 1 c) (r.checkPlans repo runner)
        (r.check repo c runner none) k asked := by
  obtain ⟨k, asked, h⟩ := run_settles c (r.checkPlans repo runner)
  refine ⟨k, asked, ?_, h⟩
  constructor
  · rw [← r.length_checkPlans repo runner]
    exact h.k_le
  · exact passed_of_checkPlans h.passed
  · intro t ht
    have hplan : t.plan repo ∈ (r.checkPlans repo runner)[k]? := by
      rw [getElem?_checkPlans, ht]
      rfl
    obtain ⟨e, he⟩ := h.failed _ hplan
    exact ⟨e, he ▸ t.checksTo_plan repo⟩

theorem check_checksTo (r : Registry) (repo : String) (runner : Runner)
    (c : Nat) :
    r.ChecksTo repo runner (r.check repo c runner none).result := by
  obtain ⟨k, asked, hk, h⟩ := r.check_settles repo runner c
  rw [h.result, getElem?_checkPlans]
  cases ht : (r.trials repo runner)[k]? with
  | none =>
      rw [List.getElem?_eq_none_iff] at ht
      refine .passes fun t hmem => hk.passed t ?_
      rwa [List.take_of_length_le ht]
  | some t =>
      obtain ⟨e, he⟩ := hk.failed t ht
      have hresult := (t.checksTo_plan repo).unique he
      have htrials : r.trials repo runner =
          (r.trials repo runner).take k ++
            t :: (r.trials repo runner).drop (k + 1) := by
        obtain ⟨hlt, rfl⟩ := List.getElem?_eq_some_iff.1 ht
        rw [List.getElem_cons_drop, List.take_append_drop]
      rw [Option.map_some, Option.map_some, Option.getD_some, hresult]
      exact .fails htrials hk.passed he

theorem firstFailure_of_passes
    (hpass : ∀ t ∈ r.trials repo runner, t.ChecksTo (.ok ())) :
    r.FirstFailure repo runner r.triggers.length where
  le := Nat.le_refl _
  passed := fun t ht => hpass t (List.mem_of_mem_take ht)
  failed := by
    rw [List.getElem?_eq_none (Nat.le_of_eq (r.length_trials repo runner))]
    exact fun _ hmem => nomatch hmem

theorem firstFailure_of_fails {before after : List Trial} {t : Trial}
    {e : Error} (htrials : r.trials repo runner = before ++ t :: after)
    (hbefore : ∀ s ∈ before, s.ChecksTo (.ok ()))
    (hfail : t.ChecksTo (.error e)) :
    r.FirstFailure repo runner before.length where
  le := by
    rw [← r.length_trials repo runner, htrials]
    simp
  passed := by simpa [htrials] using hbefore
  failed := by
    intro s hs
    simp [htrials] at hs
    exact ⟨e, hs ▸ hfail⟩

theorem ChecksTo.unique {result result' : Except Error Unit}
    (h : r.ChecksTo repo runner result) (h' : r.ChecksTo repo runner result') :
    result = result' := by
  have hne : ∀ {before after : List Trial} {t : Trial} {e : Error},
      (∀ s ∈ r.trials repo runner, s.ChecksTo (.ok ())) →
      r.trials repo runner = before ++ t :: after →
        ¬ t.ChecksTo (.error e) := by
    intro before after t e hpass htrials hfail
    have := (hpass t (by simp [htrials])).unique hfail
    cases this
  cases h with
  | passes hpass =>
      cases h' with
      | passes => rfl
      | fails htrials hbefore hfail => exact absurd hfail (hne hpass htrials)
  | fails htrials hbefore hfail =>
      cases h' with
      | passes hpass => exact absurd hfail (hne hpass htrials)
      | fails htrials' hbefore' hfail' =>
          have hlength := (firstFailure_of_fails htrials hbefore hfail).unique
            (firstFailure_of_fails htrials' hbefore' hfail')
          obtain ⟨-, hrest⟩ :=
            List.append_inj (htrials.symm.trans htrials') hlength
          cases hrest
          exact hfail.unique hfail'

/-- What a check of a registry comes to follows from what the checks of its
triggers come to, and is the same in every window. A trigger's own check is the
check of its pipeline alone. -/
theorem check_verdict (r : Registry) (repo : String) (runner : Runner) :
    (∀ (p : Pipeline) (result : Except Error Unit),
      (p.check repo runner none).result = result ↔
        p.ChecksTo (runner.reply 0 (p.checkRequest repo)).answer result) ∧
    (∀ (c : Nat) (result : Except Error Unit),
      (r.check repo c runner none).result = result ↔
        r.ChecksTo repo runner result) ∧
    ∀ c c' : Nat,
      (r.check repo c runner none).result =
      (r.check repo c' runner none).result := by
  refine ⟨fun p result => ?_, fun c result => ⟨?_, ?_⟩, fun c c' => ?_⟩
  · rw [p.check_result, Pipeline.checksTo_iff]
  · rintro rfl
    exact r.check_checksTo repo runner c
  · intro h
    exact (r.check_checksTo repo runner c).unique h
  · exact (r.check_checksTo repo runner c).unique
      (r.check_checksTo repo runner c')

end Registry

end DaggerWorkflows
