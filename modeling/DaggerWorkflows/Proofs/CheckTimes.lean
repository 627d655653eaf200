import DaggerWorkflows.Proofs.CheckDispatch

/-!
# When the checks of a registry happen

A run and the recurrence of `WindowTimes.lean` have the same times: a trigger is
asked for when the recurrence has its check come in, and the run ends when the
recurrence has the first failure leave, or the last check where none fails.

The first failure is the same in every window, so a run in a larger window ends
no later: the recurrence says so of each check (`leftBy_antitone`).
-/

namespace DaggerWorkflows.Registry

open Schedule

variable {r : Registry} {repo : String} {runner : Runner}

theorem delayAt_of_le {j : Nat} (h : r.triggers.length ≤ j) :
    r.delayAt repo runner j = 0 := by
  rw [delayAt, List.getElem?_eq_none (by rw [length_trials]; exact h)]
  rfl

theorem sum_delayAt (r : Registry) (repo : String) (runner : Runner) (m : Nat) :
    ((List.range m).map (r.delayAt repo runner)).sum =
      (((r.trials repo runner).take m).map (·.delay)).sum := by
  induction m with
  | zero => rfl
  | succ m ih =>
      rw [List.range_succ, List.take_add_one, List.map_append, List.map_append,
        List.sum_append, List.sum_append, ih, List.map_singleton,
        List.sum_singleton, delayAt]
      cases (r.trials repo runner)[m]? <;> rfl

theorem finishedAt_eq {k c : Nat} (hk : r.FirstFailure repo runner k) :
    (r.check repo c runner none).finishedAt =
      leftBy (max 1 c) (r.delayAt repo runner) (k + 1) := by
  obtain ⟨k', asked, hk', h⟩ := r.check_settles repo runner c
  rw [h.finishedAt, delayOf_checkPlans, hk.unique hk']

/-- Where no check fails, the first failure is after the last check, which
leaves at the same time. -/
theorem leftBy_firstFailure {k size : Nat} (hk : r.FirstFailure repo runner k)
    (hne : r.triggers ≠ []) :
    leftBy size (r.delayAt repo runner) (k + 1) =
      leavesAt size (r.delayAt repo runner)
        (min k (r.triggers.length - 1)) := by
  have hpos := List.length_pos_iff.2 hne
  have hle := hk.le
  rcases Nat.lt_or_eq_of_le hle with hlt | heq
  · rw [Nat.min_eq_left (by omega), leftBy_succ]
  · rw [leftBy_succ_of_delay_eq_zero (delayAt_of_le (Nat.le_of_eq heq.symm)),
      heq, Nat.min_eq_right (by omega), ← leftBy_succ]
    congr 1
    omega

/-- Each request is made when the recurrence has its check come into the window,
with the script of the trigger, and the run ends when the recurrence has the
first failure leave it. In a larger window it ends no later, and in a window of
one the delays add up. -/
theorem check_times (r : Registry) (repo : String) (runner : Runner) (c : Nat) :
    ∃ k started, r.FirstFailure repo runner k ∧
      (r.check repo c runner none).requests =
        (r.asking started).map (fun (t, j) =>
          (entersAt (max 1 c) (r.delayAt repo runner) j,
            t.trigger.pipeline.checkRequest repo)) ∧
      (r.check repo c runner none).requests.map (fun q => (q.1, q.2.script?)) =
        (r.asking started).map (fun (t, j) =>
          (entersAt (max 1 c) (r.delayAt repo runner) j,
            some t.trigger.pipeline.checkScript)) ∧
      (r.check repo c runner none).finishedAt =
        (if r.triggers = [] then 0
          else leavesAt (max 1 c) (r.delayAt repo runner)
            (min k (r.triggers.length - 1))) ∧
      (∀ j, entersAt (max 1 c) (r.delayAt repo runner) j =
        if j < max 1 c then 0
        else leavesAt (max 1 c) (r.delayAt repo runner) (j - max 1 c)) ∧
      (∀ j, leavesAt (max 1 c) (r.delayAt repo runner) j =
        max (if j = 0 then 0
            else leavesAt (max 1 c) (r.delayAt repo runner) (j - 1))
          (entersAt (max 1 c) (r.delayAt repo runner) j +
            r.delayAt repo runner j)) ∧
      (∀ c', c ≤ c' →
        (r.check repo c' runner none).finishedAt ≤
          (r.check repo c runner none).finishedAt) ∧
      (c ≤ 1 → (r.check repo c runner none).finishedAt =
        (((r.trials repo runner).take (k + 1)).map (·.delay)).sum) := by
  obtain ⟨k, started, hk, h⟩ := r.check_settles repo runner c
  have hrequests : (r.check repo c runner none).requests = _ :=
    h.requests.trans (requestsOf_checkPlans _ _)
  refine ⟨k, started, hk, hrequests, ?_, ?_, fun j =>
    ?_, fun j => leavesAt_eq j, fun c' hc => ?_, fun hc => ?_⟩
  · rw [hrequests, List.map_map]
    rfl
  · rw [finishedAt_eq hk]
    split
    · next hnil =>
        have hlength : r.triggers.length = 0 := by rw [hnil]; rfl
        have hzero : k = 0 := Nat.eq_zero_of_le_zero (hlength ▸ hk.le)
        subst hzero
        exact leftBy_succ_of_delay_eq_zero
          (delayAt_of_le (Nat.le_of_eq hlength))
    · next hne => exact leftBy_firstFailure hk hne
  · have hmax : max 1 (max 1 c) = max 1 c := by omega
    rw [entersAt, hmax]
  · rw [finishedAt_eq hk, finishedAt_eq hk]
    exact leftBy_antitone (by omega) _
  · rw [finishedAt_eq hk, leftBy_of_size_le_one (by omega), sum_delayAt]

end DaggerWorkflows.Registry
